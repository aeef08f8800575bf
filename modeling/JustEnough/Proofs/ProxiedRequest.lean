/-
What the proxy makes of a client's request.

The path: the prefix is cut off, and only where nothing is left a slash is put in its
place.  A rest that does not start with a slash is sent as it is, where the static
handler puts a slash in front (`proxied_path_iff`).

The headers: each connection replaces one `Host` and one `Connection`, the first of that
name, and leaves the others of it.  A call that follows a redirect replaces another
`Host`, by one that the connection after it removes again.  So there are as many of
either in every request that is sent as in the client's, or one if there was none
(`Carried.sent`), and all other headers are the client's (`proxied_headers_iff`).
-/
import JustEnough.Proofs.Redirects
import JustEnough.Proofs.StaticPaths

namespace JustEnough

namespace ProxyHandler

/-! ### The connections of any call -/

variable {ω : Type}

/-- The connections of a call, whatever state it finds: none if it waits for the mutex. -/
def callVisits (source : ω → Option (Exchange × ω)) (fuel : Nat) (request : Request)
    (m : Prog.Mem ProxyHandler ω ProxyQuestion) : List Visit :=
  if m.held = true ∧ m.shared.redirect = false then []
  else visits source fuel { m.shared with redirect := false } request m.env

/-- **What a call asks is what these connections ask.** -/
theorem asked_callVisits (source : ω → Option (Exchange × ω)) (fuel : Nat) (request : Request)
    (response : Response) (m : Prog.Mem ProxyHandler ω ProxyQuestion) :
    ((handleRequest fuel request response).run (answering source) m).2.asked
      = m.asked ++ (callVisits source fuel request m).flatMap Visit.questions := by
  unfold callVisits
  by_cases hredirect : m.shared.redirect = true
  · rw [if_neg (by simp [hredirect])]
    exact asked_follow source fuel request response hredirect
  · have hidle : m.shared.redirect = false := by simpa using hredirect
    by_cases hheld : m.held = true
    · rw [if_pos ⟨hheld, hidle⟩]
      cases fuel with
      | zero => simp [handleRequest, Prog.run]
      | succ fuel => simp [handleRequest, Prog.run_bind, enter, Prog.run, hheld, hidle, Prog.andThen]
    · have hfree : m.held = false := by simpa using hheld
      have hsame : { m.shared with redirect := false } = m.shared := by rw [← hidle]
      rw [if_neg (by simp [hfree]), hsame]
      exact asked_handleRequest source fuel request response hfree hidle

/-! ### The path -/

/-- A path made to start with a slash. -/
def slashed (rest : Str) : Str := if rest.head? = some (byte '/') then rest else byte '/' :: rest

/-- This is how the static handler puts its paths together. -/
theorem requestPath_slashed {sh : StaticHandler} {uri : Str} (hstarts : sh.path <+: uri) :
    sh.requestPath uri = .ok (slashed (uri.drop sh.path.length)) := by
  simp only [StaticHandler.requestPath, substr, if_pos hstarts.length_le, Except.map, slashed]

theorem sentRequest_uri (h : ProxyHandler) (request : Request) :
    (sentRequest h request).uri
      = if request.uri.drop h.uriPrefix.length = [] then lit "/"
        else request.uri.drop h.uriPrefix.length := rfl

theorem sentRequest_slashed_iff {h : ProxyHandler} {request : Request} :
    (sentRequest h request).uri = slashed (request.uri.drop h.uriPrefix.length) ↔
      request.uri.drop h.uriPrefix.length = [] ∨
        (request.uri.drop h.uriPrefix.length).head? = some (byte '/') := by
  rw [sentRequest_uri]
  generalize request.uri.drop h.uriPrefix.length = rest
  unfold slashed
  by_cases hnil : rest = []
  · simp [hnil, lit]
  · rw [if_neg hnil]
    by_cases hslash : rest.head? = some (byte '/')
    · simp [hslash]
    · simp [hnil, hslash]

theorem slashed_head (rest : Str) : (slashed rest).head? = some (byte '/') := by
  unfold slashed
  split
  · assumption
  · rfl

/-- The first connection of a call is made for the request it was given. -/
theorem callVisits_first {source : ω → Option (Exchange × ω)} {fuel : Nat} {request : Request}
    {m : Prog.Mem ProxyHandler ω ProxyQuestion} {v : Visit} {vs : List Visit}
    (h : callVisits source fuel request m = v :: vs) : v.sent = sentRequest m.shared request := by
  unfold callVisits at h
  split at h
  · cases h
  cases fuel with
  | zero => cases h
  | succ fuel =>
      by_cases hrefused : Unconfigured { m.shared with redirect := false } ∨
          ¬CutsPrefix { m.shared with redirect := false } request
      · rw [visits_refused hrefused] at h
        cases h
      · obtain ⟨hconf, huri⟩ := not_or.mp hrefused
        obtain ⟨exchange, ws, hcons⟩ :=
          @exists_visits_cons _ source fuel _ _ hconf (not_not.mp huri) m.env
        rw [hcons] at h
        obtain ⟨rfl, -⟩ := List.cons.inj h
        rfl

/--
**The path that is sent** is the static handler's exactly where nothing is left of the URI behind
the prefix, or what is left starts with a slash.  The prefix is `uri_prefix_` as the call finds
it, which an earlier redirect may have emptied.
-/
theorem proxied_path_iff (source : ω → Option (Exchange × ω)) (fuel : Nat) {request : Request}
    (response : Response) {m : Prog.Mem ProxyHandler ω ProxyQuestion}
    (hstarts : m.shared.uriPrefix <+: request.uri) :
    ((handleRequest fuel request response).run (answering source) m).2.asked
        = m.asked ++ (callVisits source fuel request m).flatMap Visit.questions ∧
      (∀ sh : StaticHandler, sh.path = m.shared.uriPrefix →
        sh.requestPath request.uri = .ok (slashed (request.uri.drop m.shared.uriPrefix.length))) ∧
      ∀ v vs, callVisits source fuel request m = v :: vs →
        (v.sent.uri.head? = some (byte '/') ∧
            v.sent.uri = slashed (request.uri.drop m.shared.uriPrefix.length) ↔
          request.uri.drop m.shared.uriPrefix.length = [] ∨
            (request.uri.drop m.shared.uriPrefix.length).head? = some (byte '/')) := by
  refine ⟨asked_callVisits source fuel request response m, fun sh hpath => ?_, fun v vs hv => ?_⟩
  · have hpathStarts : sh.path <+: request.uri := by rwa [hpath]
    rw [requestPath_slashed hpathStarts, hpath]
  · rw [callVisits_first hv, ← sentRequest_slashed_iff]
    constructor
    · intro h
      exact h.2
    · intro h
      exact ⟨by rw [h]; exact slashed_head _, h⟩

/-- The example handler, mounted at the root. -/
def rootProxy : ProxyHandler := { proxyExample with uriPrefix := lit "/" }

def rootMem : ProxyMem := { shared := rootProxy, held := false, env := [replying []], asked := [] }

/-- What is left of `/x` is sent without a slash. -/
theorem proxied_path_unslashed :
    .write (lit "GET x HTTP/1.1\r\nConnection: Close\r\nHost: a.com:80\r\n\r\n") ∈
        ((handleRequest 8 (proxyRequest (lit "/x")) { code := 0 }).run upstream rootMem).2.asked ∧
      ¬((sentRequest rootProxy (proxyRequest (lit "/x"))).uri.head? = some (byte '/') ∧
        (sentRequest rootProxy (proxyRequest (lit "/x"))).uri = slashed (lit "x")) := by
  refine ⟨by decide +kernel, ?_⟩
  rw [sentRequest_uri]
  decide

theorem proxied_path_example :
    ((handleRequest 8 (proxyRequest (lit "/proxy/x")) { code := 0 }).run (answering nextExchange)
        (exampleMem [[]])).2.asked = [] ++
          (callVisits nextExchange 8 (proxyRequest (lit "/proxy/x")) (exampleMem [[]])).flatMap
            Visit.questions ∧
      (∀ sh : StaticHandler, sh.path = lit "/proxy" →
        sh.requestPath (lit "/proxy/x") = .ok (slashed (lit "/x"))) ∧
      ∀ v vs, callVisits nextExchange 8 (proxyRequest (lit "/proxy/x")) (exampleMem [[]]) = v :: vs →
        (v.sent.uri.head? = some (byte '/') ∧ v.sent.uri = slashed (lit "/x") ↔
          lit "/x" = [] ∨ (lit "/x").head? = some (byte '/')) :=
  proxied_path_iff nextExchange 8 { code := 0 } (m := exampleMem [[]])
    (show lit "/proxy" <+: lit "/proxy/x" by decide)

/-! ### The headers -/

/-- The headers with that name, in order. -/
def named (name : Str) (headers : Headers) : Headers := headers.filter fun header => header.1 = name

/-- The headers the proxy has no value of its own for. -/
def others (headers : Headers) : Headers :=
  headers.filter fun header => header.1 ≠ lit "Host" ∧ header.1 ≠ lit "Connection"

/-- Removing the first of a kind leaves the rest of that kind, and every other kind whole. -/
theorem filter_eraseP {α : Type} (p q : α → Bool) (l : List α)
    (hdisjoint : ∀ x ∈ l, p x = true → q x = false) :
    (l.eraseP p).filter p = (l.filter p).tail ∧ (l.eraseP p).filter q = l.filter q := by
  induction l with
  | nil => simp
  | cons x l ih =>
      have hrest := ih fun y hy => hdisjoint y (by simp [hy])
      by_cases hp : p x = true
      · have hq := hdisjoint x (by simp) hp
        simp [hp, hq]
      · rw [List.eraseP_cons_of_neg hp, List.filter_cons_of_neg hp, List.filter_cons_of_neg hp,
          List.filter_cons, List.filter_cons, hrest.2]
        exact ⟨hrest.1, rfl⟩

/-- The first header of that name is replaced, and stands at the end. -/
theorem named_replace {request : Request} {name value : Str} :
    named name ((request.removeHeader name).addHeader name value).headers
      = (named name request.headers).tail ++ [(name, value)] := by
  have herase := (filter_eraseP (fun header : Str × Str => decide (header.1 = name))
    (fun _ => false) request.headers (by simp)).1
  simp [named, Request.removeHeader, Request.addHeader, herase]

theorem filter_replace {request : Request} {name value : Str} {q : Str × Str → Bool}
    (hq : ∀ header : Str × Str, header.1 = name → q header = false) :
    ((request.removeHeader name).addHeader name value).headers.filter q
      = request.headers.filter q := by
  have herase := (filter_eraseP (fun header : Str × Str => decide (header.1 = name)) q
    request.headers (fun header _ h => hq header (by simpa using h))).2
  simp [Request.removeHeader, Request.addHeader, herase, hq]

theorem named_replace_other {request : Request} {name other value : Str} (hne : name ≠ other) :
    named other ((request.removeHeader name).addHeader name value).headers
      = named other request.headers := by
  refine filter_replace fun header hname => ?_
  simp [hname, hne]

theorem others_replace {request : Request} {name value : Str}
    (hname : name = lit "Host" ∨ name = lit "Connection") :
    others ((request.removeHeader name).addHeader name value).headers = others request.headers := by
  refine filter_replace fun header hheader => ?_
  rw [hheader]
  rcases hname with rfl | rfl
  · decide
  · decide

/-- The headers of a request on its way to a host and port. -/
structure Headed (client : Request) (v : Visit) : Prop where
  host : named (lit "Host") v.sent.headers = [(lit "Host", v.host ++ lit ":" ++ v.port)]
  connection : named (lit "Connection") v.sent.headers = [(lit "Connection", lit "Close")]
  others : others v.sent.headers = others client.headers

/-- What a request keeps of the client's headers, however often it has been redirected. -/
structure Carried (client request : Request) : Prop where
  hosts : (named (lit "Host") request.headers).length - 1
    = (named (lit "Host") client.headers).length - 1
  connections : named (lit "Connection") request.headers = named (lit "Connection") client.headers
  others : ProxyHandler.others request.headers = ProxyHandler.others client.headers

theorem Carried.refl (client : Request) : Carried client client := ⟨rfl, rfl, rfl⟩

theorem Carried.redirect {client request : Request} (h : Carried client request)
    (ph : ProxyHandler) : Carried client (redirectRequest ph request) where
  hosts := by
    rw [redirectRequest, named_replace, List.length_append, List.length_tail, ← h.hosts]
    simp [Request.setUri]
  connections := by
    rw [redirectRequest, named_replace_other (by decide), ← h.connections]
    rfl
  others := by
    rw [redirectRequest, others_replace (Or.inl rfl), ← h.others]
    rfl

/-- At most one header of that name. -/
def AtMostOne (name : Str) (client : Request) : Prop := (named name client.headers).length ≤ 1

theorem hosts_sentRequest (ph : ProxyHandler) (request : Request) :
    named (lit "Host") (sentRequest ph request).headers
      = (named (lit "Host") request.headers).tail ++
        [(lit "Host", hostOf ph ++ lit ":" ++ ph.remotePort)] := by
  rw [sentRequest, proxiedRequest, named_replace, named_replace_other (by decide)]
  rfl

theorem connections_sentRequest (ph : ProxyHandler) (request : Request) :
    named (lit "Connection") (sentRequest ph request).headers
      = (named (lit "Connection") request.headers).tail ++ [(lit "Connection", lit "Close")] := by
  rw [sentRequest, proxiedRequest, named_replace_other (by decide), named_replace]
  rfl

theorem others_sentRequest (ph : ProxyHandler) (request : Request) :
    others (sentRequest ph request).headers = others request.headers := by
  rw [sentRequest, proxiedRequest, others_replace (Or.inl rfl), others_replace (Or.inr rfl)]
  rfl

/-- One header of a kind is left where one at most was there before. -/
theorem tail_append_eq_iff {l : Headers} {header : Str × Str} :
    l.tail ++ [header] = [header] ↔ l.length - 1 = 0 := by
  rw [← List.length_tail, List.length_eq_zero_iff]
  simp

theorem Carried.sent {client request : Request} (h : Carried client request) (ph : ProxyHandler)
    (exchange : Option Exchange) :
    Headed client (visit ph request exchange) ↔
      AtMostOne (lit "Host") client ∧ AtMostOne (lit "Connection") client := by
  have hhosts := hosts_sentRequest ph request
  have hconnections := connections_sentRequest ph request
  have hparts : Headed client (visit ph request exchange) ↔
      (named (lit "Host") request.headers).tail ++
          [(lit "Host", hostOf ph ++ lit ":" ++ ph.remotePort)]
        = [(lit "Host", hostOf ph ++ lit ":" ++ ph.remotePort)] ∧
      (named (lit "Connection") request.headers).tail ++ [(lit "Connection", lit "Close")]
        = [(lit "Connection", lit "Close")] := by
    constructor
    · intro hheaded
      exact ⟨hhosts.symm.trans hheaded.host, hconnections.symm.trans hheaded.connection⟩
    · intro hparts
      exact ⟨hhosts.trans hparts.1, hconnections.trans hparts.2,
        (others_sentRequest ph request).trans h.others⟩
  have hone : ∀ n : Nat, n - 1 = 0 ↔ n ≤ 1 := fun n => by omega
  rw [hparts, tail_append_eq_iff, tail_append_eq_iff, h.hosts, h.connections, hone, hone]
  exact Iff.rfl

theorem visits_headed {source : ω → Option (Exchange × ω)} {client : Request} (fuel : Nat)
    (ph : ProxyHandler) {request : Request} (w : ω) (h : Carried client request) :
    ∀ v ∈ visits source fuel ph request w,
      (Headed client v ↔ AtMostOne (lit "Host") client ∧ AtMostOne (lit "Connection") client) := by
  induction fuel generalizing ph request w with
  | zero => simp [visits]
  | succ fuel ih =>
      by_cases hrefused : Unconfigured ph ∨ ¬CutsPrefix ph request
      · simp [visits_refused hrefused]
      · obtain ⟨hconf, huri⟩ := not_or.mp hrefused
        rw [not_not] at huri
        cases hsource : source w with
        | none =>
            rw [visits_none hconf huri hsource, List.forall_mem_singleton]
            exact h.sent ph none
        | some next =>
            obtain ⟨e, w'⟩ := next
            cases hfollow : followedReply fuel e with
            | none =>
                rw [visits_last hconf huri hsource hfollow, List.forall_mem_singleton]
                exact h.sent ph (some e)
            | some response =>
                rw [visits_follow hconf huri hsource hfollow, List.forall_mem_cons]
                exact ⟨h.sent ph (some e), ih _ w' (h.redirect _)⟩

/--
**The headers that are sent**, directly or to where redirects lead, are as they should be exactly
where the client has at most one `Host` and at most one `Connection`.
-/
theorem proxied_headers_iff (source : ω → Option (Exchange × ω)) (fuel : Nat) (request : Request)
    (response : Response) (m : Prog.Mem ProxyHandler ω ProxyQuestion) :
    ((handleRequest fuel request response).run (answering source) m).2.asked
        = m.asked ++ (callVisits source fuel request m).flatMap Visit.questions ∧
      ∀ v ∈ callVisits source fuel request m,
        (Headed request v ↔ AtMostOne (lit "Host") request ∧ AtMostOne (lit "Connection") request) := by
  refine ⟨asked_callVisits source fuel request response m, fun v hv => ?_⟩
  unfold callVisits at hv
  split at hv
  · cases hv
  · exact visits_headed fuel _ m.env (Carried.refl request) v hv

/-- A request with two hosts. -/
def twoHosts : Request :=
  { proxyRequest (lit "/proxy/x") with headers := [(lit "Host", lit "a"), (lit "Host", lit "b")] }

/-- The second one is sent along. -/
theorem second_host_sent :
    Request.parse (lit "GET /proxy/x HTTP/1.1\r\nHost: a\r\nHost: b\r\n\r\n") = some twoHosts ∧
      .write (lit "GET /x HTTP/1.1\r\nHost: b\r\nConnection: Close\r\nHost: a.com:80\r\n\r\n") ∈
        ((handleRequest 8 twoHosts { code := 0 }).run upstream (exampleMem [[]])).2.asked ∧
      ¬Headed twoHosts (visit proxyExample twoHosts (some (replying []))) := by
  refine ⟨by decide +kernel, by decide +kernel, fun hheaded => ?_⟩
  have hhost := hheaded.host
  revert hhost
  decide +kernel

end ProxyHandler

end JustEnough
