/-
Where redirects lead.

A call makes one connection after another for as long as it is redirected.  `visits`
says which: the next host and the next request are read off the last reply, and
`asked_handleRequest` ties that to what the program asks.

Nothing but the replies ends the chain.  A call makes as many connections as there are
redirects, and one (`connections_le`), so no number bounds them for every upstream
(`connections_unbounded`).  And a path alone leads to the configured host, not to the
one that sent it (`redirects_right_iff`).
-/
import JustEnough.Proofs.ProxyCall

namespace JustEnough

namespace ProxyHandler

/-! ### The connections of a call -/

/-- One connection: where it goes, what is sent, and what comes of it, if anything does. -/
structure Visit where
  host : Str
  port : Str
  sent : Request
  exchange : Option Exchange

/-- What a connection asks of the client. -/
def Visit.questions (v : Visit) : List ProxyQuestion :=
  v.exchange.elim [.connect v.host v.port] (ProxyHandler.questions v.host v.port v.sent.rawRequest)

/-- The connection a configured call makes. -/
def visit (h : ProxyHandler) (request : Request) (exchange : Option Exchange) : Visit :=
  { host := hostOf h, port := h.remotePort, sent := sentRequest h request, exchange }

/-- The reply of an exchange, if it is a redirect that is followed. -/
def followedReply (fuel : Nat) (e : Exchange) : Option Response :=
  match e.reply with
  | .ok (some raw) =>
    match parsed fuel raw with
    | .returned response => if isFollowed response then some response else none
    | _ => none
  | _ => none

/-- The handler past the entry test of the call that follows a redirect. -/
def followed (h : ProxyHandler) (response : Response) : ProxyHandler :=
  { noteHeaders response.code response.headers (hostTaken h) with uriPrefix := [], redirect := false }

instance (h : ProxyHandler) : Decidable (Unconfigured h) := by
  unfold Unconfigured
  infer_instance

instance (h : ProxyHandler) (request : Request) : Decidable (CutsPrefix h request) := by
  unfold CutsPrefix
  infer_instance

variable {ω : Type}

/-- The connections of a call past its entry test, one for each call made in its place. -/
def visits (source : ω → Option (Exchange × ω)) : Nat → ProxyHandler → Request → ω → List Visit
  | 0, _, _, _ => []
  | fuel + 1, h, request, w =>
    if Unconfigured h ∨ ¬CutsPrefix h request then []
    else
      match source w with
      | none => [visit h request none]
      | some (e, w) =>
        visit h request (some e) ::
          match followedReply fuel e with
          | none => []
          | some response =>
            visits source fuel (followed h response) (redirectRequest (followed h response) request) w

section Visits

variable {source : ω → Option (Exchange × ω)} {fuel : Nat} {h : ProxyHandler} {request : Request}
  {w w' : ω} {e : Exchange}

theorem visits_refused (hrefused : Unconfigured h ∨ ¬CutsPrefix h request) (w : ω) :
    visits source (fuel + 1) h request w = [] := by
  rw [visits, if_pos hrefused]

theorem visits_none (hconf : ¬Unconfigured h) (huri : CutsPrefix h request)
    (hsource : source w = none) :
    visits source (fuel + 1) h request w = [visit h request none] := by
  rw [visits, if_neg (by simp [hconf, huri]), hsource]

theorem visits_last (hconf : ¬Unconfigured h) (huri : CutsPrefix h request)
    (hsource : source w = some (e, w')) (hlast : followedReply fuel e = none) :
    visits source (fuel + 1) h request w = [visit h request (some e)] := by
  rw [visits, if_neg (by simp [hconf, huri]), hsource]
  simp [hlast]

theorem visits_follow {response : Response} (hconf : ¬Unconfigured h) (huri : CutsPrefix h request)
    (hsource : source w = some (e, w')) (hfollow : followedReply fuel e = some response) :
    visits source (fuel + 1) h request w = visit h request (some e) ::
      visits source fuel (followed h response) (redirectRequest (followed h response) request) w' := by
  rw [visits, if_neg (by simp [hconf, huri]), hsource]
  simp [hfollow]

theorem visit_mem_visits (hconf : ¬Unconfigured h) (huri : CutsPrefix h request)
    (hsource : source w = some (e, w')) :
    visit h request (some e) ∈ visits source (fuel + 1) h request w := by
  cases hfollow : followedReply fuel e with
  | none => simp [visits_last hconf huri hsource hfollow]
  | some response => simp [visits_follow hconf huri hsource hfollow]

theorem exists_visits_cons (hconf : ¬Unconfigured h) (huri : CutsPrefix h request) (w : ω) :
    ∃ exchange vs, visits source (fuel + 1) h request w = visit h request exchange :: vs := by
  cases hsource : source w with
  | none => exact ⟨_, _, visits_none hconf huri hsource⟩
  | some next =>
      cases hfollow : followedReply fuel next.1 with
      | none => exact ⟨_, _, visits_last hconf huri hsource hfollow⟩
      | some response => exact ⟨_, _, visits_follow hconf huri hsource hfollow⟩

end Visits

theorem followedReply_eq_some {fuel : Nat} {e : Exchange} {response : Response} :
    followedReply fuel e = some response ↔ ∃ raw, e.reply = .ok (some raw) ∧
      parsed fuel raw = .returned response ∧ isFollowed response = true := by
  unfold followedReply
  constructor
  · intro h
    split at h
    · rename_i raw hreply
      split at h
      · rename_i response' hparsed
        split at h
        · rename_i hfollowed
          cases h
          exact ⟨raw, hreply, hparsed, hfollowed⟩
        · cases h
      · cases h
    · cases h
  · rintro ⟨raw, hreply, hparsed, hfollowed⟩
    simp [hreply, hparsed, hfollowed]

/-- A redirect is followed at every greater depth. -/
theorem followedReply_mono {n k : Nat} (hle : n ≤ k) {e : Exchange} {response : Response}
    (h : followedReply n e = some response) : followedReply k e = some response := by
  obtain ⟨raw, hreply, hparsed, hfollowed⟩ := followedReply_eq_some.mp h
  have hdeep : parsed k raw = .returned response := by
    rw [parsed_mono hle (by simp [hparsed]), hparsed]
  exact followedReply_eq_some.mpr ⟨raw, hreply, hdeep, hfollowed⟩

/-- What a followed redirect keeps of the handler, and what it makes of it. -/
theorem followed_config {fuel : Nat} {raw : Str} {response : Response}
    (hparsed : parsed fuel raw = .returned response) (h : ProxyHandler) :
    (followed h response).uriPrefix = [] ∧ (followed h response).remoteHost = h.remoteHost ∧
      (followed h response).remotePort = h.remotePort := by
  obtain ⟨f, -, -, heffect⟩ := parseRawResponse_local fuel raw
  obtain ⟨rfl, heff, -⟩ := heffect response hparsed
  obtain ⟨-, hhost, hport⟩ := heff.config (hostTaken h)
  exact ⟨rfl, hhost, hport⟩

/-- So the call that follows it makes a connection, like the one before. -/
theorem followed_serves {fuel : Nat} {raw : Str} {response : Response}
    (hparsed : parsed fuel raw = .returned response) {h : ProxyHandler} (hconf : ¬Unconfigured h)
    (request : Request) :
    ¬Unconfigured (followed h response) ∧ CutsPrefix (followed h response) request := by
  obtain ⟨hcut, hhost, hport⟩ := followed_config hparsed h
  constructor
  · rw [Unconfigured, hhost, hport]
    exact hconf
  · rw [CutsPrefix, hcut]
    exact Nat.zero_le _

/-! ### What the program asks -/

/-- Where no redirect is followed, the call comes to an end or waits. -/
structure LastVisit (fuel : Nat) (e : Exchange) (asked : List ProxyQuestion)
    (result : Outcome Fault (Status × Response) × Prog.Mem ProxyHandler ω ProxyQuestion) : Prop where
  last : followedReply fuel e = none
  asked : result.2.asked = asked
  ended : (∀ raw, e.reply = .ok (some raw) → parsed fuel raw ≠ .running) → Ended result.1

/-- **One connection**: the call is over, or another one is made in its place. -/
theorem run_visit {source : ω → Option (Exchange × ω)}
    (call : Request → Response → ProxyProg (Status × Response)) (fuel : Nat) {request : Request}
    (response : Response) {m : Prog.Mem ProxyHandler ω ProxyQuestion}
    (hredirect : m.shared.redirect = false) (hconf : ¬Unconfigured m.shared)
    (huri : CutsPrefix m.shared request) {e : Exchange} {w : ω} (hsource : source m.env = some (e, w)) :
    LastVisit fuel e (m.asked ++ (visit m.shared request (some e)).questions)
        ((serveRequest call fuel request response).run (answering source) m) ∨
      ∃ response' m', followedReply fuel e = some response' ∧
        (serveRequest call fuel request response).run (answering source) m
          = (call (redirectRequest (followed m.shared response') request) response').run
              (answering source) m' ∧
        m'.shared.redirect = true ∧ { m'.shared with redirect := false } = followed m.shared response' ∧
        m'.env = w ∧ m'.asked = m.asked ++ (visit m.shared request (some e)).questions := by
  rw [run_serveRequest (answering source) call fuel response hconf huri]
  obtain ⟨env, hexchange, henv⟩ := run_exchange_some
    (m := { m with shared := hostTaken m.shared }) hsource (hostOf m.shared) m.shared.remotePort
    (sentRequest m.shared request).rawRequest
  rw [hexchange]
  cases hreply : e.reply with
  | error err => exact Or.inl ⟨by simp [followedReply, hreply], rfl, fun _ => Or.inr ⟨err, rfl⟩⟩
  | ok reply =>
      cases reply with
      | none => exact Or.inl ⟨by simp [followedReply, hreply], rfl, fun _ => Or.inl ⟨_, rfl⟩⟩
      | some raw =>
          obtain ⟨f, hlocal, hstuck, heffect⟩ := parseRawResponse_local fuel raw
          simp only [Outcome.ofExcept, Prog.andThen_returned, hlocal (answering source)]
          cases hparsed : parsed fuel raw with
          | stuck => exact absurd hparsed hstuck
          | running =>
              exact Or.inl ⟨by simp [followedReply, hreply, hparsed], rfl,
                fun hend => absurd hparsed (hend raw hreply)⟩
          | threw err =>
              exact Or.inl ⟨by simp [followedReply, hreply, hparsed], rfl, fun _ => Or.inr ⟨err, rfl⟩⟩
          | returned response' =>
              obtain ⟨rfl, heff, -⟩ := heffect response' hparsed
              rw [Prog.andThen_returned]
              cases hfollowed : isFollowed response' with
              | false =>
                  have hoff : ¬(noteHeaders response'.code response'.headers
                      (hostTaken m.shared)).redirect = true := by
                    rw [heff.ordinary hfollowed]
                    simp [hostTaken, hredirect]
                  rw [if_neg hoff]
                  exact Or.inl ⟨by simp [followedReply, hreply, hparsed, hfollowed], rfl,
                    fun _ => Or.inl ⟨_, rfl⟩⟩
              | true =>
                  have hon := heff.redirect hfollowed (hostTaken m.shared)
                  rw [if_pos hon.1, run_followRedirect]
                  obtain rfl := henv raw hreply
                  refine Or.inr ⟨response', { m with
                    shared := { noteHeaders response'.code response'.headers (hostTaken m.shared) with
                      uriPrefix := [] }
                    env
                    asked := m.asked ++ (visit m.shared request (some e)).questions },
                    ?_, rfl, hon.1, rfl, rfl, rfl⟩
                  simp [followedReply, hreply, hparsed, hfollowed]

/-- No connection is made for a handler that is not configured or a URI without the prefix. -/
theorem run_refused (source : ω → Option (Exchange × ω))
    (call : Request → Response → ProxyProg (Status × Response)) (fuel : Nat) {request : Request}
    (response : Response) {m : Prog.Mem ProxyHandler ω ProxyQuestion}
    (hrefused : Unconfigured m.shared ∨ ¬CutsPrefix m.shared request) :
    Ended ((serveRequest call fuel request response).run (answering source) m).1 ∧
      ((serveRequest call fuel request response).run (answering source) m).2.asked = m.asked := by
  obtain ⟨b, hb, hbiff⟩ := run_unconfigured (answering source) m
  by_cases hconf : Unconfigured m.shared
  · have hrun : (serveRequest call fuel request response).run (answering source) m
        = (.returned (.error, response), { m with held := false }) := by
      simp [serveRequest, Prog.run_bind, hb, hbiff.mpr hconf, run_unlockAndReturn]
    rw [hrun]
    exact ⟨Or.inl ⟨_, rfl⟩, rfl⟩
  · have hbfalse : b = false := by simpa [hconf] using hbiff
    have hcut : substr request.uri m.shared.uriPrefix.length none = .error .outOfRange :=
      if_neg (hrefused.resolve_left hconf)
    have hrun : (serveRequest call fuel request response).run (answering source) m
        = (.threw .outOfRange, { m with shared := hostTaken m.shared }) := by
      simp [serveRequest, Prog.run_bind, hb, hbfalse, run_takeHost, hostTaken, hcut]
    rw [hrun]
    exact ⟨Or.inr ⟨_, rfl⟩, rfl⟩

theorem asked_serveRequest {source : ω → Option (Exchange × ω)}
    {call : Request → Response → ProxyProg (Status × Response)} {fuel : Nat}
    (hcall : ∀ request response (m : Prog.Mem ProxyHandler ω ProxyQuestion), m.shared.redirect = true →
      ((call request response).run (answering source) m).2.asked = m.asked ++
        (visits source fuel { m.shared with redirect := false } request m.env).flatMap Visit.questions)
    (request : Request) (response : Response) {m : Prog.Mem ProxyHandler ω ProxyQuestion}
    (hredirect : m.shared.redirect = false) :
    ((serveRequest call fuel request response).run (answering source) m).2.asked = m.asked ++
      (visits source (fuel + 1) m.shared request m.env).flatMap Visit.questions := by
  by_cases hrefused : Unconfigured m.shared ∨ ¬CutsPrefix m.shared request
  · rw [visits_refused hrefused, (run_refused source call fuel response hrefused).2]
    simp
  · obtain ⟨hconf, huri⟩ := not_or.mp hrefused
    rw [not_not] at huri
    cases hsource : source m.env with
    | none =>
        have hexchange := run_exchange_none (m := { m with shared := hostTaken m.shared }) hsource
          (hostOf m.shared) m.shared.remotePort (sentRequest m.shared request).rawRequest
        rw [visits_none hconf huri hsource, run_serveRequest (answering source) call fuel response hconf
          huri, hexchange]
        rfl
    | some next =>
        obtain ⟨e, w⟩ := next
        rcases run_visit call fuel response hredirect hconf huri hsource with
          hlast | ⟨response', m', hfollow, hrun, hon, hshared, henv, hasked⟩
        · rw [visits_last hconf huri hsource hlast.last, hlast.asked]
          simp
        · rw [visits_follow hconf huri hsource hfollow, hrun, hcall _ _ _ hon, hshared, henv, hasked]
          simp

/-- The call that follows a redirect. -/
theorem asked_follow (source : ω → Option (Exchange × ω)) (fuel : Nat) (request : Request)
    (response : Response) {m : Prog.Mem ProxyHandler ω ProxyQuestion}
    (hredirect : m.shared.redirect = true) :
    ((handleRequest fuel request response).run (answering source) m).2.asked = m.asked ++
      (visits source fuel { m.shared with redirect := false } request m.env).flatMap
        Visit.questions := by
  induction fuel generalizing request response m with
  | zero => simp [handleRequest, Prog.run, visits]
  | succ fuel ih =>
      rw [handleRequest_follow fuel request response hredirect]
      exact asked_serveRequest (fun request response m hm => ih request response hm) request response
        rfl

/-- **What a call asks is what its connections ask, one after the other.** -/
theorem asked_handleRequest (source : ω → Option (Exchange × ω)) (fuel : Nat) (request : Request)
    (response : Response) {m : Prog.Mem ProxyHandler ω ProxyQuestion} (hheld : m.held = false)
    (hredirect : m.shared.redirect = false) :
    ((handleRequest fuel request response).run (answering source) m).2.asked = m.asked ++
      (visits source fuel m.shared request m.env).flatMap Visit.questions := by
  cases fuel with
  | zero => simp [handleRequest, Prog.run, visits]
  | succ fuel =>
      rw [handleRequest_enter fuel request response hheld hredirect]
      have hserve := asked_serveRequest (m := { m with held := true })
        (fun request response m hm => asked_follow source fuel request response hm) request response
        hredirect
      exact hserve

/-! ### How many connections -/

def isConnect : ProxyQuestion → Bool
  | .connect _ _ => true
  | _ => false

/-- How often the client has been asked to connect. -/
def connections (asked : List ProxyQuestion) : Nat := asked.countP isConnect

theorem connections_visit (v : Visit) : connections v.questions = 1 := by
  obtain ⟨host, port, sent, exchange⟩ := v
  cases exchange with
  | none => rfl
  | some e =>
      by_cases hconnect : e.connect = .ok true
      · by_cases hwrite : e.write = .ok true
        · simp [Visit.questions, questions, connections, List.countP_cons, isConnect, hconnect, hwrite]
        · simp [Visit.questions, questions, connections, List.countP_cons, isConnect, hconnect, hwrite]
      · simp [Visit.questions, questions, connections, List.countP_cons, isConnect, hconnect]

theorem connections_visits (asked : List ProxyQuestion) (vs : List Visit) :
    connections (asked ++ vs.flatMap Visit.questions) = connections asked + vs.length := by
  induction vs generalizing asked with
  | nil => simp
  | cons v vs ih =>
      have hfirst : connections (asked ++ v.questions) = connections asked + 1 := by
        rw [← connections_visit v]
        exact List.countP_append ..
      rw [List.flatMap_cons, ← List.append_assoc, ih, hfirst, List.length_cons]
      omega

/-- An upstream with a reply for every connection. -/
def supply (replies : Nat → Str) (n : Nat) : Option (Exchange × Nat) :=
  some (replying (replies n), n + 1)

/-- The reply is read to its end. -/
def Parseable (raw : Str) : Prop := ∃ fuel response, parsed fuel raw = .returned response

theorem followedReply_replying {fuel : Nat} {raw : Str} {response : Response}
    (h : followedReply fuel (replying raw) = some response) :
    parsed fuel raw = .returned response ∧ isFollowed response = true := by
  obtain ⟨raw', hreply, hparsed, hfollowed⟩ := followedReply_eq_some.mp h
  obtain rfl : raw = raw' := by simpa [replying, Exchange.reply] using hreply
  exact ⟨hparsed, hfollowed⟩

/-- The first reply that is not followed is the last. -/
theorem visits_length_le {replies : Nat → Str} {k : Nat} (hlast : ¬FollowedReply (replies k)) :
    ∀ (fuel : Nat) (h : ProxyHandler) (request : Request) (n : Nat), n ≤ k →
      (visits (supply replies) fuel h request n).length ≤ k - n + 1 := by
  intro fuel
  induction fuel with
  | zero =>
      intro h request n _
      simp [visits]
  | succ fuel ih =>
      intro h request n hn
      by_cases hrefused : Unconfigured h ∨ ¬CutsPrefix h request
      · simp [visits_refused hrefused]
      · obtain ⟨hconf, huri⟩ := not_or.mp hrefused
        rw [not_not] at huri
        have hsource : supply replies n = some (replying (replies n), n + 1) := rfl
        cases hfollow : followedReply fuel (replying (replies n)) with
        | none => simp [visits_last hconf huri hsource hfollow]
        | some response =>
            obtain ⟨hparsed, hfollowed⟩ := followedReply_replying hfollow
            have hne : n ≠ k := by
              rintro rfl
              exact hlast ⟨fuel, response, hparsed, hfollowed⟩
            have hrest := ih (followed h response) (redirectRequest (followed h response) request)
              (n + 1) (by omega)
            rw [visits_follow hconf huri hsource hfollow, List.length_cons]
            omega

/-- A call that has come to reply `n` is over at that depth. -/
def EndsFrom (replies : Nat → Str) (n depth : Nat) : Prop :=
  ∀ fuel, depth ≤ fuel → ∀ request response (m : Prog.Mem ProxyHandler Nat ProxyQuestion),
    m.shared.redirect = false → m.env = n →
      Ended ((serveRequest (handleRequest fuel) fuel request response).run
        (answering (supply replies)) m).1

theorem endsFrom_step {replies : Nat → Str} {n : Nat} (hparse : Parseable (replies n))
    (hrest : FollowedReply (replies n) → ∃ depth, EndsFrom replies (n + 1) depth) :
    ∃ depth, EndsFrom replies n depth := by
  obtain ⟨p, reply, hp⟩ := hparse
  obtain ⟨depth, hdepth⟩ : ∃ depth, FollowedReply (replies n) → EndsFrom replies (n + 1) depth := by
    by_cases hfollowed : FollowedReply (replies n)
    · obtain ⟨depth, h⟩ := hrest hfollowed
      exact ⟨depth, fun _ => h⟩
    · exact ⟨0, fun h => absurd h hfollowed⟩
  refine ⟨max p (depth + 1), fun fuel hfuel request response m hredirect henv => ?_⟩
  by_cases hrefused : Unconfigured m.shared ∨ ¬CutsPrefix m.shared request
  · exact (run_refused _ _ fuel response hrefused).1
  · obtain ⟨hconf, huri⟩ := not_or.mp hrefused
    have hsource : supply replies m.env = some (replying (replies n), n + 1) := by rw [henv]; rfl
    rcases run_visit (handleRequest fuel) fuel response hredirect hconf (not_not.mp huri) hsource
      with hover | ⟨response', m', hfollow, hrun, hon, -, henv', -⟩
    · apply hover.ended
      intro raw hreply
      obtain rfl : replies n = raw := by simpa [replying, Exchange.reply] using hreply
      rw [parsed_mono (le_of_max_le_left hfuel) (by simp [hp]), hp]
      simp
    · obtain ⟨hparsed, hfollowed⟩ := followedReply_replying hfollow
      obtain ⟨fuel, rfl⟩ : ∃ fuel', fuel = fuel' + 1 := ⟨fuel - 1, by omega⟩
      rw [hrun, handleRequest_follow fuel _ _ hon]
      exact hdepth ⟨_, response', hparsed, hfollowed⟩ fuel (by omega) _ _ _ rfl henv'

/-- Where every reply can be read, the call ends at the first that is not followed. -/
theorem endsFrom_of_last {replies : Nat → Str} (hparse : ∀ i, Parseable (replies i)) {k : Nat}
    (hlast : ¬FollowedReply (replies k)) : ∀ d n, n + d = k → ∃ depth, EndsFrom replies n depth := by
  -- `d` redirects are left to follow
  intro d
  induction d with
  | zero =>
      intro n hn
      apply endsFrom_step (hparse n)
      intro hfollowed
      obtain rfl : n = k := hn
      exact absurd hfollowed hlast
  | succ d ih =>
      intro n hn
      apply endsFrom_step (hparse n)
      intro _
      exact ih (n + 1) (by omega)

/--
**A call follows redirects to the first reply that is none**: up to reply `k` it makes
`k + 1` connections at most, and then it is over.
-/
theorem connections_le {replies : Nat → Str} (hparse : ∀ i, Parseable (replies i)) {k : Nat}
    (hlast : ¬FollowedReply (replies k)) (request : Request) (response : Response)
    {m : Prog.Mem ProxyHandler Nat ProxyQuestion} (hheld : m.held = false)
    (hredirect : m.shared.redirect = false) (henv : m.env = 0) :
    (∀ fuel, connections ((handleRequest fuel request response).run (answering (supply replies))
        m).2.asked ≤ connections m.asked + (k + 1)) ∧
      ∃ depth, ∀ fuel, depth ≤ fuel → Ended ((handleRequest fuel request response).run
        (answering (supply replies)) m).1 := by
  constructor
  · intro fuel
    have hlength := visits_length_le hlast fuel m.shared request 0 (Nat.zero_le k)
    rw [asked_handleRequest (supply replies) fuel request response hheld hredirect,
      connections_visits, henv]
    omega
  · obtain ⟨depth, hends⟩ := endsFrom_of_last hparse hlast k 0 (by omega)
    refine ⟨depth + 1, fun fuel hfuel => ?_⟩
    obtain ⟨fuel, rfl⟩ : ∃ fuel', fuel = fuel' + 1 := ⟨fuel - 1, by omega⟩
    rw [handleRequest_enter fuel request response hheld hredirect]
    exact hends fuel (by omega) request response { m with held := true } hredirect henv

/-- A redirect to `/b`, and a page. -/
def redirectReply : Str := lit "HTTP/1.1 302 Found\r\nLocation: /b\r\n\r\n"

def pageReply : Str := lit "HTTP/1.1 200 OK\r\n\r\n"

theorem redirectReply_parsed : ∃ response, parsed 2 redirectReply = .returned response ∧
    isFollowed response = true :=
  ⟨{ code := 302, headers := [(lit "Location", lit "/b")] }, by decide +kernel, by decide +kernel⟩

/-- One redirect, and pages from then on. -/
theorem connections_example :
    (∀ fuel, connections ((handleRequest fuel (proxyRequest (lit "/proxy")) { code := 0 }).run
        (answering (supply fun i => if i = 0 then redirectReply else pageReply))
        { shared := proxyExample, held := false, env := 0, asked := [] }).2.asked ≤ 0 + (1 + 1)) ∧
      ∃ depth, ∀ fuel, depth ≤ fuel → Ended ((handleRequest fuel (proxyRequest (lit "/proxy"))
        { code := 0 }).run (answering (supply fun i => if i = 0 then redirectReply else pageReply))
        { shared := proxyExample, held := false, env := 0, asked := [] }).1 := by
  have hpage : parsed 1 pageReply = .returned { code := 200 } := by decide +kernel
  refine connections_le (fun i => ?_) (k := 1) (fun hfollowed => ?_) _ _ rfl rfl rfl
  · by_cases hi : i = 0
    · obtain ⟨response, hparsed, -⟩ := redirectReply_parsed
      exact ⟨2, response, by rw [if_pos hi, hparsed]⟩
    · exact ⟨1, _, by rw [if_neg hi, hpage]⟩
  · have hnot := (followedReply_iff hpage).mp hfollowed
    revert hnot
    decide

/-- As many connections as there is fuel for, where every reply is a redirect. -/
theorem le_visits_length {raw : Str} {d : Nat} {response : Response}
    (hparsed : parsed d raw = .returned response) (hfollowed : isFollowed response = true) :
    ∀ (n : Nat) (h : ProxyHandler) (request : Request) (w : Nat), ¬Unconfigured h →
      CutsPrefix h request → n ≤ (visits (supply fun _ => raw) (n + d) h request w).length := by
  intro n
  induction n with
  | zero =>
      intro h request w _ _
      exact Nat.zero_le _
  | succ n ih =>
      intro h request w hconf huri
      have hsource : supply (fun _ => raw) w = some (replying raw, w + 1) := rfl
      have hfollow : followedReply (n + d) (replying raw) = some response :=
        followedReply_mono (Nat.le_add_left d n)
          (followedReply_eq_some.mpr ⟨raw, rfl, hparsed, hfollowed⟩)
      obtain ⟨hconf', huri'⟩ := followed_serves hparsed hconf
        (redirectRequest (followed h response) request)
      have hrest := ih (followed h response) _ (w + 1) hconf' huri'
      rw [show n + 1 + d = n + d + 1 by omega, visits_follow hconf huri hsource hfollow,
        List.length_cons]
      omega

/-- No number bounds the connections of a call for every upstream. -/
theorem connections_unbounded :
    ¬∃ N, ∀ replies : Nat → Str, (∀ i, Parseable (replies i)) → ∀ (request : Request) (fuel : Nat),
      connections ((handleRequest fuel request { code := 0 }).run (answering (supply replies))
        { shared := proxyExample, held := false, env := 0, asked := [] }).2.asked ≤ N := by
  rintro ⟨N, hbound⟩
  obtain ⟨response, hparsed, hfollowed⟩ := redirectReply_parsed
  have hmost := hbound (fun _ => redirectReply) (fun _ => ⟨2, response, hparsed⟩)
    (proxyRequest (lit "/proxy")) (N + 1 + 2)
  have hleast := le_visits_length hparsed hfollowed (N + 1) proxyExample
    (proxyRequest (lit "/proxy")) 0 (by decide) (by decide)
  rw [asked_handleRequest (supply fun _ => redirectReply) _ _ _ rfl rfl, connections_visits] at hmost
  have hmany : N + 1 ≤ N := (hleast.trans (Nat.le_add_left _ _)).trans hmost
  omega

/-! ### Where the requests go -/

/-- What a `Location` names: a path, or a path on a host. -/
inductive Target
  | path (rest : Str)
  | url (host rest : Str) (hne : host ≠ []) (hslash : byte '/' ∉ host) (hcolon : byte ':' ∉ host)

namespace Target

def text : Target → Str
  | .path rest => byte '/' :: rest
  | .url host rest .. => lit "http://" ++ host ++ byte '/' :: rest

/-- The host and the URI that are meant, in a reply of `sender`. -/
def place (sender : Str) : Target → Str × Str
  | .path rest => (sender, byte '/' :: rest)
  | .url host rest .. => (host, byte '/' :: rest)

end Target

/-- The values of the `Location` headers that are followed. -/
def locations (rc : ResponseCode) (headers : Headers) : List Str :=
  (headers.filter fun header => isRedirect rc header.1).map (·.2)

theorem noteHeaders_eq (rc : ResponseCode) (headers : Headers) (h : ProxyHandler) :
    noteHeaders rc headers h = (locations rc headers).foldl (fun h l => redirected l h) h := by
  induction headers generalizing h with
  | nil => rfl
  | cons header headers ih =>
      show noteHeaders rc headers _ = _
      rw [ih]
      by_cases hredirect : isRedirect rc header.1 = true
      · simp [locations, hredirect]
      · simp [locations, hredirect]

theorem isFollowed_iff {response : Response} :
    isFollowed response = true ↔ locations response.code response.headers ≠ [] := by
  simp [isFollowed, locations, List.filter_eq_nil_iff]

/-- The reply is a 301 or 302 with one `Location`, which names the target. -/
def RedirectsTo (raw : Str) (target : Target) : Prop :=
  ∃ fuel response, parsed fuel raw = .returned response ∧
    (response.code = Response.code302Found ∨ response.code = Response.code301Moved) ∧
    response.headers.filter (fun header => header.1 = lit "Location")
      = [(lit "Location", target.text)]

theorem locations_of_redirect {response : Response} {target : Target}
    (hcode : response.code = Response.code302Found ∨ response.code = Response.code301Moved)
    (hheaders : response.headers.filter (fun header => header.1 = lit "Location")
      = [(lit "Location", target.text)]) :
    locations response.code response.headers = [target.text] := by
  have hsame : (fun header : Str × Str => isRedirect response.code header.1)
      = fun header => decide (header.1 = lit "Location") := by
    funext header
    simp [isRedirect, hcode]
  rw [locations, hsame, hheaders]
  rfl

/-- A path says nothing about the host. -/
theorem redirected_path (rest : Str) (h : ProxyHandler) :
    redirected (Target.path rest).text h
      = { h with redirect := true, redirectUri := byte '/' :: rest } := by
  have hpath : isPath (byte '/' :: rest) = true := by simp [isPath]
  simp [Target.text, redirected, locationUri, pathStart, hpath]

/-- A URL is cut where its path starts. -/
theorem redirected_url {host rest : Str} (hne : host ≠ []) (hslash : byte '/' ∉ host)
    (hcolon : byte ':' ∉ host) (h : ProxyHandler) :
    redirected (Target.url host rest hne hslash hcolon).text h = { h with
      redirect := true
      redirectUri := byte '/' :: rest
      redirectHostHeader := lit "http://" ++ host
      redirectHost := host } := by
  show redirected (lit "http://" ++ host ++ byte '/' :: rest) h = _
  have hlen : (lit "http://").length = 7 := rfl
  have hpath : isPath (lit "http://" ++ host ++ byte '/' :: rest) = false := rfl
  have hscheme : schemeLength (lit "http://" ++ host ++ byte '/' :: rest) = 7 := by
    have hfirst := @findFrom_append (byte 'h') (lit "ttp://") [] (by simp) (host ++ byte '/' :: rest)
    have hfind : find (lit "http://" ++ host ++ byte '/' :: rest) (lit "http://") 0 = some 0 := by
      rw [find, if_pos (Nat.zero_le _), List.drop_zero, List.append_assoc]
      exact congrArg _ hfirst
    rw [schemeLength, if_pos hfind, hlen]
  have hstart : pathStart (lit "http://" ++ host ++ byte '/' :: rest) = some (host.length + 7) := by
    have hslashAt := find_at (lit "http://") (host ++ (lit "/" ++ rest)) (lit "/")
    rw [show findFrom (lit "/") (host ++ (lit "/" ++ rest)) = some host.length from
      findFrom_append hslash rest, ← List.append_assoc] at hslashAt
    rw [pathStart, hpath, hscheme]
    exact hslashAt
  have hfront : (lit "http://" ++ host).length = host.length + 7 := by
    rw [List.length_append, hlen, Nat.add_comm]
  have hheader : locationHostHeader (lit "http://" ++ host ++ byte '/' :: rest)
      = lit "http://" ++ host := by
    rw [locationHostHeader, hstart, Option.getD_some, ← hfront, List.take_left]
  have huri : locationUri (lit "http://" ++ host ++ byte '/' :: rest) = byte '/' :: rest := by
    rw [locationUri, hstart, Option.getD_some, ← hfront, List.drop_left]
  have hhost : locationHost (lit "http://" ++ host ++ byte '/' :: rest) = host := by
    rw [locationHost, hheader, hscheme, ← hlen, List.drop_left]
  simp only [redirected, hpath, huri, hheader, hhost, Bool.false_eq_true, if_false]

/-- The place a connection goes to. -/
def Visit.place (v : Visit) : Str × Str := (v.host, v.sent.uri)

/-- The next request goes where the reply leads, a path alone to the configured host. -/
theorem followed_place {response : Response} {target : Target}
    (hlocations : locations response.code response.headers = [target.text]) (h : ProxyHandler)
    (request : Request) (exchange : Option Exchange) :
    (visit (followed h response) (redirectRequest (followed h response) request) exchange).place
      = target.place h.remoteHost := by
  have hnoted : noteHeaders response.code response.headers (hostTaken h)
      = redirected target.text (hostTaken h) := by
    rw [noteHeaders_eq, hlocations]
    rfl
  cases target with
  | path rest =>
      rw [redirected_path] at hnoted
      simp only [followed, hnoted]
      simp [visit, Visit.place, Target.place, hostOf, hostTaken, sentRequest, proxiedRequest,
        redirectRequest, Request.setUri, Request.addHeader, Request.removeHeader]
  | url host rest hne hslash hcolon =>
      rw [redirected_url] at hnoted
      simp only [followed, hnoted]
      simp [visit, Visit.place, Target.place, hostOf, sentRequest, proxiedRequest, redirectRequest,
        Request.setUri, Request.addHeader, Request.removeHeader, hne]

/-- What comes after a chain of redirects is asked for where the last of them leads. -/
theorem visits_chain {replies : List Str} {targets : List Target}
    (hchain : List.Forall₂ RedirectsTo replies targets) (rest : List Exchange) :
    ∃ depth, ∀ fuel, depth ≤ fuel → ∀ (h : ProxyHandler) (request : Request), ¬Unconfigured h →
      CutsPrefix h request →
      (visit h request none).place :: targets.map (Target.place h.remoteHost) <+:
        (visits nextExchange fuel h request (replies.map replying ++ rest)).map Visit.place := by
  induction hchain with
  | nil =>
      refine ⟨1, fun fuel hfuel h request hconf huri => ?_⟩
      obtain ⟨fuel, rfl⟩ : ∃ fuel', fuel = fuel' + 1 := ⟨fuel - 1, by omega⟩
      obtain ⟨exchange, vs, hvisits⟩ :=
        @exists_visits_cons _ nextExchange fuel h request hconf huri rest
      show _ <+: (visits nextExchange (fuel + 1) h request rest).map _
      rw [hvisits]
      exact ⟨vs.map Visit.place, rfl⟩
  | @cons raw target replies targets hredirect _ ih =>
      obtain ⟨d, response, hparsed, hcode, hheaders⟩ := hredirect
      obtain ⟨depth, hrest⟩ := ih
      have hlocations := locations_of_redirect hcode hheaders
      have hfollowed : isFollowed response = true := by simp [isFollowed_iff, hlocations]
      refine ⟨max d depth + 1, fun fuel hfuel h request hconf huri => ?_⟩
      obtain ⟨fuel, rfl⟩ : ∃ fuel', fuel = fuel' + 1 := ⟨fuel - 1, by omega⟩
      have hfollow : followedReply fuel (replying raw) = some response :=
        followedReply_mono (show d ≤ fuel by omega)
          (followedReply_eq_some.mpr ⟨raw, rfl, hparsed, hfollowed⟩)
      obtain ⟨hconf', huri'⟩ := followed_serves hparsed hconf
        (redirectRequest (followed h response) request)
      have hplaces := hrest fuel (by omega) (followed h response) _ hconf' huri'
      rw [followed_place hlocations, (followed_config hparsed h).2.1] at hplaces
      show _ <+: (visits nextExchange (fuel + 1) h request
        (replying raw :: (replies.map replying ++ rest))).map _
      rw [visits_follow hconf huri rfl hfollow]
      exact List.cons_prefix_cons.mpr ⟨rfl, hplaces⟩

/-- Every request is sent where the reply before it leads. -/
def GoesWhereLed (targets : List Target) (vs : List Visit) : Prop :=
  ∀ i target, targets[i]? = some target →
    ∃ v v', vs[i]? = some v ∧ vs[i + 1]? = some v' ∧ v'.place = target.place v.host

/-- Every path alone comes from the configured host; `sender` is where the next reply comes from. -/
def PathsFromHome (home : Str) : Str → List Target → Prop
  | _, [] => True
  | sender, .path _ :: targets => sender = home ∧ PathsFromHome home home targets
  | _, .url host .. :: targets => PathsFromHome home host targets

theorem goesWhereLed_cons {target : Target} {targets : List Target} {v v' : Visit} {vs : List Visit} :
    GoesWhereLed (target :: targets) (v :: v' :: vs) ↔
      v'.place = target.place v.host ∧ GoesWhereLed targets (v' :: vs) := by
  constructor
  · intro h
    refine ⟨?_, fun i t ht => ?_⟩
    · obtain ⟨u, u', hu, hu', hplace⟩ := h 0 target rfl
      cases hu
      cases hu'
      exact hplace
    · obtain ⟨u, u', hu, hu', hplace⟩ := h (i + 1) t (by simpa using ht)
      exact ⟨u, u', by simpa using hu, by simpa using hu', hplace⟩
  · rintro ⟨hfirst, hrest⟩ i t ht
    cases i with
    | zero =>
        cases ht
        exact ⟨v, v', rfl, rfl, hfirst⟩
    | succ i =>
        obtain ⟨u, u', hu, hu', hplace⟩ := hrest i t (by simpa using ht)
        exact ⟨u, u', by simpa using hu, by simpa using hu', hplace⟩

/-- For connections that go where the program takes them. -/
theorem goesWhereLed_iff {home : Str} {place : Str × Str} {targets : List Target} {vs : List Visit}
    (hplaces : place :: targets.map (Target.place home) <+: vs.map Visit.place) :
    GoesWhereLed targets vs ↔ PathsFromHome home place.1 targets := by
  induction targets generalizing place vs with
  | nil => simp [GoesWhereLed, PathsFromHome]
  | cons target targets ih =>
      obtain ⟨v, vs, rfl⟩ : ∃ v vs', vs = v :: vs' := by
        cases vs with
        | nil => simp at hplaces
        | cons v vs => exact ⟨v, vs, rfl⟩
      obtain ⟨rfl, hrest⟩ := List.cons_prefix_cons.mp hplaces
      obtain ⟨v', vs, rfl⟩ : ∃ v' vs', vs = v' :: vs' := by
        cases vs with
        | nil => simp at hrest
        | cons v' vs => exact ⟨v', vs, rfl⟩
      obtain ⟨hnext, -⟩ := List.cons_prefix_cons.mp hrest
      rw [goesWhereLed_cons, ih hrest, ← hnext]
      cases target with
      | path rest => simp [Target.place, PathsFromHome, Visit.place, eq_comm]
      | url host rest hne hslash hcolon => simp [Target.place, PathsFromHome]

/--
**Redirects lead to the right place exactly when every path alone is sent by the
configured host.**
-/
theorem redirects_right_iff {replies : List Str} {targets : List Target}
    (hchain : List.Forall₂ RedirectsTo replies targets) (rest : List Exchange) (request : Request)
    (response : Response) {m : ProxyMem} (hheld : m.held = false)
    (hredirect : m.shared.redirect = false) (hconf : ¬Unconfigured m.shared)
    (huri : CutsPrefix m.shared request) (henv : m.env = replies.map replying ++ rest) :
    ∃ depth, ∀ fuel, depth ≤ fuel →
      ((handleRequest fuel request response).run upstream m).2.asked
        = m.asked ++ (visits nextExchange fuel m.shared request m.env).flatMap Visit.questions ∧
      (GoesWhereLed targets (visits nextExchange fuel m.shared request m.env) ↔
        PathsFromHome m.shared.remoteHost (hostOf m.shared) targets) := by
  obtain ⟨depth, hplaces⟩ := visits_chain hchain rest
  refine ⟨depth, fun fuel hfuel => ⟨?_, ?_⟩⟩
  · rw [upstream_eq]
    exact asked_handleRequest nextExchange fuel request response hheld hredirect
  · rw [henv]
    exact goesWhereLed_iff (hplaces fuel hfuel m.shared request hconf huri)

/-- `b.com` sends a path alone. -/
def awayTarget : Target := .url (lit "b.com") (lit "x") (by decide) (by decide) (by decide)

def awayReply : Str := lit "HTTP/1.1 302 Found\r\nLocation: http://b.com/x\r\n\r\n"

theorem awayReply_redirects : RedirectsTo awayReply awayTarget :=
  ⟨2, { code := 302, headers := [(lit "Location", lit "http://b.com/x")] }, by decide +kernel,
    Or.inl rfl, by decide +kernel⟩

theorem redirectReply_redirects : RedirectsTo redirectReply (.path (lit "b")) :=
  ⟨2, { code := 302, headers := [(lit "Location", lit "/b")] }, by decide +kernel, Or.inl rfl,
    by decide +kernel⟩

/-- The path is asked for at `a.com`, not at `b.com`. -/
theorem redirects_wrong :
    List.Forall₂ RedirectsTo [awayReply, redirectReply] [awayTarget, .path (lit "b")] ∧
      ((handleRequest 8 (proxyRequest (lit "/proxy")) { code := 0 }).run upstream
        (exampleMem [awayReply, redirectReply, pageReply])).2.asked
        = (visits nextExchange 8 proxyExample (proxyRequest (lit "/proxy"))
            ([awayReply, redirectReply, pageReply].map replying)).flatMap Visit.questions ∧
      ¬GoesWhereLed [awayTarget, .path (lit "b")] (visits nextExchange 8 proxyExample
        (proxyRequest (lit "/proxy")) ([awayReply, redirectReply, pageReply].map replying)) := by
  have hplaces : (visits nextExchange 8 proxyExample (proxyRequest (lit "/proxy"))
      ([awayReply, redirectReply, pageReply].map replying)).map Visit.place
        = [(lit "a.com", lit "/"), (lit "b.com", lit "/x"), (lit "a.com", lit "/b")] := by
    decide +kernel
  refine ⟨.cons awayReply_redirects (.cons redirectReply_redirects .nil), ?_, ?_⟩
  · rw [upstream_eq]
    exact asked_handleRequest nextExchange 8 (proxyRequest (lit "/proxy")) _ rfl rfl
  · have hled := @goesWhereLed_iff (lit "a.com") (lit "a.com", lit "/") [awayTarget, .path (lit "b")]
      _ (by rw [hplaces]; decide)
    rw [hled]
    simp only [awayTarget, PathsFromHome]
    decide

/-- Redirects within the host, and to another one that answers. -/
theorem redirects_right_example :
    ∃ depth, ∀ fuel, depth ≤ fuel →
      ((handleRequest fuel (proxyRequest (lit "/proxy")) { code := 0 }).run upstream
          (exampleMem [redirectReply, awayReply, pageReply])).2.asked
        = [] ++ (visits nextExchange fuel proxyExample (proxyRequest (lit "/proxy"))
            ([redirectReply, awayReply, pageReply].map replying)).flatMap Visit.questions ∧
      (GoesWhereLed [.path (lit "b"), awayTarget] (visits nextExchange fuel proxyExample
          (proxyRequest (lit "/proxy")) ([redirectReply, awayReply, pageReply].map replying)) ↔
        PathsFromHome (lit "a.com") (lit "a.com") [.path (lit "b"), awayTarget]) :=
  redirects_right_iff (.cons redirectReply_redirects (.cons awayReply_redirects .nil))
    [replying pageReply] _ _ (m := exampleMem [redirectReply, awayReply, pageReply]) rfl rfl (by decide)
    (by decide) rfl

end ProxyHandler

end JustEnough
