/-
What the proxy writes, read back.

A request that the server accepts is framed, and stays so under everything the proxy
does to it, with two exceptions: the URI and the host of a redirect are taken from the
reply as they stand.  A `Location` with a space or a line feed in the part that counts
makes the next request another one than was meant, or none at all.  So does the `Host`
that was noted down for a redirect, of an earlier call as well: it is to replace the
client's, but of two of them only the first is removed, and then it is sent along.  As
long as nothing of this happens, every text parses back to the request it was printed
from (`sent_parsesBack_iff`).
-/
import JustEnough.Proofs.Lexer
import JustEnough.Proofs.ProxiedRequest
import JustEnough.Proofs.RequestCodec

namespace JustEnough

open Request

namespace ProxyHandler

/-! ### The request that is written -/

/-- A header value that is read back as it is. -/
def FramedValue (value : Str) : Prop := byte '\n' ∉ value ∧ value.head? ≠ some (byte ' ')

theorem framedHeader_iff {name value : Str} (hcolon : byte ':' ∉ name) (hname : byte '\n' ∉ name) :
    FramedHeader (name, value) ↔ FramedValue value :=
  ⟨fun h => ⟨h.value, h.space⟩, fun h => ⟨hcolon, hname, h.1, h.2⟩⟩

/-- What is sent on of a request besides its URI: of the headers that are replaced, all but the first. -/
structure FramedRest (request : Request) : Prop where
  method : FramedWord request.method
  version : FramedWord request.version
  http : request.version.take 5 = lit "HTTP/"
  hosts : ∀ header ∈ (named (lit "Host") request.headers).tail, FramedHeader header
  connections : ∀ header ∈ (named (lit "Connection") request.headers).tail, FramedHeader header
  others : ∀ header ∈ others request.headers, FramedHeader header

theorem framedRest_of_framed {request : Request} (h : Framed request) : FramedRest request where
  method := h.method
  version := h.version
  http := h.http
  hosts header hmem := h.headers header (List.mem_of_mem_filter (List.mem_of_mem_tail hmem))
  connections header hmem := h.headers header (List.mem_of_mem_filter (List.mem_of_mem_tail hmem))
  others header hmem := h.headers header (List.mem_of_mem_filter hmem)

/-- The `Host` header is as good as the host. -/
theorem framedValue_hostPort {port : Str} (hport : byte '\n' ∉ port) (host : Str) :
    FramedValue (host ++ lit ":" ++ port) ↔ FramedValue host := by
  have hsep : byte '\n' ∉ lit ":" := by decide
  cases host with
  | nil =>
      have hhead : lit ":" ++ port = byte ':' :: port := rfl
      simp only [FramedValue, List.nil_append, List.not_mem_nil, not_false_eq_true, List.head?_nil,
        hhead, List.mem_cons, List.head?_cons, hport, or_false]
      decide
  | cons c host => simp [FramedValue, hsep, hport]

/-- The request a call makes is clean. -/
def CleanRequest (h : ProxyHandler) (request : Request) : Prop :=
  FramedWord (request.uri.drop h.uriPrefix.length) ∧ FramedValue (hostOf h)

theorem framedWord_sentRequest (h : ProxyHandler) (request : Request) :
    FramedWord (sentRequest h request).uri ↔ FramedWord (request.uri.drop h.uriPrefix.length) := by
  show FramedWord (if _ then _ else _) ↔ _
  split
  · rename_i hnil
    have hslash : FramedWord (lit "/") := by
      constructor
      · decide
      · decide
    rw [hnil]
    exact iff_of_true hslash ⟨by simp, by simp⟩
  · exact Iff.rfl

/-- A header is a `Host`, a `Connection` or one of the others. -/
theorem forall_headers_iff {P : Str × Str → Prop} {headers : Headers} :
    (∀ header ∈ headers, P header) ↔ (∀ header ∈ named (lit "Host") headers, P header) ∧
      (∀ header ∈ named (lit "Connection") headers, P header) ∧
      ∀ header ∈ others headers, P header := by
  constructor
  · intro h
    exact ⟨fun header hmem => h header (List.mem_of_mem_filter hmem),
      fun header hmem => h header (List.mem_of_mem_filter hmem),
      fun header hmem => h header (List.mem_of_mem_filter hmem)⟩
  · rintro ⟨hhosts, hconnections, hothers⟩ header hmem
    by_cases hhost : header.1 = lit "Host"
    · exact hhosts header (List.mem_filter.mpr ⟨hmem, by simpa using hhost⟩)
    by_cases hconnection : header.1 = lit "Connection"
    · exact hconnections header (List.mem_filter.mpr ⟨hmem, by simpa using hconnection⟩)
    · exact hothers header (List.mem_filter.mpr ⟨hmem, by simp [hhost, hconnection]⟩)

/-- **A text is read back exactly when the request is clean**, and what it is made from was framed. -/
theorem parsesBack_sent_iff {h : ProxyHandler} {request : Request} (hport : byte '\n' ∉ h.remotePort) :
    ParsesBack (sentRequest h request) ↔ FramedRest request ∧ CleanRequest h request := by
  have hhost : FramedHeader (lit "Host", hostOf h ++ lit ":" ++ h.remotePort) ↔
      FramedValue (hostOf h) :=
    (framedHeader_iff (by decide) (by decide)).trans (framedValue_hostPort hport _)
  have hclose : FramedHeader (lit "Connection", lit "Close") := by
    constructor <;> decide
  have hheaders : (∀ header ∈ (sentRequest h request).headers, FramedHeader header) ↔
      ((∀ header ∈ (named (lit "Host") request.headers).tail, FramedHeader header) ∧
        FramedValue (hostOf h)) ∧
      (∀ header ∈ (named (lit "Connection") request.headers).tail, FramedHeader header) ∧
      ∀ header ∈ others request.headers, FramedHeader header := by
    rw [forall_headers_iff, hosts_sentRequest, connections_sentRequest, others_sentRequest,
      List.forall_mem_append, List.forall_mem_append, List.forall_mem_singleton,
      List.forall_mem_singleton, hhost, and_iff_left hclose]
  rw [Request.parsesBack_iff]
  constructor
  · intro hframed
    obtain ⟨⟨hhosts, hhostOf⟩, hconnections, hothers⟩ := hheaders.mp hframed.headers
    exact ⟨⟨hframed.method, hframed.version, hframed.http, hhosts, hconnections, hothers⟩,
      (framedWord_sentRequest h request).mp hframed.uri, hhostOf⟩
  · rintro ⟨hrest, huri, hhostOf⟩
    exact ⟨hrest.method, (framedWord_sentRequest h request).mpr huri, hrest.version, hrest.http,
      hheaders.mpr ⟨⟨hrest.hosts, hhostOf⟩, hrest.connections, hrest.others⟩⟩

theorem Carried.atMostOne_iff {client request : Request} (h : Carried client request) :
    AtMostOne (lit "Host") request ↔ AtMostOne (lit "Host") client := by
  have hhosts := h.hosts
  unfold AtMostOne
  omega

/-- The `Host` noted down is sent on behind the second one of the client's. -/
theorem framedRest_redirectRequest {h : ProxyHandler} {request : Request} (hrest : FramedRest request) :
    FramedRest (redirectRequest h request) ↔
      AtMostOne (lit "Host") request ∨ FramedValue h.redirectHostHeader := by
  have hhosts : named (lit "Host") (redirectRequest h request).headers
      = (named (lit "Host") request.headers).tail ++ [(lit "Host", h.redirectHostHeader)] := by
    rw [redirectRequest, named_replace]
    rfl
  have hconnections : named (lit "Connection") (redirectRequest h request).headers
      = named (lit "Connection") request.headers := by
    rw [redirectRequest, named_replace_other (by decide)]
    rfl
  have hothers : others (redirectRequest h request).headers = others request.headers := by
    rw [redirectRequest, others_replace (Or.inl rfl)]
    rfl
  have hone : AtMostOne (lit "Host") request ↔ (named (lit "Host") request.headers).tail = [] := by
    rw [AtMostOne, ← List.length_eq_zero_iff, List.length_tail]
    omega
  have htail : (∀ header ∈ ((named (lit "Host") request.headers).tail ++
        [(lit "Host", h.redirectHostHeader)]).tail, FramedHeader header) ↔
      AtMostOne (lit "Host") request ∨ FramedValue h.redirectHostHeader := by
    rw [hone, ← framedHeader_iff (show byte ':' ∉ lit "Host" by decide) (by decide)]
    have hall := hrest.hosts
    cases hmore : (named (lit "Host") request.headers).tail with
    | nil => simp
    | cons second more =>
        rw [hmore, List.forall_mem_cons] at hall
        rw [List.cons_append, List.tail_cons, List.forall_mem_append, List.forall_mem_singleton,
          and_iff_right hall.2]
        simp
  rw [← htail, ← hhosts]
  constructor
  · exact FramedRest.hosts
  · intro hframed
    exact ⟨hrest.method, hrest.version, hrest.http, hframed, hconnections ▸ hrest.connections,
      hothers ▸ hrest.others⟩

/-! ### What a redirect puts into it -/

/-- The last `Location` that is followed gives the URI, the last with a host gives the host. -/
structure CleanRedirect (response : Response) : Prop where
  uri : ∀ location, (locations response.code response.headers).getLast? = some location →
    FramedWord (locationUri location)
  host : ∀ location,
    ((locations response.code response.headers).filter fun l => !isPath l).getLast? = some location →
      FramedValue (locationHost location)

/-- The last one wins. -/
theorem foldl_redirected (ls : List Str) (h : ProxyHandler) :
    (ls.foldl (fun h l => redirected l h) h).redirectUri
        = (ls.getLast?.map locationUri).getD h.redirectUri ∧
      (ls.foldl (fun h l => redirected l h) h).redirectHost
        = ((ls.filter fun l => !isPath l).getLast?.map locationHost).getD h.redirectHost ∧
      (ls.foldl (fun h l => redirected l h) h).redirectHostHeader
        = ((ls.filter fun l => !isPath l).getLast?.map locationHostHeader).getD
            h.redirectHostHeader := by
  induction ls using List.reverseRecOn with
  | nil => exact ⟨rfl, rfl, rfl⟩
  | append_singleton ls l ih =>
      obtain ⟨-, hhost, hheader⟩ := ih
      rw [List.foldl_append, List.foldl_cons, List.foldl_nil, List.filter_append]
      by_cases hpath : isPath l = true
      · rw [redirected, if_pos hpath, List.filter_cons_of_neg (by simp [hpath]), List.filter_nil,
          List.append_nil]
        exact ⟨by simp, hhost, hheader⟩
      · rw [redirected, if_neg hpath, List.filter_cons_of_pos (by simp [hpath]), List.filter_nil]
        exact ⟨by simp, by simp only [List.getLast?_concat]; rfl,
          by simp only [List.getLast?_concat]; rfl⟩

theorem followed_redirectUri (h : ProxyHandler) (response : Response) :
    (followed h response).redirectUri
      = ((locations response.code response.headers).getLast?.map locationUri).getD h.redirectUri := by
  show (noteHeaders _ _ _).redirectUri = _
  rw [noteHeaders_eq]
  exact (foldl_redirected _ _).1

theorem followed_redirectHost (h : ProxyHandler) (response : Response) :
    (followed h response).redirectHost = (((locations response.code response.headers).filter
      fun l => !isPath l).getLast?.map locationHost).getD [] := by
  show (noteHeaders _ _ _).redirectHost = _
  rw [noteHeaders_eq]
  exact (foldl_redirected _ _).2.1

/-- What stands in `redirect_host_header_` after a redirect: the last host, or what was there. -/
def notedHeader (noted : Str) (response : Response) : Str :=
  (((locations response.code response.headers).filter fun l => !isPath l).getLast?.map
    locationHostHeader).getD noted

theorem followed_redirectHostHeader (h : ProxyHandler) (response : Response) :
    (followed h response).redirectHostHeader = notedHeader h.redirectHostHeader response := by
  show (noteHeaders _ _ _).redirectHostHeader = _
  rw [noteHeaders_eq]
  exact (foldl_redirected _ _).2.2

theorem framedValue_nil : FramedValue [] := ⟨by simp, by simp⟩

/-- **The next request is clean exactly when the redirect is.** -/
theorem followed_clean_iff {h : ProxyHandler} {response : Response}
    (hfollowed : isFollowed response = true) (hhost : FramedValue (followed h response).remoteHost) :
    FramedWord (followed h response).redirectUri ∧ FramedValue (hostOf (followed h response)) ↔
      CleanRedirect response := by
  obtain ⟨last, hlast⟩ : ∃ last, (locations response.code response.headers).getLast? = some last :=
    Option.ne_none_iff_exists'.mp (by simpa using isFollowed_iff.mp hfollowed)
  have huri : FramedWord (followed h response).redirectUri ↔
      ∀ location, (locations response.code response.headers).getLast? = some location →
        FramedWord (locationUri location) := by
    rw [followed_redirectUri, hlast]
    simp
  have hhostOf : FramedValue (hostOf (followed h response)) ↔
      FramedValue (followed h response).redirectHost := by
    unfold hostOf
    split
    · rename_i hnil
      rw [hnil]
      exact iff_of_true hhost framedValue_nil
    · exact Iff.rfl
  have hlastHost : FramedValue (followed h response).redirectHost ↔ ∀ location,
      ((locations response.code response.headers).filter fun l => !isPath l).getLast? = some location →
        FramedValue (locationHost location) := by
    rw [followed_redirectHost]
    cases ((locations response.code response.headers).filter fun l => !isPath l).getLast? with
    | none => simp [framedValue_nil]
    | some location => simp
  rw [huri, hhostOf, hlastHost]
  constructor
  · intro h
    exact ⟨h.1, h.2⟩
  · intro h
    exact ⟨h.uri, h.host⟩

/-! ### A whole call -/

/-- The connection stands, and the text is written. -/
def Visit.Written (v : Visit) : Prop := ∃ e, v.exchange = some e ∧ e.connect = .ok true

/-- Every text that is written parses back to its request. -/
def AllParseBack (vs : List Visit) : Prop := ∀ v ∈ vs, v.Written → ParsesBack v.sent

/-- The next connection stands. -/
def NextConnects (es : List Exchange) : Prop := ∃ e, es.head? = some e ∧ e.connect = .ok true

/--
Every redirect that is followed by a request is a clean one, and leaves a clean `Host` for a
client that has two; `noted` is the one there was before.
-/
def HarmlessReplies (client : Request) : Str → List Exchange → Prop
  | _, [] => True
  | noted, e :: es => ∀ fuel response, followedReply fuel e = some response →
      (NextConnects es → CleanRedirect response ∧
        (AtMostOne (lit "Host") client ∨ FramedValue (notedHeader noted response))) ∧
      HarmlessReplies client (notedHeader noted response) es

theorem connects_of_followed {fuel : Nat} {e : Exchange} {response : Response}
    (h : followedReply fuel e = some response) : e.connect = .ok true := by
  obtain ⟨raw, hreply, -, -⟩ := followedReply_eq_some.mp h
  unfold Exchange.reply at hreply
  split at hreply <;> simp_all

/-- Depth makes a call longer, and does not change what is there. -/
theorem visits_mono {ω : Type} {source : ω → Option (Exchange × ω)} : ∀ {n k : Nat}, n ≤ k →
    ∀ {h : ProxyHandler} {request : Request} {w : ω} {v : Visit},
      v ∈ visits source n h request w → v ∈ visits source k h request w := by
  intro n
  induction n with
  | zero =>
      intro k _ h request w v hv
      simp [visits] at hv
  | succ n ih =>
      intro k hk h request w v hv
      obtain ⟨k, rfl⟩ : ∃ k', k = k' + 1 := ⟨k - 1, by omega⟩
      by_cases hrefused : Unconfigured h ∨ ¬CutsPrefix h request
      · rwa [visits_refused hrefused] at hv ⊢
      · obtain ⟨hconf, huri⟩ := not_or.mp hrefused
        rw [not_not] at huri
        cases hsource : source w with
        | none => rwa [visits_none hconf huri hsource] at hv ⊢
        | some next =>
            obtain ⟨e, w'⟩ := next
            cases hfollow : followedReply n e with
            | none =>
                rw [visits_last hconf huri hsource hfollow, List.mem_singleton] at hv
                subst hv
                exact visit_mem_visits hconf huri hsource
            | some response =>
                have hle : n ≤ k := by omega
                have hdeep := followedReply_mono hle hfollow
                rw [visits_follow hconf huri hsource hfollow] at hv
                rw [visits_follow hconf huri hsource hdeep]
                rcases List.mem_cons.mp hv with rfl | hv
                · exact List.mem_cons_self
                · exact List.mem_cons_of_mem _ (ih hle hv)

/-- What holds of the handler and the request at every call. -/
structure Sendable (h : ProxyHandler) (request : Request) : Prop where
  configured : ¬Unconfigured h
  cuts : CutsPrefix h request
  rest : FramedRest request
  host : FramedValue h.remoteHost
  port : byte '\n' ∉ h.remotePort

/-- The call that follows a redirect writes a clean request exactly when the redirect is clean. -/
theorem Sendable.followed_iff {h : ProxyHandler} {request : Request} (hs : Sendable h request)
    {fuel : Nat} {e : Exchange} {response : Response} (hfollow : followedReply fuel e = some response) :
    CleanRequest (followed h response) (redirectRequest (followed h response) request) ↔
      CleanRedirect response := by
  obtain ⟨raw, -, hparsed, hfollowed⟩ := followedReply_eq_some.mp hfollow
  obtain ⟨hcut, hhost, -⟩ := followed_config hparsed h
  have hclean := @followed_clean_iff h response hfollowed (hhost ▸ hs.host)
  rw [← hclean, CleanRequest, hcut]
  exact Iff.rfl

/-- It sends on what is framed exactly when the `Host` noted down is. -/
theorem Sendable.rest_iff {h : ProxyHandler} {client request : Request} (hs : Sendable h request)
    (hcarried : Carried client request) (response : Response) :
    FramedRest (redirectRequest (followed h response) request) ↔
      AtMostOne (lit "Host") client ∨ FramedValue (notedHeader h.redirectHostHeader response) := by
  rw [framedRest_redirectRequest hs.rest, hcarried.atMostOne_iff, followed_redirectHostHeader]

theorem Sendable.next {h : ProxyHandler} {request : Request} (hs : Sendable h request) {fuel : Nat}
    {e : Exchange} {response : Response} (hfollow : followedReply fuel e = some response)
    (hrest : FramedRest (redirectRequest (followed h response) request)) :
    Sendable (followed h response) (redirectRequest (followed h response) request) := by
  obtain ⟨raw, -, hparsed, -⟩ := followedReply_eq_some.mp hfollow
  obtain ⟨-, hhost, hport⟩ := followed_config hparsed h
  obtain ⟨hconf, huri⟩ := followed_serves hparsed hs.configured
    (redirectRequest (followed h response) request)
  exact ⟨hconf, huri, hrest, hhost ▸ hs.host, hport ▸ hs.port⟩

/-- Without a connection nothing is written. -/
theorem not_written_of_not_connects {es : List Exchange} (hnot : ¬NextConnects es) (fuel : Nat)
    (h : ProxyHandler) (request : Request) : AllParseBack (visits nextExchange fuel h request es) := by
  intro v hv hwritten
  obtain ⟨e, hexchange, hconnect⟩ := hwritten
  exfalso
  cases fuel with
  | zero => simp [visits] at hv
  | succ fuel =>
      by_cases hrefused : Unconfigured h ∨ ¬CutsPrefix h request
      · simp [visits_refused hrefused] at hv
      · obtain ⟨hconf, huri⟩ := not_or.mp hrefused
        rw [not_not] at huri
        cases es with
        | nil =>
            rw [visits_none hconf huri rfl, List.mem_singleton] at hv
            subst hv
            cases hexchange
        | cons e' es =>
            cases hfollow : followedReply fuel e' with
            | some response => exact hnot ⟨e', rfl, connects_of_followed hfollow⟩
            | none =>
                rw [visits_last hconf huri rfl hfollow, List.mem_singleton] at hv
                subst hv
                cases hexchange
                exact hnot ⟨e, rfl, hconnect⟩

/-- And nothing is read. -/
theorem harmless_of_not_connects {es : List Exchange} (hnot : ¬NextConnects es) (client : Request)
    (noted : Str) : HarmlessReplies client noted es := by
  cases es with
  | nil => trivial
  | cons e es =>
      intro fuel response hfollow
      exact absurd ⟨e, rfl, connects_of_followed hfollow⟩ hnot

/-- The connections after a redirect that is followed are those of the call that follows it. -/
theorem allParseBack_followed {h : ProxyHandler} {request : Request} (hs : Sendable h request)
    (hclean : CleanRequest h request) {d : Nat} {e : Exchange} {es : List Exchange}
    {response : Response} (hfollow : followedReply d e = some response) :
    (∀ fuel, AllParseBack (visits nextExchange fuel h request (e :: es))) ↔
      ∀ fuel, AllParseBack (visits nextExchange fuel (followed h response)
        (redirectRequest (followed h response) request) es) := by
  constructor
  · intro hall fuel v hv
    have hdeep := followedReply_mono (Nat.le_max_right fuel d) hfollow
    apply hall (max fuel d + 1) v
    rw [visits_follow hs.configured hs.cuts rfl hdeep]
    exact List.mem_cons_of_mem _ (visits_mono (Nat.le_max_left fuel d) hv)
  · intro hall fuel v hv hwritten
    have hlong := visits_mono (Nat.le_succ_of_le (Nat.le_max_left fuel d)) hv
    rw [visits_follow hs.configured hs.cuts rfl (followedReply_mono (Nat.le_max_right fuel d) hfollow)]
      at hlong
    rcases List.mem_cons.mp hlong with rfl | hlater
    · exact (parsesBack_sent_iff hs.port).mpr ⟨hs.rest, hclean⟩
    · exact hall _ v hlater hwritten

/-- A request that is written was clean if it is read back. -/
theorem clean_of_written {h : ProxyHandler} {request : Request} {es : List Exchange}
    (hconf : ¬Unconfigured h) (huri : CutsPrefix h request) (hport : byte '\n' ∉ h.remotePort)
    (hnext : NextConnects es)
    (hall : ∀ fuel, AllParseBack (visits nextExchange fuel h request es)) :
    FramedRest request ∧ CleanRequest h request := by
  obtain ⟨e, hhead, hconnect⟩ := hnext
  obtain ⟨es, rfl⟩ := List.head?_eq_some_iff.mp hhead
  have hmem : visit h request (some e) ∈ visits nextExchange 1 h request (e :: es) :=
    visit_mem_visits hconf huri rfl
  have hback := hall 1 _ hmem ⟨e, rfl, hconnect⟩
  exact (parsesBack_sent_iff hport).mp hback

/-- So after a redirect. -/
theorem Sendable.clean_of_followed {h : ProxyHandler} {request : Request} (hs : Sendable h request)
    {d : Nat} {e : Exchange} {es : List Exchange} {response : Response}
    (hfollow : followedReply d e = some response) (hnext : NextConnects es)
    (hall : ∀ fuel, AllParseBack (visits nextExchange fuel (followed h response)
      (redirectRequest (followed h response) request) es)) :
    FramedRest (redirectRequest (followed h response) request) ∧
      CleanRequest (followed h response) (redirectRequest (followed h response) request) := by
  obtain ⟨raw, -, hparsed, -⟩ := followedReply_eq_some.mp hfollow
  obtain ⟨hconf, huri⟩ := followed_serves hparsed hs.configured
    (redirectRequest (followed h response) request)
  have hport : byte '\n' ∉ (followed h response).remotePort := by
    rw [(followed_config hparsed h).2.2]
    exact hs.port
  exact clean_of_written hconf huri hport hnext hall

/-- Past the request that a call makes itself, everything depends on the replies. -/
theorem allParseBack_iff (client : Request) :
    ∀ (es : List Exchange) {h : ProxyHandler} {request : Request},
      Sendable h request → CleanRequest h request → Carried client request →
        ((∀ fuel, AllParseBack (visits nextExchange fuel h request es)) ↔
          HarmlessReplies client h.redirectHostHeader es) := by
  intro es
  induction es with
  | nil =>
      intro h request hs hclean _
      have hnot : ¬NextConnects [] := by simp [NextConnects]
      exact iff_of_true (fun fuel => not_written_of_not_connects hnot fuel h request) trivial
  | cons e es ih =>
      intro h request hs hclean hcarried
      by_cases hfollow : ∃ d response, followedReply d e = some response
      · obtain ⟨d, response, hfollow⟩ := hfollow
        have hsame : HarmlessReplies client h.redirectHostHeader (e :: es) ↔
            (NextConnects es → CleanRedirect response ∧ (AtMostOne (lit "Host") client ∨
                FramedValue (notedHeader h.redirectHostHeader response))) ∧
              HarmlessReplies client (notedHeader h.redirectHostHeader response) es := by
          constructor
          · intro hall
            exact hall d response hfollow
          · intro hall fuel response' hfollow'
            have hdeep := followedReply_mono (Nat.le_max_left d fuel) hfollow
            rw [followedReply_mono (Nat.le_max_right d fuel) hfollow'] at hdeep
            cases hdeep
            exact hall
        rw [allParseBack_followed hs hclean hfollow, hsame, ← hs.rest_iff hcarried response,
          ← hs.followed_iff hfollow]
        by_cases hnext : NextConnects es
        · by_cases hgood : CleanRequest (followed h response)
              (redirectRequest (followed h response) request) ∧
              FramedRest (redirectRequest (followed h response) request)
          · rw [ih (hs.next hfollow hgood.2) hgood.1 (hcarried.redirect _),
              followed_redirectHostHeader]
            simp [hgood]
          · -- the next request is written, and is not read back
            refine iff_of_false (fun hall => ?_) fun h => hgood (h.1 hnext)
            exact hgood (hs.clean_of_followed hfollow hnext hall).symm
        · exact iff_of_true (fun fuel => not_written_of_not_connects hnext fuel _ _)
            ⟨fun h => absurd h hnext, harmless_of_not_connects hnext _ _⟩
      · refine iff_of_true (fun fuel v hv _ => ?_)
          fun d response hfollow' => absurd ⟨d, response, hfollow'⟩ hfollow
        cases fuel with
        | zero => simp [visits] at hv
        | succ fuel =>
            have hlast : followedReply fuel e = none :=
              Option.eq_none_iff_forall_ne_some.mpr fun response h => hfollow ⟨fuel, response, h⟩
            rw [visits_last hs.configured hs.cuts rfl hlast, List.mem_singleton] at hv
            subst hv
            exact (parsesBack_sent_iff hs.port).mpr ⟨hs.rest, hclean⟩

theorem framedValue_of_bareWord {word : Str} (h : BareWord word) : FramedValue word := by
  obtain ⟨-, -, -, hall⟩ := h
  constructor
  · intro hmem
    exact hall _ hmem (by decide)
  · intro hhead
    exact hall _ (List.mem_of_head? hhead) (by decide)

/-- The call does not wait for a mutex that nobody gives back, and has a URI to send. -/
structure Sends (m : ProxyMem) (request : Request) : Prop where
  enters : m.held = true → m.shared.redirect = true
  cuts : CutsPrefix m.shared request

/-- What goes wrong is in the replies, or in the host and `Host` that an earlier call has left. -/
structure Harmless (m : ProxyMem) (request : Request) : Prop where
  host : NextConnects m.env → FramedValue (hostOf m.shared)
  replies : HarmlessReplies request m.shared.redirectHostHeader m.env

/--
**Everything the proxy writes parses back exactly when no harmful redirect is followed**,
for a handler in any state whose host and port are words of a config.
-/
theorem sent_parsesBack_iff {raw : Str} {request : Request} (hparse : Request.parse raw = some request)
    (response : Response) {m : ProxyMem} (hhost : BareWord m.shared.remoteHost)
    (hport : BareWord m.shared.remotePort) :
    (∀ fuel, ((handleRequest fuel request response).run upstream m).2.asked
        = m.asked ++ (callVisits nextExchange fuel request m).flatMap Visit.questions) ∧
      ((∀ fuel, AllParseBack (callVisits nextExchange fuel request m)) ↔
        (Sends m request → Harmless m request)) := by
  constructor
  · intro fuel
    rw [upstream_eq]
    exact asked_callVisits nextExchange fuel request response m
  · by_cases hsends : Sends m request
    · have hconf : ¬Unconfigured m.shared := not_or.mpr ⟨hhost.1, hport.1⟩
      have hframed := (Request.parse_framed hparse).1
      have hword := hframed.uri
      have hs : Sendable { m.shared with redirect := false } request := ⟨hconf, hsends.cuts,
        framedRest_of_framed hframed, framedValue_of_bareWord hhost, (framedValue_of_bareWord hport).1⟩
      have hcut : FramedWord (request.uri.drop m.shared.uriPrefix.length) :=
        ⟨fun hmem => hword.1 (List.mem_of_mem_drop hmem), fun hmem => hword.2 (List.mem_of_mem_drop hmem)⟩
      have hvisits : ∀ fuel, callVisits nextExchange fuel request m
          = visits nextExchange fuel { m.shared with redirect := false } request m.env := by
        intro fuel
        rw [callVisits, if_neg]
        rintro ⟨hheld, hidle⟩
        rw [hsends.enters hheld] at hidle
        cases hidle
      simp only [hvisits]
      by_cases hnext : NextConnects m.env
      · by_cases hclean : FramedValue (hostOf m.shared)
        · rw [allParseBack_iff request m.env hs ⟨hcut, hclean⟩ (Carried.refl request)]
          exact ⟨fun hreplies _ => ⟨fun _ => hclean, hreplies⟩, fun h => (h hsends).replies⟩
        · refine iff_of_false (fun hall => ?_) fun h => hclean ((h hsends).host hnext)
          exact hclean (clean_of_written hs.configured hs.cuts hs.port hnext hall).2.2
      · exact iff_of_true (fun fuel => not_written_of_not_connects hnext fuel _ _)
          fun _ => ⟨fun h => absurd h hnext, harmless_of_not_connects hnext _ _⟩
    · refine iff_of_true (fun fuel v hv => ?_) fun h => absurd h hsends
      rw [callVisits] at hv
      split at hv
      · cases hv
      · rename_i henters
        have hcut : ¬CutsPrefix { m.shared with redirect := false } request := by
          intro hcut
          exact hsends ⟨by simpa using henters, hcut⟩
        cases fuel with
        | zero => simp [visits] at hv
        | succ fuel =>
            rw [visits_refused (Or.inr hcut)] at hv
            cases hv

/-- What the client asks for. -/
def clientText : Str := lit "GET /proxy HTTP/1.1\r\n\r\n"

theorem proxyExample_words : BareWord proxyExample.remoteHost ∧ BareWord proxyExample.remotePort := by
  unfold BareWord
  decide +kernel

/-- A `Location` with a line feed in its path. -/
def harmfulReply : Str := lit "HTTP/1.1 302 Found\r\nLocation: /a HTTP/1.1\nX: y\r\n\r\n"

/-- What is written next is read as a request for `/a` with a header `X` that nobody has set. -/
theorem request_injected :
    Request.parse clientText = some (proxyRequest (lit "/proxy")) ∧
      BareWord proxyExample.remoteHost ∧ BareWord proxyExample.remotePort ∧
      (∃ text injected, .write text ∈ ((handleRequest 8 (proxyRequest (lit "/proxy"))
          { code := 0 }).run upstream (exampleMem [harmfulReply, pageReply])).2.asked ∧
        Request.parse text = some injected ∧ injected.uri = lit "/a" ∧
        (lit "X", lit "y HTTP/1.1") ∈ injected.headers) ∧
      ¬AllParseBack (visits nextExchange 8 proxyExample (proxyRequest (lit "/proxy"))
        ([harmfulReply, pageReply].map replying)) := by
  refine ⟨by decide +kernel, proxyExample_words.1, proxyExample_words.2, ?_, fun hall => ?_⟩
  · refine ⟨lit "GET /a HTTP/1.1\nX: y HTTP/1.1\r\nConnection: Close\r\nHost: a.com:80\r\n\r\n",
      { method := lit "GET", uri := lit "/a", version := lit "HTTP/1.1", headers :=
        [(lit "X", lit "y HTTP/1.1"), (lit "Connection", lit "Close"), (lit "Host", lit "a.com:80")],
        body := [] }, by decide +kernel, by decide +kernel, rfl, by decide⟩
  · have hsent : (visits nextExchange 8 proxyExample (proxyRequest (lit "/proxy"))
        ([harmfulReply, pageReply].map replying)).map
          (fun v => (v.sent.uri, v.exchange.map (·.connect)))
          = [(lit "/", some (.ok true)), (lit "/a HTTP/1.1\nX: y", some (.ok true))] := by
      decide +kernel
    have hmem : (lit "/a HTTP/1.1\nX: y", some (.ok true)) ∈ (visits nextExchange 8 proxyExample
        (proxyRequest (lit "/proxy")) ([harmfulReply, pageReply].map replying)).map
          (fun v => (v.sent.uri, v.exchange.map (·.connect))) := by
      rw [hsent]
      decide
    obtain ⟨v, hv, hvisit⟩ := List.mem_map.mp hmem
    obtain ⟨huri, hexchange⟩ := Prod.mk.inj hvisit
    obtain ⟨e, he, hconnect⟩ := Option.map_eq_some_iff.mp hexchange
    have hframed := Request.parsesBack_iff.mp (hall v hv ⟨e, he, hconnect⟩)
    have hword := hframed.uri.2
    rw [huri] at hword
    revert hword
    decide

/-- A redirect to a plain path. -/
theorem sent_parsesBack_example :
    (∀ fuel, ((handleRequest fuel (proxyRequest (lit "/proxy")) { code := 0 }).run upstream
        (exampleMem [redirectReply, pageReply])).2.asked
        = [] ++ (callVisits nextExchange fuel (proxyRequest (lit "/proxy"))
            (exampleMem [redirectReply, pageReply])).flatMap Visit.questions) ∧
      ((∀ fuel, AllParseBack (callVisits nextExchange fuel (proxyRequest (lit "/proxy"))
          (exampleMem [redirectReply, pageReply]))) ↔
        (Sends (exampleMem [redirectReply, pageReply]) (proxyRequest (lit "/proxy")) →
          Harmless (exampleMem [redirectReply, pageReply]) (proxyRequest (lit "/proxy")))) :=
  sent_parsesBack_iff (show Request.parse clientText = some (proxyRequest (lit "/proxy")) by decide +kernel)
    _ proxyExample_words.1 proxyExample_words.2

end ProxyHandler

end JustEnough
