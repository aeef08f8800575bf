/-
One call of the proxy, alone.

A call past the entry test comes to one of nine ends (`Serves`); each says in what
state the handler and the mutex are left.  All of them but two are final: where no
answer comes the call goes on waiting, and where a redirect is followed another call
is made in its place.
-/
import JustEnough.Proofs.ProxyReply

namespace JustEnough

/-- What an exchange comes to: the reply, none if a step fails, or an exception. -/
def Exchange.reply (e : Exchange) : Except Fault (Option Str) :=
  match e.connect, e.write with
  | .error err, _ => .error err
  | .ok false, _ => .ok none
  | .ok true, .error err => .error err
  | .ok true, .ok false => .ok none
  | .ok true, .ok true => .ok e.read

namespace ProxyHandler

/-- The memory of a call that runs alone. -/
abbrev ProxyMem := Prog.Mem ProxyHandler (List Exchange) ProxyQuestion

/-- `remote_host_` or `remote_port_` is empty. -/
def Unconfigured (h : ProxyHandler) : Prop := h.remoteHost = [] ∨ h.remotePort = []

/-- The handler once the host of a redirect has been taken. -/
def hostTaken (h : ProxyHandler) : ProxyHandler := { h with redirectHost := [] }

/-! ### The pieces of a call -/

section Pieces

variable {ω : Type} (answer : (q : ProxyQuestion) → ω → Option (ProxyAnswer q × ω))

theorem run_unconfigured (m : Prog.Mem ProxyHandler ω ProxyQuestion) :
    ∃ b, unconfigured.run answer m = (.returned b, m) ∧ (b = true ↔ Unconfigured m.shared) := by
  by_cases hhost : m.shared.remoteHost = []
  · exact ⟨true, by simp [unconfigured, Prog.run_bind, hhost], by simp [Unconfigured, hhost]⟩
  · exact ⟨_, by simp [unconfigured, Prog.run_bind, hhost]; rfl, by simp [Unconfigured, hhost]⟩

/-- The host a call goes to. -/
def hostOf (h : ProxyHandler) : Str := if h.redirectHost = [] then h.remoteHost else h.redirectHost

theorem run_takeHost (m : Prog.Mem ProxyHandler ω ProxyQuestion) :
    takeHost.run answer m = (.returned (hostOf m.shared), { m with shared := hostTaken m.shared }) := by
  by_cases hhost : m.shared.redirectHost = []
  · have hsame : hostTaken m.shared = m.shared := by rw [hostTaken, ← hhost]
    simp [takeHost, Prog.run_bind, hhost, hsame, hostOf]
  · simp [takeHost, Prog.run_bind, List.length_pos_iff, hhost, hostTaken, hostOf]

theorem run_unlockAndReturn (status : Status) (response : Response)
    (m : Prog.Mem ProxyHandler ω ProxyQuestion) :
    (unlockAndReturn status response).run answer m
      = (.returned (status, response), { m with held := false }) := by
  simp [unlockAndReturn]

end Pieces

/-- Upstreams that treat each connection as the next exchange of a source. -/
def answering {ω : Type} (source : ω → Option (Exchange × ω)) :
    (q : ProxyQuestion) → ω → Option (ProxyAnswer q × ω)
  | .connect _ _, w => (source w).map fun next => (next.1.connect, w)
  | .write _, w => (source w).map fun next => (next.1.write, w)
  | .read, w => (source w).map fun next => (next.1.read, next.2)

/-- The next exchange of a list. -/
def nextExchange : List Exchange → Option (Exchange × List Exchange)
  | [] => none
  | e :: es => some (e, es)

theorem upstream_eq : upstream = answering nextExchange := by
  funext q es
  cases es with
  | nil => cases q <;> rfl
  | cons e es => cases q <;> rfl

/-- What is asked in one connection: the request is written once it stands, and then the reply read. -/
def questions (host port text : Str) (e : Exchange) : List ProxyQuestion :=
  .connect host port ::
    if e.connect = .ok true then .write text :: if e.write = .ok true then [.read] else []
    else []

section Exchange

variable {ω : Type} {source : ω → Option (Exchange × ω)} {m : Prog.Mem ProxyHandler ω ProxyQuestion}

theorem run_exchange_none (hsource : source m.env = none) (host port text : Str) :
    (exchange host port text).run (answering source) m
      = (.running, { m with asked := m.asked ++ [.connect host port] }) := by
  simp [exchange, Prog.run_bind, Prog.run_query, answering, hsource]

theorem run_exchange_some {e : Exchange} {w : ω} (hsource : source m.env = some (e, w))
    (host port text : Str) :
    ∃ env, (exchange host port text).run (answering source) m
        = (.ofExcept e.reply, { m with asked := m.asked ++ questions host port text e, env }) ∧
      ∀ raw, e.reply = .ok (some raw) → env = w := by
  obtain ⟨connect, write, read⟩ := e
  rcases connect with err | _ | _
  · refine ⟨m.env, ?_, by simp [Exchange.reply]⟩
    simp [exchange, Prog.run_bind, Prog.run_query, answering, hsource, Exchange.reply,
      Outcome.ofExcept, questions]
  · refine ⟨m.env, ?_, by simp [Exchange.reply]⟩
    simp [exchange, Prog.run_bind, Prog.run_query, answering, hsource, Exchange.reply,
      Outcome.ofExcept, questions]
  · rcases write with err | _ | _
    · refine ⟨m.env, ?_, by simp [Exchange.reply]⟩
      simp [exchange, Prog.run_bind, Prog.run_query, answering, hsource, Exchange.reply,
        Outcome.ofExcept, questions]
    · refine ⟨m.env, ?_, by simp [Exchange.reply]⟩
      simp [exchange, Prog.run_bind, Prog.run_query, answering, hsource, Exchange.reply,
        Outcome.ofExcept, questions]
    · refine ⟨w, ?_, fun _ _ => rfl⟩
      simp [exchange, Prog.run_bind, Prog.run_query, answering, hsource, Exchange.reply,
        Outcome.ofExcept, questions]

end Exchange

theorem run_exchange_nil {m : ProxyMem} (henv : m.env = []) (host port text : Str) :
    ∃ asked, (exchange host port text).run upstream m = (.running, { m with asked }) := by
  rw [upstream_eq]
  exact ⟨_, run_exchange_none (by rw [henv]; rfl) host port text⟩

theorem run_exchange_cons {m : ProxyMem} {e : Exchange} {es : List Exchange}
    (henv : m.env = e :: es) (host port text : Str) :
    ∃ asked env, (exchange host port text).run upstream m
        = (.ofExcept e.reply, { m with asked, env }) ∧
      ∀ raw, e.reply = .ok (some raw) → env = es := by
  rw [upstream_eq]
  obtain ⟨env, hrun, hread⟩ := run_exchange_some (m := m)
    (show nextExchange m.env = some (e, es) by rw [henv]; rfl) host port text
  exact ⟨_, env, hrun, hread⟩

/-! ### What a call comes to -/

/-- The URI is long enough for the prefix to be cut off. -/
def CutsPrefix (h : ProxyHandler) (request : Request) : Prop :=
  h.uriPrefix.length ≤ request.uri.length

/-- Where the call that follows a redirect starts: still holding the mutex, with no prefix. -/
structure FollowState (m m' : ProxyMem) (es : List Exchange) : Prop where
  held : m'.held = m.held
  env : m'.env = es
  redirecting : Redirecting m'.shared
  uriPrefix : m'.shared.uriPrefix = []
  unconfigured : Unconfigured m'.shared ↔ Unconfigured m.shared

/-- The ends of `serveRequest`, and what it leaves behind at each. -/
inductive Serves (handleRequest : Request → Response → ProxyProg (Status × Response)) (fuel : Nat)
    (request : Request) (response : Response) (m : ProxyMem) :
    Outcome Fault (Status × Response) × ProxyMem → Prop
  | unconfigured (h : Unconfigured m.shared) :
      Serves handleRequest fuel request response m
        (.returned (.error, response), { m with held := false })
  | badUri (h : ¬Unconfigured m.shared) (huri : ¬CutsPrefix m.shared request) :
      Serves handleRequest fuel request response m
        (.threw .outOfRange, { m with shared := hostTaken m.shared })
  | waits (h : ¬Unconfigured m.shared) (huri : CutsPrefix m.shared request) (henv : m.env = [])
      (m' : ProxyMem) : Serves handleRequest fuel request response m (.running, m')
  | exchangeThrew (h : ¬Unconfigured m.shared) (huri : CutsPrefix m.shared request) {e : Exchange}
      {es : List Exchange} (henv : m.env = e :: es) {err : Fault} (hreply : e.reply = .error err)
      {m' : ProxyMem} (hheld : m'.held = m.held) :
      Serves handleRequest fuel request response m (.threw err, m')
  | exchangeFailed (h : ¬Unconfigured m.shared) (huri : CutsPrefix m.shared request) {e : Exchange}
      {es : List Exchange} (henv : m.env = e :: es) (hreply : e.reply = .ok none) {m' : ProxyMem}
      (hshared : m'.shared = hostTaken m.shared) (hheld : m'.held = false) :
      Serves handleRequest fuel request response m (.returned (.error, response), m')
  | parseThrew (h : ¬Unconfigured m.shared) (huri : CutsPrefix m.shared request) {e : Exchange}
      {es : List Exchange} (henv : m.env = e :: es) {raw : Str} (hreply : e.reply = .ok (some raw))
      {err : Fault} (hparsed : parsed fuel raw = .threw err) {m' : ProxyMem}
      (hheld : m'.held = m.held) : Serves handleRequest fuel request response m (.threw err, m')
  | parseRuns (h : ¬Unconfigured m.shared) (huri : CutsPrefix m.shared request) {raw : Str}
      (hparsed : parsed fuel raw = .running) (m' : ProxyMem) :
      Serves handleRequest fuel request response m (.running, m')
  | answered (h : ¬Unconfigured m.shared) (huri : CutsPrefix m.shared request) {e : Exchange}
      {es : List Exchange} (henv : m.env = e :: es) {raw : Str} (hreply : e.reply = .ok (some raw))
      {response' : Response} (hparsed : parsed fuel raw = .returned response')
      (hfollowed : isFollowed response' = false) {m' : ProxyMem}
      (hshared : m'.shared = hostTaken m.shared) (hheld : m'.held = false) :
      Serves handleRequest fuel request response m (.returned (.ok, response'), m')
  | followed (h : ¬Unconfigured m.shared) (huri : CutsPrefix m.shared request) {e : Exchange}
      {es : List Exchange} (henv : m.env = e :: es) {raw : Str} (hreply : e.reply = .ok (some raw))
      {response' : Response} (hparsed : parsed fuel raw = .returned response')
      (hfollowed : isFollowed response' = true) {m' : ProxyMem} (hstate : FollowState m m' es)
      (request' : Request) :
      Serves handleRequest fuel request response m
        ((handleRequest request' response').run upstream m')

/-- The request a call makes of the one it was given. -/
def sentRequest (h : ProxyHandler) (request : Request) : Request :=
  proxiedRequest request (request.uri.drop h.uriPrefix.length) (hostOf h) h.remotePort

/-- The request a redirect is followed with. -/
def redirectRequest (h : ProxyHandler) (request : Request) : Request :=
  ((request.setUri h.redirectUri).removeHeader (lit "Host")).addHeader (lit "Host")
    h.redirectHostHeader

section Pieces

variable {ω : Type} (answer : (q : ProxyQuestion) → ω → Option (ProxyAnswer q × ω))

theorem run_followRedirect
    (handleRequest : Request → Response → ProxyProg (Status × Response)) (request : Request)
    (response : Response) (m : Prog.Mem ProxyHandler ω ProxyQuestion) :
    (followRedirect handleRequest request response).run answer m
      = (handleRequest (redirectRequest m.shared request) response).run answer
          { m with shared := { m.shared with uriPrefix := [] } } := by
  simp [followRedirect, Prog.run_bind, redirectRequest]

/-- A configured call, up to its exchange and from there on. -/
theorem run_serveRequest (handleRequest : Request → Response → ProxyProg (Status × Response))
    (fuel : Nat) {request : Request} (response : Response) {m : Prog.Mem ProxyHandler ω ProxyQuestion}
    (hconf : ¬Unconfigured m.shared) (huri : CutsPrefix m.shared request) :
    (serveRequest handleRequest fuel request response).run answer m
      = Prog.andThen ((exchange (hostOf m.shared) m.shared.remotePort
          (sentRequest m.shared request).rawRequest).run answer
          { m with shared := hostTaken m.shared }) fun reply m' =>
        match reply with
        | none => (.returned (.error, response), { m' with held := false })
        | some raw => Prog.andThen ((parseRawResponse fuel raw).run answer m') fun response m'' =>
          if m''.shared.redirect then
            (followRedirect handleRequest request response).run answer m''
          else (.returned (.ok, response), { m'' with held := false }) := by
  obtain ⟨b, hb, hbiff⟩ := run_unconfigured answer m
  have hbfalse : b = false := by simpa [hconf] using hbiff
  have hcut : substr request.uri m.shared.uriPrefix.length none
      = .ok (request.uri.drop m.shared.uriPrefix.length) := if_pos huri
  unfold serveRequest
  simp only [Prog.run_bind, hb, hbfalse, Prog.andThen_returned, run_takeHost, Prog.run_get, hostTaken,
    hcut, Prog.run_ok, Bool.false_eq_true, if_false, sentRequest]
  congr 1
  funext reply m'
  cases reply with
  | none => exact run_unlockAndReturn answer .error response m'
  | some raw =>
      simp only [Prog.run_bind]
      congr 1
      funext response' m''
      simp only [Prog.run_get, Prog.andThen_returned]
      split
      · rfl
      · exact run_unlockAndReturn answer .ok response' m''

end Pieces

/-- From the reply on: it may not be readable, and it may be a redirect. -/
theorem serves_reply (handleRequest : Request → Response → ProxyProg (Status × Response))
    (fuel : Nat) {request : Request} (response : Response) {m m₁ : ProxyMem}
    (hredirect : m.shared.redirect = false) (hconf : ¬Unconfigured m.shared)
    (huri : CutsPrefix m.shared request) {e : Exchange} {es : List Exchange} (henv : m.env = e :: es)
    {raw : Str} (hreply : e.reply = .ok (some raw)) (hshared : m₁.shared = hostTaken m.shared)
    (hheld : m₁.held = m.held) (henv₁ : m₁.env = es) :
    Serves handleRequest fuel request response m
      (Prog.andThen ((parseRawResponse fuel raw).run upstream m₁) fun response m₂ =>
        if m₂.shared.redirect then (followRedirect handleRequest request response).run upstream m₂
        else (.returned (.ok, response), { m₂ with held := false })) := by
  obtain ⟨f, hlocal, hstuck, heffect⟩ := parseRawResponse_local fuel raw
  rw [hlocal upstream]
  cases hparsed : parsed fuel raw with
  | stuck => exact absurd hparsed hstuck
  | running => exact .parseRuns hconf huri hparsed _
  | threw err => exact .parseThrew hconf huri henv hreply hparsed hheld
  | returned response' =>
      have heff := (heffect response' hparsed).2.1
      rw [Prog.andThen_returned]
      cases hfollowed : isFollowed response' with
      | false =>
          have hsame := heff.ordinary hfollowed m₁.shared
          have hoff : ¬(f m₁.shared).redirect = true := by
            rw [hsame, hshared]
            simp [hostTaken, hredirect]
          rw [if_neg hoff]
          exact .answered hconf huri henv hreply hparsed hfollowed (hsame.trans hshared) rfl
      | true =>
          have hredirecting := heff.redirect hfollowed m₁.shared
          rw [if_pos hredirecting.1]
          rw [run_followRedirect]
          have hunconf : Unconfigured { f m₁.shared with uriPrefix := [] } ↔
              Unconfigured m.shared := by
            obtain ⟨-, hhost, hport⟩ := heff.config m₁.shared
            show (f m₁.shared).remoteHost = [] ∨ (f m₁.shared).remotePort = [] ↔ _
            rw [hhost, hport, hshared]
            exact Iff.rfl
          have hstate : FollowState m
              { m₁ with shared := { f m₁.shared with uriPrefix := [] } } es :=
            ⟨hheld, henv₁, ⟨hredirecting.1, hredirecting.2⟩, rfl, hunconf⟩
          exact .followed hconf huri henv hreply hparsed hfollowed hstate _

/-- A configured call whose URI is long enough makes one connection. -/
theorem serves_exchange (handleRequest : Request → Response → ProxyProg (Status × Response))
    (fuel : Nat) {request : Request} (response : Response) {m : ProxyMem}
    (hredirect : m.shared.redirect = false) (hconf : ¬Unconfigured m.shared)
    (huri : CutsPrefix m.shared request) :
    Serves handleRequest fuel request response m
      ((serveRequest handleRequest fuel request response).run upstream m) := by
  rw [run_serveRequest upstream handleRequest fuel response hconf huri]
  set m₁ : ProxyMem := { m with shared := hostTaken m.shared }
  cases henv : m.env with
  | nil =>
      obtain ⟨asked, hex⟩ := run_exchange_nil (m := m₁) henv (hostOf m.shared) m.shared.remotePort
        (sentRequest m.shared request).rawRequest
      rw [hex]
      exact .waits hconf huri henv _
  | cons e es =>
      obtain ⟨asked, env, hex, hes⟩ := run_exchange_cons (m := m₁) henv (hostOf m.shared)
        m.shared.remotePort (sentRequest m.shared request).rawRequest
      rw [hex]
      cases hreply : e.reply with
      | error err => exact .exchangeThrew hconf huri henv hreply rfl
      | ok reply =>
          cases reply with
          | none => exact .exchangeFailed hconf huri henv hreply rfl rfl
          | some raw =>
              obtain rfl := hes raw hreply
              exact serves_reply handleRequest fuel response hredirect hconf huri henv hreply rfl rfl
                rfl

/-- **A call comes to one of its ends.** -/
theorem serveRequest_serves (handleRequest : Request → Response → ProxyProg (Status × Response))
    (fuel : Nat) (request : Request) (response : Response) {m : ProxyMem}
    (hredirect : m.shared.redirect = false) :
    Serves handleRequest fuel request response m
      ((serveRequest handleRequest fuel request response).run upstream m) := by
  obtain ⟨b, hb, hbiff⟩ := run_unconfigured upstream m
  by_cases hconf : Unconfigured m.shared
  · have hrun : (serveRequest handleRequest fuel request response).run upstream m
        = (.returned (.error, response), { m with held := false }) := by
      simp [serveRequest, Prog.run_bind, hb, hbiff.mpr hconf, run_unlockAndReturn]
    exact hrun ▸ .unconfigured hconf
  by_cases huri : CutsPrefix m.shared request
  · exact serves_exchange handleRequest fuel response hredirect hconf huri
  · have hrun : (serveRequest handleRequest fuel request response).run upstream m
        = (.threw .outOfRange, { m with shared := hostTaken m.shared }) := by
      have hbfalse : b = false := by simpa [hconf] using hbiff
      have hcut : substr request.uri m.shared.uriPrefix.length none = .error .outOfRange :=
        if_neg huri
      simp [serveRequest, Prog.run_bind, hb, hbfalse, run_takeHost, hostTaken, hcut]
    exact hrun ▸ .badUri hconf huri

/-! ### The entry test -/

section Entry

variable {ω : Type} {answer : (q : ProxyQuestion) → ω → Option (ProxyAnswer q × ω)}

/-- A call that finds no redirect takes the free mutex. -/
theorem handleRequest_enter (fuel : Nat) (request : Request) (response : Response)
    {m : Prog.Mem ProxyHandler ω ProxyQuestion} (hheld : m.held = false)
    (hredirect : m.shared.redirect = false) :
    (handleRequest (fuel + 1) request response).run answer m
      = (serveRequest (handleRequest fuel) fuel request response).run answer
          { m with held := true } := by
  simp [handleRequest, Prog.run_bind, enter, Prog.run, hheld, hredirect]

/-- A call that finds one clears it, and does not touch the mutex. -/
theorem handleRequest_follow (fuel : Nat) (request : Request) (response : Response)
    {m : Prog.Mem ProxyHandler ω ProxyQuestion} (hredirect : m.shared.redirect = true) :
    (handleRequest (fuel + 1) request response).run answer m
      = (serveRequest (handleRequest fuel) fuel request response).run answer
          { m with shared := { m.shared with redirect := false } } := by
  simp [handleRequest, Prog.run_bind, enter, Prog.run, hredirect]

end Entry

/-! ### The mutex at the end -/

/-- The call has returned or thrown. -/
def Ended (o : Outcome Fault (Status × Response)) : Prop :=
  (∃ a, o = .returned a) ∨ ∃ err, o = .threw err

/-- The reply is read without an exception. -/
def CleanReply (raw : Str) : Prop := ∀ fuel err, parsed fuel raw ≠ .threw err

/-- The reply is a redirect that is followed. -/
def FollowedReply (raw : Str) : Prop :=
  ∃ fuel response, parsed fuel raw = .returned response ∧ isFollowed response = true

/-- No exchange throws and every reply is clean, as far as redirects lead. -/
def CleanExchanges : List Exchange → Prop
  | [] => True
  | e :: es =>
    match e.reply with
    | .error _ => False
    | .ok none => True
    | .ok (some raw) => CleanReply raw ∧ (FollowedReply raw → CleanExchanges es)

theorem cleanReply_of_returned {fuel : Nat} {raw : Str} {response : Response}
    (h : parsed fuel raw = .returned response) : CleanReply raw := by
  intro fuel' err herr
  have hsame : parsed fuel raw = parsed fuel' raw := parsed_unique (by simp [h]) (by simp [herr])
  rw [h, herr] at hsame
  cases hsame

theorem followedReply_iff {fuel : Nat} {raw : Str} {response : Response}
    (h : parsed fuel raw = .returned response) :
    FollowedReply raw ↔ isFollowed response = true := by
  constructor
  · rintro ⟨fuel', response', h', hfollowed⟩
    have hsame : parsed fuel raw = parsed fuel' raw := parsed_unique (by simp [h]) (by simp [h'])
    rw [h, h'] at hsame
    cases hsame
    exact hfollowed
  · exact fun hfollowed => ⟨fuel, response, h, hfollowed⟩

/-- What is needed of the call that follows a redirect. -/
def ReleasesIfClean (call : Request → Response → ProxyProg (Status × Response)) : Prop :=
  ∀ request response (m : ProxyMem), m.held = true → Redirecting m.shared →
    m.shared.uriPrefix = [] → ¬Unconfigured m.shared →
    Ended ((call request response).run upstream m).1 →
    (((call request response).run upstream m).2.held = false ↔ CleanExchanges m.env)

theorem serveRequest_held_iff {call : Request → Response → ProxyProg (Status × Response)}
    (hcall : ReleasesIfClean call) (fuel : Nat) (request : Request) (response : Response)
    {m : ProxyMem} (hm : m.held = true) (hredirect : m.shared.redirect = false)
    (hend : Ended ((serveRequest call fuel request response).run upstream m).1) :
    ((serveRequest call fuel request response).run upstream m).2.held = false ↔
      Unconfigured m.shared ∨ CutsPrefix m.shared request ∧ CleanExchanges m.env := by
  have hserves := serveRequest_serves call fuel request response hredirect
  generalize (serveRequest call fuel request response).run upstream m = r at hserves hend ⊢
  cases hserves with
  | unconfigured h => simp [h]
  | badUri h huri => simp [h, huri, hm]
  | waits | parseRuns => simp [Ended] at hend
  | exchangeThrew h huri henv hreply hheld => simp [h, hheld, hm, henv, CleanExchanges, hreply]
  | exchangeFailed h huri henv hreply hshared hheld =>
      simp [huri, hheld, henv, CleanExchanges, hreply]
  | parseThrew h huri henv hreply hparsed hheld =>
      have hdirty : ∀ raw err, parsed fuel raw = .threw err → ¬CleanReply raw :=
        fun raw err hthrew hclean => hclean fuel err hthrew
      simp [h, hheld, hm, henv, CleanExchanges, hreply, hdirty _ _ hparsed]
  | answered h huri henv hreply hparsed hfollowed hshared hheld =>
      simp [huri, hheld, henv, CleanExchanges, hreply, cleanReply_of_returned hparsed,
        followedReply_iff hparsed, hfollowed]
  | followed h huri henv hreply hparsed hfollowed hstate request' =>
      have hrest := hcall request' _ _ (hstate.held.trans hm) hstate.redirecting hstate.uriPrefix
        (fun hc => h (hstate.unconfigured.mp hc)) hend
      rw [hrest, hstate.env, henv]
      simp [h, huri, CleanExchanges, hreply, cleanReply_of_returned hparsed,
        followedReply_iff hparsed, hfollowed]

theorem handleRequest_releasesIfClean (fuel : Nat) : ReleasesIfClean (handleRequest fuel) := by
  induction fuel with
  | zero =>
      intro request response m _ _ _ _ hend
      simp [handleRequest, Prog.run, Ended] at hend
  | succ fuel ih =>
      intro request response m hheld hredirecting hstarts hconf hend
      rw [handleRequest_follow fuel request response hredirecting.1] at hend ⊢
      have hserve := serveRequest_held_iff ih fuel request response
        (m := { m with shared := { m.shared with redirect := false } }) hheld rfl hend
      have hcuts : m.shared.uriPrefix.length ≤ request.uri.length := by simp [hstarts]
      exact hserve.trans ⟨fun h => (h.resolve_left hconf).2, fun h => Or.inr ⟨hcuts, h⟩⟩

/--
**A call that ends leaves the mutex free exactly when nothing throws in it**: the
handler has no host or port at all, or the URI is long enough for the prefix to be cut
off, no exchange throws, and every reply is read without an exception.
-/
theorem lock_released_iff (fuel : Nat) (request : Request) (response : Response) {m : ProxyMem}
    (hheld : m.held = false) (hredirect : m.shared.redirect = false)
    (hend : Ended ((handleRequest fuel request response).run upstream m).1) :
    ((handleRequest fuel request response).run upstream m).2.held = false ↔
      Unconfigured m.shared ∨ CutsPrefix m.shared request ∧ CleanExchanges m.env := by
  cases fuel with
  | zero => simp [handleRequest, Prog.run, Ended] at hend
  | succ fuel =>
      rw [handleRequest_enter fuel request response hheld hredirect] at hend ⊢
      exact serveRequest_held_iff (handleRequest_releasesIfClean fuel) fuel request response
        (m := { m with held := true }) rfl hredirect hend

/-- A proxy for `a.com:80` at `/proxy`. -/
def proxyExample : ProxyHandler :=
  { uriPrefix := lit "/proxy", remoteHost := lit "a.com", remotePort := lit "80" }

def proxyRequest (uri : Str) : Request :=
  { method := lit "GET", uri, version := lit "HTTP/1.1", headers := [], body := [] }

/-- An upstream that accepts the connection and the request, and sends `reply`. -/
def replying (reply : Str) : Exchange :=
  { connect := .ok true, write := .ok true, read := some reply }

/-- The example handler, idle, with those replies to come. -/
def exampleMem (replies : List Str) : ProxyMem :=
  { shared := proxyExample, held := false, env := replies.map replying, asked := [] }

/-- A reply without a status code ends the call, and every later one waits for the mutex. -/
theorem lock_not_released :
    Ended ((handleRequest 8 (proxyRequest (lit "/proxy/x")) { code := 0 }).run upstream
        (exampleMem [lit "garbage"])).1 ∧
      ((handleRequest 8 (proxyRequest (lit "/proxy/x")) { code := 0 }).run upstream
        (exampleMem [lit "garbage"])).2.held ≠ false := by
  refine ⟨Or.inr ⟨.invalidArgument, ?_⟩, ?_⟩
  · decide +kernel
  · decide +kernel

/-- The upstream answers with an ordinary page. -/
theorem lock_released_example :
    ((handleRequest 8 (proxyRequest (lit "/proxy/x")) { code := 0 }).run upstream
        (exampleMem [lit "HTTP/1.1 200 OK\r\nA: b\r\n\r\n"])).2.held = false ↔
      Unconfigured proxyExample ∨ CutsPrefix proxyExample (proxyRequest (lit "/proxy/x")) ∧
        CleanExchanges (exampleMem [lit "HTTP/1.1 200 OK\r\nA: b\r\n\r\n"]).env :=
  lock_released_iff 8 _ _ rfl rfl
    (Or.inl ⟨(.ok, { code := 200, headers := [(lit "A", lit "b")] }), by decide +kernel⟩)

end ProxyHandler

end JustEnough
