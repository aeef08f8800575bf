/-
What one call of the proxy leaves to the next.

A call that returns gives the mutex back and clears `redirect_`, whatever the upstream
did.  If the first reply was not a redirect it leaves the fields as it found them.  If
it was, it leaves `redirect_uri_` set and `uri_prefix_` empty for good, and a later
request is passed on with its prefix (`history_free_iff`).
-/
import JustEnough.Proofs.ProxyCall

namespace JustEnough

namespace ProxyHandler

/-! ### One call -/

/-- The first reply is a redirect that is followed. -/
def MeetsRedirect (replies : List Exchange) : Prop :=
  ∃ e es raw, replies = e :: es ∧ e.reply = .ok (some raw) ∧ FollowedReply raw

/-- What is left behind where a redirect was followed. -/
def RedirectLeft (h : ProxyHandler) : Prop := h.redirect = false ∧ h.redirectUri ≠ []

/-- The fields are as before, but for a redirect's host that may have been used up. -/
def Untouched (h h' : ProxyHandler) : Prop := h' = h ∨ h' = hostTaken h

theorem Untouched.redirectLeft {h h' : ProxyHandler} (hu : Untouched h h')
    (hleft : RedirectLeft h) : RedirectLeft h' := by
  rcases hu with rfl | rfl
  · exact hleft
  · exact hleft

/-- What is needed of the call that follows a redirect. -/
def LeavesRedirect (call : Request → Response → ProxyProg (Status × Response)) : Prop :=
  ∀ request response (m m' : ProxyMem) a, Redirecting m.shared →
    (call request response).run upstream m = (.returned a, m') →
    m'.held = false ∧ RedirectLeft m'.shared

theorem serveRequest_returned {call : Request → Response → ProxyProg (Status × Response)}
    (hcall : LeavesRedirect call) {fuel : Nat} {request : Request} {response : Response}
    {m m' : ProxyMem} {a : Status × Response} (hredirect : m.shared.redirect = false)
    (hrun : (serveRequest call fuel request response).run upstream m = (.returned a, m')) :
    m'.held = false ∧
      (Untouched m.shared m'.shared ∧ (Unconfigured m.shared ∨ ¬MeetsRedirect m.env) ∨
        RedirectLeft m'.shared ∧ ¬(Unconfigured m.shared ∨ ¬MeetsRedirect m.env)) := by
  have hserves := serveRequest_serves call fuel request response hredirect
  rw [hrun] at hserves
  generalize hr : (Outcome.returned a, m') = r at hserves
  cases hserves with
  | unconfigured h =>
      cases hr
      exact ⟨rfl, Or.inl ⟨Or.inl rfl, Or.inl h⟩⟩
  | badUri | waits | exchangeThrew | parseThrew | parseRuns => cases hr
  | exchangeFailed h huri henv hreply hshared hheld =>
      cases hr
      refine ⟨hheld, Or.inl ⟨Or.inr hshared, Or.inr ?_⟩⟩
      rintro ⟨e, es, raw, henv', hreply', -⟩
      obtain ⟨rfl, rfl⟩ := List.cons.inj (henv.symm.trans henv')
      simp [hreply] at hreply'
  | answered h huri henv hreply hparsed hfollowed hshared hheld =>
      cases hr
      refine ⟨hheld, Or.inl ⟨Or.inr hshared, Or.inr ?_⟩⟩
      rintro ⟨e, es, raw, henv', hreply', hfollowed'⟩
      obtain ⟨rfl, rfl⟩ := List.cons.inj (henv.symm.trans henv')
      obtain rfl : _ = raw := by simpa [hreply] using hreply'
      rw [followedReply_iff hparsed, hfollowed] at hfollowed'
      cases hfollowed'
  | followed h huri henv hreply hparsed hfollowed hstate request' =>
      obtain ⟨hheld, hleft⟩ := hcall _ _ _ _ _ hstate.redirecting hr.symm
      refine ⟨hheld, Or.inr ⟨hleft, ?_⟩⟩
      rintro (hc | hnot)
      · exact h hc
      · exact hnot ⟨_, _, _, henv, hreply, (followedReply_iff hparsed).mpr hfollowed⟩

theorem handleRequest_leavesRedirect (fuel : Nat) : LeavesRedirect (handleRequest fuel) := by
  induction fuel with
  | zero =>
      intro request response m m' a _ hrun
      simp [handleRequest, Prog.run] at hrun
  | succ fuel ih =>
      intro request response m m' a hredirecting hrun
      rw [handleRequest_follow fuel request response hredirecting.1] at hrun
      obtain ⟨hheld, ⟨huntouched, -⟩ | ⟨hleft, -⟩⟩ := serveRequest_returned ih rfl hrun
      · exact ⟨hheld, huntouched.redirectLeft ⟨rfl, hredirecting.2⟩⟩
      · exact ⟨hheld, hleft⟩

/-! ### Runs of calls -/

/-- A request, and what the upstream does with the connections made for it. -/
structure Call where
  request : Request
  response : Response
  replies : List Exchange

/-- The fields and the mutex, between two calls. -/
abbrev BetweenCalls := ProxyHandler × Bool

/-- A call made at `s` returns, and leaves `s'`. -/
def Completes (c : Call) (s s' : BetweenCalls) : Prop :=
  ∃ fuel a m', (handleRequest fuel c.request c.response).run upstream
      { shared := s.1, held := s.2, env := c.replies, asked := [] } = (.returned a, m') ∧
    (m'.shared, m'.held) = s'

/-- One completed call after another, from a handler with a free mutex. -/
inductive Run (h₀ : ProxyHandler) : List Call → BetweenCalls → Prop
  | nil : Run h₀ [] (h₀, false)
  | snoc {calls : List Call} {s s' : BetweenCalls} {c : Call} (h : Run h₀ calls s)
      (hc : Completes c s s') : Run h₀ (calls ++ [c]) s'

/-- A call from an idle handler, as a step of a run. -/
theorem completes_cases {c : Call} {h : ProxyHandler} {s' : BetweenCalls}
    (hredirect : h.redirect = false) (hc : Completes c (h, false) s') :
    s'.2 = false ∧
      (Untouched h s'.1 ∧ (Unconfigured h ∨ ¬MeetsRedirect c.replies) ∨
        RedirectLeft s'.1 ∧ ¬(Unconfigured h ∨ ¬MeetsRedirect c.replies)) := by
  obtain ⟨fuel, a, m', hrun, rfl⟩ := hc
  cases fuel with
  | zero => simp [handleRequest, Prog.run] at hrun
  | succ fuel =>
      rw [handleRequest_enter fuel c.request c.response rfl hredirect] at hrun
      exact serveRequest_returned (handleRequest_leavesRedirect fuel) hredirect hrun

/-- No redirect has ever been noted down. -/
def Fresh (h : ProxyHandler) : Prop :=
  h.redirect = false ∧ h.redirectHost = [] ∧ h.redirectHostHeader = [] ∧ h.redirectUri = []

theorem init_fresh {uriPrefix : Str} {config : NginxConfig} {h : ProxyHandler}
    (hinit : init uriPrefix config = .ok h) : Fresh h := by
  simp only [init, bind, Except.bind, pure, Except.pure] at hinit
  split at hinit
  · cases hinit
  · split at hinit
    · cases hinit
    · split at hinit
      · cases hinit
      · cases hinit
        exact ⟨rfl, rfl, rfl, rfl⟩

/-- The first connection a call makes, and the first text it sends. -/
def firstContact (fuel : Nat) (c : Call) (s : BetweenCalls) : List ProxyQuestion :=
  ((handleRequest fuel c.request c.response).run upstream
    { shared := s.1, held := s.2, env := c.replies, asked := [] }).2.asked.take 2

/-- Between two calls, nothing shows that there was one before. -/
structure HistoryFree (h₀ : ProxyHandler) (s : BetweenCalls) : Prop where
  firstContact : ∀ fuel c, firstContact fuel c s = firstContact fuel c (h₀, false)
  config : SameConfig h₀ s.1
  fresh : Fresh s.1

/-- The call does not follow a redirect, whatever it asked for. -/
def KeepsHistory (h₀ : ProxyHandler) (c : Call) : Prop :=
  Unconfigured h₀ ∨ ¬MeetsRedirect c.replies

/-- Either nothing has changed, or a redirect is left. -/
theorem run_invariant {h₀ : ProxyHandler} (hfresh : Fresh h₀) {calls : List Call} {s : BetweenCalls}
    (hrun : Run h₀ calls s) :
    s = (h₀, false) ∧ (∀ c ∈ calls, KeepsHistory h₀ c) ∨
      s.2 = false ∧ RedirectLeft s.1 ∧ ¬∀ c ∈ calls, KeepsHistory h₀ c := by
  induction hrun with
  | nil => exact Or.inl ⟨rfl, by simp⟩
  | @snoc calls s s' c _ hc ih =>
      rcases ih with ⟨rfl, hkept⟩ | ⟨hheld, hleft, hlost⟩
      · obtain ⟨hheld', ⟨huntouched, hkeeps⟩ | ⟨hleft, hlost⟩⟩ := completes_cases hfresh.1 hc
        · left
          have hsame : s'.1 = h₀ := by
            rcases huntouched with h | h
            · exact h
            · rw [h, hostTaken, ← hfresh.2.1]
          refine ⟨Prod.ext hsame hheld', fun d hd => ?_⟩
          rcases List.mem_append.mp hd with hd | hd
          · exact hkept d hd
          · exact List.mem_singleton.mp hd ▸ hkeeps
        · exact Or.inr ⟨hheld', hleft, fun hall => hlost (hall c (by simp))⟩
      · right
        obtain ⟨h, held⟩ := s
        obtain rfl : held = false := hheld
        obtain ⟨hheld', ⟨huntouched, -⟩ | ⟨hleft', -⟩⟩ := completes_cases hleft.1 hc
        · exact ⟨hheld', huntouched.redirectLeft hleft,
            fun hall => hlost fun d hd => hall d (by simp [hd])⟩
        · exact ⟨hheld', hleft', fun hall => hlost fun d hd => hall d (by simp [hd])⟩

/--
**A run leaves no trace exactly when no call in it was redirected**: the next request
is passed on as by a new handler, the configuration is that of `Init`, and no redirect
is noted down.
-/
theorem history_free_iff {uriPrefix : Str} {config : NginxConfig} {h₀ : ProxyHandler}
    (hinit : init uriPrefix config = .ok h₀) {calls : List Call} {s : BetweenCalls}
    (hrun : Run h₀ calls s) : HistoryFree h₀ s ↔ ∀ c ∈ calls, KeepsHistory h₀ c := by
  have hfresh := init_fresh hinit
  rcases run_invariant hfresh hrun with ⟨rfl, hkept⟩ | ⟨-, hleft, hlost⟩
  · exact ⟨fun _ => hkept, fun _ => ⟨fun _ _ => rfl, ⟨rfl, rfl, rfl⟩, hfresh⟩⟩
  · exact ⟨fun h => absurd h.fresh.2.2.2 hleft.2, fun h => absurd h hlost⟩

/-- A call that returns completes. -/
theorem completes_of_returned {c : Call} {s : BetweenCalls} {a : Status × Response} (fuel : Nat)
    (h : ((handleRequest fuel c.request c.response).run upstream
      { shared := s.1, held := s.2, env := c.replies, asked := [] }).1 = .returned a)
    {s' : BetweenCalls}
    (hs' : (((handleRequest fuel c.request c.response).run upstream
        { shared := s.1, held := s.2, env := c.replies, asked := [] }).2.shared,
      ((handleRequest fuel c.request c.response).run upstream
        { shared := s.1, held := s.2, env := c.replies, asked := [] }).2.held) = s') :
    Completes c s s' :=
  ⟨fuel, a, _, Prod.ext h rfl, hs'⟩

/-- A call for `uri` that gets these replies. -/
def exampleCall (uri : Str) (replies : List Str) : Call :=
  { request := proxyRequest uri, response := { code := 0 }, replies := replies.map replying }

/-- After a redirect, `/proxy/c` is asked for where a new handler asks for `/c`. -/
theorem history_not_free :
    ∃ s, Run proxyExample [exampleCall (lit "/proxy")
        [lit "HTTP/1.1 302 Found\r\nLocation: /b\r\n\r\n", lit "HTTP/1.1 200 OK\r\n\r\n"]] s ∧
      ¬HistoryFree proxyExample s := by
  refine ⟨({ proxyExample with uriPrefix := [], redirectUri := lit "/b" }, false), ?_, fun h => ?_⟩
  · exact .snoc .nil (completes_of_returned (a := (.ok, { code := 200 })) 8 (by decide +kernel)
      (by decide +kernel))
  · have hcontact := h.firstContact 8
      (exampleCall (lit "/proxy/c") [lit "HTTP/1.1 200 OK\r\n\r\n"])
    revert hcontact
    decide +kernel

/-- A run of one ordinary call. -/
theorem history_free_example :
    HistoryFree proxyExample (proxyExample, false) ↔
      ∀ c ∈ [exampleCall (lit "/proxy") [lit "HTTP/1.1 200 OK\r\n\r\n"]],
        KeepsHistory proxyExample c := by
  have hinit : init (lit "/proxy") [.mk [lit "remote_host", lit "a.com"] none,
      .mk [lit "remote_port", lit "80"] none] = .ok proxyExample := by decide +kernel
  exact history_free_iff hinit (.snoc .nil
    (completes_of_returned (a := (.ok, { code := 200 })) 8 (by decide +kernel) (by decide +kernel)))

end ProxyHandler

end JustEnough
