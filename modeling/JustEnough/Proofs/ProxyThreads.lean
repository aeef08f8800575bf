/-
Threads calling one proxy handler.

Whether a call takes the mutex is decided by reading `redirect_` without holding it.
As long as every entry test finds it false, the handler is a monitor: the flag is only
ever true between the reply that sets it and the recursive call that clears it, both
under the mutex, so the body of a call releases the mutex with the flag false again
(`serveRequest_releases`), and the monitor rule does the rest.

A second thread that tests the flag in that window finds it true, takes itself for the
recursive call, and is let in without the mutex (`not_exclusive`).
-/
import JustEnough.Lib.Pool
import JustEnough.Proofs.ProxyCall

namespace JustEnough

namespace ProxyHandler

/-! ### A call releases the mutex last -/

theorem splitLocation_leavesMutex (headerValue : Str) (uriPos : Nat) :
    Prog.LeavesMutex (splitLocation headerValue uriPos) := by
  refine .bind (.ofExcept _) fun _ => .bind (.modify _) fun _ => ?_
  refine .bind (.ofExcept _) fun _ => .bind (.modify _) fun _ => ?_
  exact .bind (.get _) fun _ => .bind (.get _) fun _ => .bind (.ofExcept _) fun _ => .modify _

theorem redirectTo_leavesMutex (headerValue : Str) : Prog.LeavesMutex (redirectTo headerValue) := by
  refine .bind (.modify _) fun _ => ?_
  split
  · exact .modify _
  · refine .bind (.modify _) fun _ => .bind (.get _) fun _ => ?_
    split
    · exact .bind (.get _) fun _ => .bind (.ofExcept _) fun _ => .bind (.modify _) fun _ =>
        splitLocation_leavesMutex _ _
    · exact splitLocation_leavesMutex _ _

theorem parseHeaders_leavesMutex (rawResponse : Str) (rc : ResponseCode) (fuel : Nat)
    (stop : Option Nat) (response : Response) :
    Prog.LeavesMutex (parseHeaders rawResponse rc fuel stop response) := by
  induction fuel generalizing stop response with
  | zero => exact fun _ => trivial
  | succ fuel ih =>
      simp only [parseHeaders]
      split
      · exact .bind (.ofExcept _) fun _ _ => trivial
      · refine .bind (.ofExcept _) fun _ => .bind (.ofExcept _) fun _ => ?_
        split
        · exact .bind (redirectTo_leavesMutex _) fun _ => ih _ _
        · exact ih _ _

theorem parseRawResponse_leavesMutex (fuel : Nat) (rawResponse : Str) :
    Prog.LeavesMutex (parseRawResponse fuel rawResponse) :=
  .bind (.ofExcept _) fun _ => .bind (.ofExcept _) fun _ => parseHeaders_leavesMutex _ _ _ _ _

theorem unconfigured_wp (h : ProxyHandler) : unconfigured.wp h fun _ h' => h' = h := by
  unfold unconfigured
  refine Prog.wp_bind ?_
  rw [Prog.wp_get]
  split
  · rfl
  · exact Prog.wp_bind rfl

theorem takeHost_wp (h : ProxyHandler) :
    takeHost.wp h fun _ h' => h'.redirect = h.redirect := by
  unfold takeHost
  refine Prog.wp_bind ?_
  rw [Prog.wp_get]
  split
  · exact Prog.wp_bind (Prog.wp_bind rfl)
  · rfl

theorem exchange_wp (host port text : Str) (h : ProxyHandler) :
    (exchange host port text).wp h fun _ h' => h' = h := by
  unfold exchange
  refine Prog.wp_bind fun connected => Prog.wp_bind (Prog.wp_ofExcept fun b _ => ?_)
  split
  · rfl
  · refine Prog.wp_bind fun written => Prog.wp_bind (Prog.wp_ofExcept fun b _ => ?_)
    split
    · rfl
    · exact fun reply => rfl

/-- The monitor invariant: no redirect is being followed. -/
def NoRedirect (h : ProxyHandler) : Prop := h.redirect = false

theorem unlockAndReturn_releases (status : Status) (response : Response) {h : ProxyHandler}
    (hJ : NoRedirect h) : (unlockAndReturn status response).Releases NoRedirect h :=
  Prog.releases_release hJ (status, response)

/-- **A call releases the mutex last**, and no redirect is being followed then. -/
theorem serveRequest_releases {call : Request → Response → ProxyProg (Status × Response)}
    (hcall : ∀ request response h, h.redirect = true →
      (call request response).Releases NoRedirect h)
    (fuel : Nat) (request : Request) (response : Response) {h : ProxyHandler} (hJ : NoRedirect h) :
    (serveRequest call fuel request response).Releases NoRedirect h := by
  unfold serveRequest
  refine Prog.releases_bind (Prog.wp_mono (unconfigured_wp h) ?_)
  rintro b h' rfl
  split
  · exact unlockAndReturn_releases _ _ hJ
  · refine Prog.releases_bind (Prog.wp_mono (takeHost_wp h') fun host h₁ hsame => ?_)
    have hJ₁ : NoRedirect h₁ := hsame.trans hJ
    refine Prog.releases_bind (Prog.releases_bind (Prog.wp_ofExcept fun uri _ => ?_))
    refine Prog.releases_bind (Prog.releases_bind (Prog.releases_bind ?_))
    refine Prog.wp_mono (exchange_wp _ _ _ h₁) ?_
    rintro reply h₂ rfl
    cases reply with
    | none => exact unlockAndReturn_releases _ _ hJ₁
    | some raw =>
        refine Prog.releases_bind (Prog.wp_mono (parseRawResponse_leavesMutex fuel raw h₂) ?_)
        intro response' h₃ _
        refine Prog.releases_bind ?_
        rw [Prog.wp_get]
        cases hredirect : h₃.redirect with
        | false => exact unlockAndReturn_releases _ _ hredirect
        | true => exact hcall _ _ _ hredirect

theorem handleRequest_releases (fuel : Nat) (request : Request) (response : Response)
    {h : ProxyHandler} (hredirect : h.redirect = true) :
    (handleRequest fuel request response).Releases NoRedirect h := by
  induction fuel generalizing request response h with
  | zero => trivial
  | succ fuel ih =>
      have henter : enter.wp h fun _ h' => NoRedirect h' := by
        show Prog.wp (if h.redirect = false then _ else _) h _
        rw [if_neg (by simp [hredirect])]
        rfl
      exact Prog.releases_bind (Prog.wp_mono henter fun _ h' hJ =>
        serveRequest_releases (fun request response h hr => ih request response hr) _ _ _ hJ)

/-! ### Threads -/

/-- A call to be made: how deep to unroll it, and its arguments. -/
structure Job where
  depth : Nat
  request : Request
  response : Response

/-- What a call does past the entry test. -/
def Job.body (job : Job) : ProxyProg (Status × Response) :=
  serveRequest (handleRequest job.depth) job.depth job.request job.response

/-- Any number of threads, and a handler they share. -/
abbrev ProxyPool (T : Type) :=
  Pool T ProxyHandler ProxyQuestion ProxyAnswer Fault (Status × Response)

/--
**Mutual exclusion**, for every interleaving in which each entry test of a thread finds
`redirect_` false.
-/
theorem proxy_mutualExclusion {T : Type} [DecidableEq T] {s₀ s : ProxyPool T}
    (hidle : ∀ t, s₀.threads t = .idle) (hfree : s₀.owner = none)
    (hredirect : s₀.shared.redirect = false)
    (hrun : Pool.Run enter Job.body (fun h => h.redirect = false) s₀ s) :
    Pool.MutualExclusion s :=
  Pool.monitor_rule (J := NoRedirect) rfl (fun _ hgate => if_pos hgate)
    (fun job _ hJ => serveRequest_releases
      (fun request response _ hr => handleRequest_releases job.depth request response hr) _ _ _ hJ)
    hidle hfree hredirect hrun

/-- Two idle threads and the example handler. -/
def twoThreads : ProxyPool Bool :=
  { shared := proxyExample, owner := none, threads := fun _ => .idle }

/-- The upstream answers every request with a redirect. -/
def redirecting : (q : ProxyQuestion) → ProxyAnswer q
  | .connect _ _ => .ok true
  | .write _ => .ok true
  | .read => some (lit "HTTP/1.1 302 Found\r\nLocation: /b\r\n\r\n")

def jobFor (uri : Str) : Job :=
  { depth := 8, request := proxyRequest uri, response := { code := 0 } }

/-- One thread has just noted down a redirect when the other tests the flag. -/
def overtaking : List (Pool.Event Bool Job ProxyQuestion ProxyAnswer) :=
  .call false (jobFor (lit "/proxy")) :: List.replicate 13 (.act false redirecting) ++
    [.call true (jobFor (lit "/proxy/c")), .act true redirecting, .act true redirecting]

/-- Without the condition, two threads can be past the entry test at once. -/
theorem not_exclusive :
    ∃ s, Pool.Run enter Job.body (fun _ => True) twoThreads s ∧ ¬Pool.MutualExclusion s := by
  have hexec : (Pool.exec enter Job.body overtaking twoThreads).map
      (fun s => decide (s.IsInside false ∧ s.IsInside true)) = some true := by decide +kernel
  obtain ⟨s, hs, hinside⟩ := Option.map_eq_some_iff.mp hexec
  obtain ⟨hfalse, htrue⟩ := of_decide_eq_true hinside
  refine ⟨s, Pool.Run.refl.exec overtaking hs, fun h => ?_⟩
  cases h.exclusive false true hfalse htrue

/-- One thread gets in, its entry test having found no redirect. -/
theorem exclusive_example :
    ∃ s : ProxyPool Bool, s.IsInside false ∧ Pool.MutualExclusion s := by
  have hcalled : Pool.Run enter Job.body (fun h => h.redirect = false) twoThreads
      (twoThreads.setThread false (.ofEntry (jobFor (lit "/proxy")).body enter)) :=
    .call .refl false (jobFor (lit "/proxy")) rfl
  have htested := Pool.Run.act hcalled false redirecting (fun _ => rfl) rfl
  have hlocked := Pool.Run.act htested false redirecting (fun _ => rfl) rfl
  exact ⟨_, ⟨_, rfl⟩, proxy_mutualExclusion (fun _ => rfl) rfl rfl hlocked⟩

end ProxyHandler

end JustEnough
