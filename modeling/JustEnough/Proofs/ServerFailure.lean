/-
What becomes of a handler's failure.

A handler that returns `Error` promises nothing about the response, and the header
file promises a 500 in its place.  The server does not look at the status a handler
returns.  It counts and prints whatever is in the response, which for a handler that
failed before setting a code is not a code at all; so a failure is answered with a
500 exactly when the handler has put one there itself (`failure_answered_iff`).
-/
import JustEnough.Server.Webserver
import JustEnough.Proofs.ProxyCall

namespace JustEnough

open Webserver

variable {H W : Type}

/-- The response is a 500, and it is counted as one on top of what the handler left. -/
def FailureAnswered (req : Request) (left : ServerState W)
    (result : Served H × ServerState W) : Prop :=
  (∃ rest, result.1.response = .returned (lit "HTTP/1.1 500 Internal Server Error\r\n" ++ rest)) ∧
    result.2.counters.count req.uri Response.code500InternalError
      = left.counters.count req.uri Response.code500InternalError + 1

/-- A request that a handler answers is answered with the response it has left. -/
theorem processRawRequest_returned {ws : Webserver H W} {garbage : ResponseCode} {raw : Str}
    {req : Request} {handler : H} {status : Status} {resp : Response} {s s' : ServerState W}
    (hparse : Request.parse raw = some req) (hpass : ws.refused req = none)
    (hroute : ws.matchRequestWithHandler req = some handler)
    (hreturned : ws.handleRequest handler req (.uninitialised garbage) s
      = (.returned (status, resp), s')) :
    ws.processRawRequest garbage raw s
      = ({ response := respond resp, handler := some handler }, countResponse req resp s') := by
  simp [processRawRequest, hparse, hpass, dispatch, hroute, hreturned]

/-- The first line of a response shows its code. -/
theorem respond_500_iff (resp : Response) :
    (∃ rest, respond resp = .returned (lit "HTTP/1.1 500 Internal Server Error\r\n" ++ rest)) ↔
      resp.code = Response.code500InternalError := by
  constructor
  · rintro ⟨rest, h⟩
    by_cases hknown : resp.code ∈ Response.knownCodes
    · obtain ⟨reason, -, htext⟩ := Response.toString_of_known hknown
      rw [respond, htext] at h
      have hdigits : Response.statusDigits resp.code.toNat = Response.statusDigits 500 :=
        congrArg (fun text => (text.drop 9).take 3) (Outcome.returned.inj h)
      obtain ⟨hnonneg, hlt⟩ := Response.knownCodes_bounded _ hknown
      have hcode : resp.code.toNat = 500 :=
        Response.statusDigits_inj (by omega) (by decide) hdigits
      exact (Int.toNat_of_nonneg hnonneg).symm.trans (congrArg Int.ofNat hcode)
    · rw [respond, Response.toString_of_unknown (Response.lookup_of_not_known hknown)] at h
      cases h
  · intro hcode
    have htext : responseCodeStrings.lookup resp.code = some (lit "500 Internal Server Error") := by
      rw [hcode]
      rfl
    rw [respond, Response.toString_eq htext]
    exact ⟨_, by simp only [Outcome.ofExcept, List.append_assoc]; rfl⟩

/--
**A handler's failure becomes a 500 exactly when the handler has set that code**
before it returned `Error`.
-/
theorem failure_answered_iff {ws : Webserver H W} {garbage : ResponseCode} {raw : Str}
    {req : Request} {handler : H} {resp : Response} {s s' : ServerState W}
    (hparse : Request.parse raw = some req) (hpass : ws.refused req = none)
    (hroute : ws.matchRequestWithHandler req = some handler)
    (hfailed : ws.handleRequest handler req (.uninitialised garbage) s
      = (.returned (.error, resp), s')) :
    FailureAnswered req s' (ws.processRawRequest garbage raw s) ↔
      resp.code = Response.code500InternalError := by
  rw [processRawRequest_returned hparse hpass hroute hfailed, FailureAnswered, respond_500_iff]
  refine ⟨And.left, fun hcode => ⟨hcode, ?_⟩⟩
  rw [countResponse, hcode]
  exact MultiMapCounter.count_increment _ _ _ 1

/-- A server whose only handler is a proxy for `a.com:80` at `/proxy`. -/
def proxyServer : Webserver Unit ProxyHandler.ProxyMem where
  opt :=
    { handlerMap := (∅ : Std.TreeMap Str Unit).insert (lit "/proxy") ()
      defaultHandler := none
      auth := none }
  handleRequest := fun _ req resp s =>
    let (o, m) := (ProxyHandler.handleRequest 8 req resp).run upstream s.world
    (o, { s with world := m })

/-- The server before any request, with a proxy that cannot connect. -/
def unreachableState : ServerState ProxyHandler.ProxyMem :=
  { world :=
      { shared := ProxyHandler.proxyExample
        held := false
        env := [{ connect := .ok false, write := .ok true, read := none }]
        asked := [] } }

def rawProxyRequest : Str := lit "GET /proxy/x HTTP/1.1\r\n\r\n"

/-- The call of the proxy in `unreachableState` fails with the response it was given. -/
theorem proxyServer_fails (garbage : ResponseCode) :
    ∃ s', proxyServer.handleRequest () (ProxyHandler.proxyRequest (lit "/proxy/x"))
      (.uninitialised garbage) unreachableState
        = (.returned (.error, .uninitialised garbage), s') :=
  ⟨_, rfl⟩

/-- The proxy reports that it could not connect, and printing its response throws. -/
theorem failure_not_answered :
    ∃ resp s', Request.parse rawProxyRequest = some (ProxyHandler.proxyRequest (lit "/proxy/x")) ∧
      proxyServer.refused (ProxyHandler.proxyRequest (lit "/proxy/x")) = none ∧
      proxyServer.matchRequestWithHandler (ProxyHandler.proxyRequest (lit "/proxy/x")) = some () ∧
      proxyServer.handleRequest () (ProxyHandler.proxyRequest (lit "/proxy/x")) (.uninitialised 0)
        unreachableState = (.returned (.error, resp), s') ∧
      ¬FailureAnswered (ProxyHandler.proxyRequest (lit "/proxy/x")) s'
        (proxyServer.processRawRequest 0 rawProxyRequest unreachableState) := by
  have hparse : Request.parse rawProxyRequest
      = some (ProxyHandler.proxyRequest (lit "/proxy/x")) := by decide +kernel
  have hroute : proxyServer.matchRequestWithHandler (ProxyHandler.proxyRequest (lit "/proxy/x"))
      = some () := by decide +kernel
  obtain ⟨s', hfailed⟩ := proxyServer_fails 0
  refine ⟨_, s', hparse, rfl, hroute, hfailed, ?_⟩
  rw [processRawRequest_returned hparse rfl hroute hfailed]
  rintro ⟨⟨rest, h⟩, -⟩
  cases h

/-- The same failure is answered where the memory of the response happens to hold 500. -/
theorem failure_answered_example :
    ∃ s', FailureAnswered (ProxyHandler.proxyRequest (lit "/proxy/x")) s'
        (proxyServer.processRawRequest 500 rawProxyRequest unreachableState) ↔
      (Response.uninitialised 500).code = Response.code500InternalError := by
  obtain ⟨s', hfailed⟩ := proxyServer_fails 500
  exact ⟨s', failure_answered_iff (by decide +kernel) rfl (by decide +kernel) hfailed⟩

end JustEnough
