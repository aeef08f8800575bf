/-
Proxies in a row.

The last server of a row answers some request, and the first one was asked another: each
server in between has cut its prefix off the URI and put in its own `Host` and
`Connection`, and its body is gone (`delivered`).  Apart from that nobody can tell the
row from its last server.  What a client of the row reads is byte for byte what a client
of the last server reads that sends the forwarded request itself (`row_transparent`),
however the bytes are cut up on each connection, and every proxy is left as it was found.

The proof takes one hop at a time.  Text goes over a hop unchanged when it is a response
that is read back and is not followed anywhere (`Relayable`), and the answers of a server
with the built-in handlers are such texts.
-/
import JustEnough.Proofs.Connection
import JustEnough.Proofs.Injection
import JustEnough.Proofs.ProxiedRequest
import JustEnough.Proofs.ResponseHeads
import JustEnough.Proofs.UpstreamRead
import JustEnough.Server.Network

namespace JustEnough

open ProxyHandler Connection

/-! ### Bytes on their way -/

namespace SyncClient

theorem readFrom_delivers {results : List ReadResult} {text : Str} (h : Delivers results text) :
    ∀ responseStream, readFrom responseStream results = some (some (responseStream ++ text), []) := by
  induction h with
  | last bytes =>
      intro responseStream
      rw [readFrom_ends (by simp [Continues])]
      simp [replyAfter]
  | @more bytes results text hne _ ih =>
      intro responseStream
      rw [readFrom_continues ⟨hne, rfl⟩, ih]
      simp

end SyncClient

/-- A line without a line feed is read up to the CRLF behind it. -/
theorem requestHead_framedLine {line : Str} (hne : line ≠ []) (hline : byte '\n' ∉ line) (rest : Str) :
    requestHead (line ++ CRLF ++ rest) = line ++ CRLF ++ requestHead rest := by
  have hCRLF : ¬CRLF <:+: line := fun h => hline (h.subset (by simp [CRLF, lit]))
  have hsep : byte '\r' ≠ byte '\n' := by decide
  have hfind : findFrom CRLF (line ++ CRLF ++ rest) = some line.length := by
    rw [List.append_assoc]
    exact findFrom_pair hsep hCRLF rest
  have hlen : line.length + 2 = (line ++ CRLF).length := by simp [CRLF, lit]
  rw [requestHead_some hfind, if_neg (by simpa using hne), hlen, List.take_left, List.drop_left]

/-- Of a printed request, a server reads everything but the body. -/
theorem requestHead_rawRequest {req : Request} (h : Request.Framed req) :
    requestHead req.rawRequest = { req with body := [] }.rawRequest := by
  have hheaders : ∀ headers : Headers, (∀ header ∈ headers, Request.FramedHeader header) →
      requestHead (headerLines headers ++ (CRLF ++ req.body)) = headerLines headers ++ CRLF := by
    intro headers hall
    induction headers with
    | nil => exact requestHead_empty req.body
    | cons header headers ih =>
        have hsep : byte '\n' ∉ lit ": " := by decide
        have hheader := hall header (by simp)
        have hline := @requestHead_framedLine (header.1 ++ lit ": " ++ header.2) (by simp [lit])
          (by simp [hheader.name, hheader.value, hsep]) (headerLines headers ++ (CRLF ++ req.body))
        rw [headerLines_cons, List.append_assoc, hline, ih fun g hg => hall g (by simp [hg])]
        simp
  have hspace : byte '\n' ∉ lit " " := by decide
  have hline := @requestHead_framedLine
    (req.method ++ lit " " ++ req.uri ++ lit " " ++ req.version) (by simp [lit])
    (by simp [h.method.2, h.uri.2, h.version.2, hspace])
    (headerLines req.headers ++ (CRLF ++ req.body))
  rw [hheaders req.headers h.headers] at hline
  simpa [Request.rawRequest] using hline

/-- What arrives of a request: as many zero bytes of body as its headers announce. -/
def arriving (req : Request) : Request :=
  { req with body := List.replicate (Request.announced req.headers).toNat 0 }

theorem parse_requestHead {req : Request} (h : Request.Framed req) :
    Request.parse (requestHead req.rawRequest) = some (arriving req) := by
  have hempty : Request.Framed { req with body := [] } :=
    ⟨h.method, h.uri, h.version, h.http, h.headers⟩
  rw [requestHead_rawRequest h, Request.parse_rawRequest_framed hempty, Request.readBody_nil]
  rfl

/-! ### One hop -/

/-- However the request comes, the peer answers with that reply, and goes to that state. -/
def Peer.AnswersTo (p : Peer) (req : Request) (s : p.State) (reply : Str) (s' : p.State) : Prop :=
  ∀ reads : List Str, Request.parse (requestHead reads.flatten) = some req →
    p.serve reads s = some (reply, s')

/-- The text is a response that is read back at that depth and leads nowhere else. -/
def Relayable (fuel : Nat) (text : Str) : Prop :=
  ∃ resp : Response, resp.toString = .ok text ∧ parsed fuel text = .returned resp ∧
    isFollowed resp = false

theorem Relayable.mono {n k : Nat} {text : Str} (h : Relayable n text) (hle : n ≤ k) :
    Relayable k text := by
  obtain ⟨resp, htext, hparsed, hfollowed⟩ := h
  refine ⟨resp, htext, ?_, hfollowed⟩
  rw [parsed_mono hle (by simp [hparsed]), hparsed]

/-- A connection of the proxy, when the peer answers. -/
theorem run_exchange_answered {p : Peer} {wire : Wire} {host port text : Str}
    {m : Prog.Mem ProxyHandler (Line p) ProxyQuestion} {reply : Str} {s' : p.State}
    (hserve : p.serve (wire.up text) m.env.peer = some (reply, s')) :
    ∃ asked, (exchange host port text).run (p.answer wire host port) m
      = (.returned (some reply), { m with env := { peer := s' }, asked }) := by
  have hread := SyncClient.readFrom_delivers (wire.down_all reply) []
  have hdown : SyncClient.read (wire.down reply) = some (some reply, []) := hread
  refine ⟨m.asked ++ [.connect host port] ++ [.write text] ++ [.read], ?_⟩
  simp only [exchange, Prog.run_bind, Prog.run_query, Peer.answer, decide_true, and_self,
    Prog.andThen_returned, Prog.run_ok, Bool.not_true, Bool.false_eq_true, if_false,
    List.nil_append, hserve, hdown, Option.map_some]

/-- **A proxy that is idle** gives back what its peer wrote, and is idle again. -/
theorem run_relay {p : Peer} {wire : Wire} {fuel : Nat} {req : Request} (response : Response)
    {m : Prog.Mem ProxyHandler (Line p) ProxyQuestion} (hheld : m.held = false)
    (hredirect : m.shared.redirect = false) (hhost : m.shared.redirectHost = [])
    (hconf : ¬Unconfigured m.shared) (hcuts : CutsPrefix m.shared req) {reply : Str} {s' : p.State}
    (hserve : p.serve (wire.up (sentRequest m.shared req).rawRequest) m.env.peer = some (reply, s'))
    {resp : Response} (hparsed : parsed fuel reply = .returned resp)
    (hfollowed : isFollowed resp = false) :
    ∃ asked, (ProxyHandler.handleRequest (fuel + 1) req response).run
        (p.answer wire m.shared.remoteHost m.shared.remotePort) m
      = (.returned (.ok, resp), { m with held := false, env := { peer := s' }, asked }) := by
  have htaken : hostTaken m.shared = m.shared := by rw [hostTaken, ← hhost]
  have hhostOf : hostOf m.shared = m.shared.remoteHost := by rw [hostOf, if_pos hhost]
  obtain ⟨asked, hexchange⟩ := @run_exchange_answered p wire m.shared.remoteHost
    m.shared.remotePort (sentRequest m.shared req).rawRequest { m with held := true } reply s' hserve
  obtain ⟨f, hlocal, -, heffect⟩ := parseRawResponse_local fuel reply
  have hsame : f m.shared = m.shared := (heffect resp hparsed).2.1.ordinary hfollowed m.shared
  rw [handleRequest_enter fuel req response hheld hredirect,
    run_serveRequest _ _ fuel response (m := { m with held := true }) hconf hcuts]
  simp only [htaken, hhostOf]
  rw [hexchange, Prog.andThen_returned]
  simp only
  rw [hlocal, hparsed, Prog.andThen_returned]
  simp only [hsame, hredirect, Bool.false_eq_true, if_false]
  exact ⟨asked, rfl⟩

/-- What a connection comes to: the response, or nothing where an exception is thrown. -/
theorem Webserver.serve_eq {H W : Type} (ws : Webserver H W) (garbage : ResponseCode)
    (reads : List Str) (s : ServerState W) :
    (ws.peer garbage).serve reads s =
      match (ws.processRawRequest garbage (requestHead reads.flatten) s).1.response with
      | .returned reply => some (reply, (ws.processRawRequest garbage (requestHead reads.flatten) s).2)
      | .threw _ => some ([], (ws.processRawRequest garbage (requestHead reads.flatten) s).2)
      | _ => none := by
  have hraw : (Connection.readRequest { reads } []).1 = requestHead reads.flatten := by
    rw [readRequest_eq]
    simp [stream]
  simp only [Webserver.peer, Webserver.processConnection, hraw]
  generalize ws.processRawRequest garbage (requestHead reads.flatten) s = r
  obtain ⟨⟨response, handler⟩, s'⟩ := r
  cases response with
  | returned reply =>
      by_cases hreply : reply = []
      · simp [hreply]
      · simp [hreply]
  | threw e => rfl
  | running => rfl
  | stuck => rfl

namespace Hop

variable {H W : Type}

/-- A server of a row that can pass requests on. -/
structure Sound (hop : Hop H W) : Prop where
  configured : ¬Unconfigured hop.handler
  host : FramedValue hop.handler.remoteHost
  port : byte '\n' ∉ hop.handler.remotePort
  /-- The object that was made for the path is a new one. -/
  fresh : hop.handler.redirect = false ∧ hop.handler.redirectHost = []

/-- The request is handed to the proxy. -/
structure Takes (hop : Hop H W) (p : Peer) (req : Request) : Prop where
  admitted : (hop.server p).refused req = none
  routed : (hop.server p).matchRequestWithHandler req = some (.proxy hop.handler)
  cuts : CutsPrefix hop.handler req

/-- The request that arrives at the next server. -/
def delivered (hop : Hop H W) (req : Request) : Request := arriving (sentRequest hop.handler req)

/-- The proxy is as it was made, between two calls. -/
def Idle (hop : Hop H W) {p : Peer} (w : FrontWorld W p) : Prop :=
  w.objects hop.handler.uriPrefix = (hop.handler, false)

/-- The request that is passed on is framed. -/
theorem Sound.framed {hop : Hop H W} (h : hop.Sound) {raw : Str} {req : Request}
    (hparse : Request.parse raw = some req) : Request.Framed (sentRequest hop.handler req) := by
  have hframed := (Request.parse_framed hparse).1
  have hword := hframed.uri
  refine Request.parsesBack_iff.mp
    ((parsesBack_sent_iff h.port).mpr ⟨framedRest_of_framed hframed, ⟨?_, ?_⟩, ?_⟩)
  · exact fun hmem => hword.1 (List.mem_of_mem_drop hmem)
  · exact fun hmem => hword.2 (List.mem_of_mem_drop hmem)
  · rw [hostOf, if_pos h.fresh.2]
    exact h.host

/-- **One hop**: what the peer writes is what the server in front of it writes. -/
theorem answersTo {hop : Hop H W} (hsound : hop.Sound) {p : Peer} {req : Request}
    (htakes : hop.Takes p req) {s : ServerState (FrontWorld W p)} (hidle : hop.Idle s.world)
    {fuel : Nat} (hfuel : hop.front.fuel = fuel + 1) {reply : Str} (hrelay : Relayable fuel reply)
    {σ' : p.State} (hanswers : p.AnswersTo (hop.delivered req) s.world.line.peer reply σ') :
    ∃ s' : ServerState (FrontWorld W p), (hop.peer p).AnswersTo req s reply s' ∧
      hop.Idle s'.world ∧ s'.world.line.peer = σ' := by
  obtain ⟨resp, htext, hparsed, hfollowed⟩ := hrelay
  have hobject : s.world.objects hop.handler.uriPrefix = (hop.handler, false) := hidle
  refine ⟨{
    counters := s.counters.increment req.uri resp.code 1
    world := { s.world with
      objects := Function.update s.world.objects hop.handler.uriPrefix (hop.handler, false)
      line := { peer := σ' } } }, ?_, by simp [Idle], rfl⟩
  intro reads hparse
  -- the request goes out over the wire and is read by the peer
  have hframed := hsound.framed hparse
  have hserve := hanswers (hop.wire.up (sentRequest hop.handler req).rawRequest) (by
    rw [hop.wire.up_all]
    exact parse_requestHead hframed)
  -- and what the peer writes comes back
  obtain ⟨asked, hrun⟩ := @run_relay p hop.wire fuel req (.uninitialised hop.garbage)
    { shared := hop.handler, held := false, env := s.world.line, asked := [] } rfl hsound.fresh.1
    hsound.fresh.2 hsound.configured htakes.cuts reply σ' hserve resp hparsed hfollowed
  have hhandle : (hop.server p).handleRequest (.proxy hop.handler) req (.uninitialised hop.garbage) s
      = (.returned (.ok, resp), { s with world := { s.world with
          objects := Function.update s.world.objects hop.handler.uriPrefix (hop.handler, false)
          line := { peer := σ' } } }) := by
    simp only [Hop.server, Front.server, Front.handleRequest, hobject, hfuel, hrun]
  show ((hop.server p).peer hop.garbage).serve reads s = _
  rw [Webserver.serve_eq]
  simp only [Webserver.processRawRequest, hparse, htakes.admitted, Webserver.dispatch,
    htakes.routed, hhandle, Webserver.respond, htext, Webserver.countResponse, Outcome.ofExcept]
  rfl

/-! ### A row of hops -/

/-- Every server of the row hands the request to its proxy when it comes to it. -/
def Routed (p : Peer) : List (Hop H W) → Request → Prop
  | [], _ => True
  | hop :: hops, req => hop.Takes (row hops p) req ∧ Routed p hops (hop.delivered req)

/-- The request that arrives at the last server. -/
def forwarded (hops : List (Hop H W)) (req : Request) : Request :=
  hops.foldl (fun req hop => hop.delivered req) req

/-- Every proxy of the row is idle, and the last server is in that state. -/
def Resting (p : Peer) : (hops : List (Hop H W)) → (row hops p).State → p.State → Prop
  | [], s, σ => s = σ
  | hop :: hops, s, σ =>
    have s : ServerState (FrontWorld W (row hops p)) := s
    hop.Idle s.world ∧ Resting p hops s.world.line.peer σ

theorem row_answersTo {p : Peer} {reply : Str} {fuel : Nat} (hrelay : Relayable fuel reply)
    {σ σ' : p.State} : ∀ {hops : List (Hop H W)},
      (∀ hop ∈ hops, hop.Sound ∧ fuel < hop.front.fuel) → ∀ {req : Request}, Routed p hops req →
      ∀ {s : (row hops p).State}, Resting p hops s σ →
        p.AnswersTo (forwarded hops req) σ reply σ' →
        ∃ s', (row hops p).AnswersTo req s reply s' ∧ Resting p hops s' σ' := by
  intro hops
  induction hops with
  | nil =>
      intro _ req _ s hrest hanswers
      obtain rfl : s = σ := hrest
      exact ⟨σ', hanswers, rfl⟩
  | cons hop hops ih =>
      intro hsound req hrouted s hrest hanswers
      obtain ⟨htakes, hroutes⟩ := hrouted
      obtain ⟨hidle, hbehind⟩ := hrest
      obtain ⟨hhop, hdeep⟩ := hsound hop (by simp)
      obtain ⟨next, hnext, hbehind'⟩ :=
        ih (fun h hh => hsound h (by simp [hh])) hroutes hbehind hanswers
      obtain ⟨depth, hdepth⟩ : ∃ depth, hop.front.fuel = depth + 1 := ⟨hop.front.fuel - 1, by omega⟩
      obtain ⟨s', hs', hidle', hline⟩ := answersTo hhop htakes hidle hdepth
        (hrelay.mono (by omega)) hnext
      exact ⟨s', hs', hidle', hline ▸ hbehind'⟩

end Hop

/-! ### The last server -/

/-- What a connection comes to depends on the request alone. -/
theorem Webserver.answersTo_of_serve {H W : Type} {ws : Webserver H W} {garbage : ResponseCode}
    {reads : List Str} {req : Request} {s s' : ServerState W} {reply : Str}
    (hparse : Request.parse (requestHead reads.flatten) = some req)
    (h : (ws.peer garbage).serve reads s = some (reply, s')) :
    (ws.peer garbage).AnswersTo req s reply s' := by
  intro reads' hparse'
  have hsame : ws.processRawRequest garbage (requestHead reads'.flatten) s
      = ws.processRawRequest garbage (requestHead reads.flatten) s := by
    simp only [Webserver.processRawRequest, hparse, hparse']
  rw [Webserver.serve_eq] at h ⊢
  rw [hsame]
  exact h

/-- Something was written only if it was returned. -/
theorem Webserver.returned_of_serve {H W : Type} {ws : Webserver H W} {garbage : ResponseCode}
    {reads : List Str} {s s' : ServerState W} {reply : Str} (hne : reply ≠ [])
    (h : (ws.peer garbage).serve reads s = some (reply, s')) :
    (ws.processRawRequest garbage (requestHead reads.flatten) s).1.response = .returned reply := by
  rw [Webserver.serve_eq] at h
  cases hresponse : (ws.processRawRequest garbage (requestHead reads.flatten) s).1.response with
  | returned response =>
      rw [hresponse] at h
      cases h
      rfl
  | threw e =>
      rw [hresponse] at h
      cases h
      exact absurd rfl hne
  | running =>
      rw [hresponse] at h
      cases h
  | stuck =>
      rw [hresponse] at h
      cases h

variable {opt : Options BuiltinHandler} {convertMarkdownToHtml : Str → Str}

/-- **What a server with the built-in handlers writes can go over any hop**, so over a row. -/
theorem relayable_of_serve {outside : Surroundings Empty} {garbage : ResponseCode} {reads : List Str}
    {s s' : ServerState Unit} {reply : Str} (hne : reply ≠ [])
    (h : ((countedServer opt convertMarkdownToHtml outside).peer garbage).serve reads s
      = some (reply, s')) : Relayable 3 reply := by
  have hreturned := Webserver.returned_of_serve hne h
  obtain ⟨m, hrun, -⟩ := run_processArrival opt convertMarkdownToHtml
    { raw := requestHead reads.flatten, outside, garbage } s
  rw [hreturned] at hrun
  have hanswer := Prog.wp_run (Workers.answer Counters.call)
    (processArrival_headed { raw := requestHead reads.flatten, outside, garbage }) hrun
  unfold AnswersWithHead at hanswer
  split at hanswer
  · exact absurd hanswer hne
  · obtain ⟨resp, htext, hheaded, hback⟩ := hanswer
    obtain ⟨-, hprinted, hpaths⟩ := (readsBack_iff resp).mp hback
    obtain ⟨-, h301, h302⟩ := hheaded.known
    have hread := parsed_printed htext hprinted hpaths
    refine ⟨resp, htext, ?_, ?_⟩
    · rw [parsed_mono (Nat.succ_le_succ hheaded.length_le) (by simp [hread]), hread]
    · simp [isFollowed, isRedirect, h301, h302]

/--
**A row of proxies is transparent.**  Whatever stands at its end, its client reads byte for
byte what that answers the forwarded request with, if it can be relayed, however the bytes
are cut up on the way, and every proxy of the row is idle again.
-/
theorem row_transparent {H W : Type} {p : Peer} {reply : Str} {fuel : Nat}
    (hrelay : Relayable fuel reply) {hops : List (Hop H W)}
    (hsound : ∀ hop ∈ hops, hop.Sound ∧ fuel < hop.front.fuel) {reads : List Str} {req : Request}
    (hparse : Request.parse (requestHead reads.flatten) = some req)
    (hrouted : Hop.Routed p hops req) {s : (Hop.row hops p).State} {σ σ' : p.State}
    (hrest : Hop.Resting p hops s σ)
    (hanswers : p.AnswersTo (Hop.forwarded hops req) σ reply σ') :
    ∃ s', (Hop.row hops p).serve reads s = some (reply, s') ∧ Hop.Resting p hops s' σ' := by
  obtain ⟨s', hrow, hrest'⟩ := Hop.row_answersTo hrelay hsound hrouted hrest hanswers
  exact ⟨s', hrow reads hparse, hrest'⟩

/-- A proxy for a path, and a server with nothing else. -/
def hopAt (path : Str) : Hop Unit Unit where
  front := {
    opt := {
      handlerMap := (∅ : Std.TreeMap Str (FrontHandler Unit)).insert path
        (.proxy { uriPrefix := path, remoteHost := lit "localhost", remotePort := lit "8081" })
      defaultHandler := none
      auth := none }
    others := fun _ _ resp s => (.returned (.error, resp), s)
    fuel := 4 }
  handler := { uriPrefix := path, remoteHost := lit "localhost", remotePort := lit "8081" }
  wire := .whole
  garbage := 0

theorem hopAt_sound (path : Str) : (hopAt path).Sound := by
  refine ⟨?_, ?_, ?_, rfl, rfl⟩
  · rintro (h | h)
    · cases h
    · cases h
  · show FramedValue (lit "localhost")
    exact ⟨by decide, by decide⟩
  · show byte '\n' ∉ lit "8081"
    decide

/-- No files at all. -/
def noFiles : Surroundings Empty :=
  { isDirectory := fun _ => .ok false, contents := fun _ => none, others := nofun }

/-- A server that sends every request back. -/
def echoPeer : Peer := (countedServer echoOptions id noFiles).peer 0

/-- A request for that URI, printed. -/
def requestText (uri host : Str) : Str :=
  lit "GET " ++ uri ++ lit " HTTP/1.1\r\nA: b\r\nConnection: Close\r\nHost: " ++ host ++
    lit "\r\n\r\n"

def requestFor (uri host : Str) : Request where
  method := lit "GET"
  uri := uri
  version := lit "HTTP/1.1"
  headers := [(lit "A", lit "b"), (lit "Connection", lit "Close"), (lit "Host", host)]
  body := []

/-- The state of a server with an idle proxy, in front of a peer in that state. -/
def restingState (path : Str) {p : Peer} (σ : p.State) : ServerState (FrontWorld Unit p) where
  world := {
    objects := fun _ => ((hopAt path).handler, false)
    line := { peer := σ }
    others := () }

/-- Two proxies in front of the echo server. -/
def restingRow : (Hop.row [hopAt (lit "/a"), hopAt (lit "/b")] echoPeer).State :=
  restingState (lit "/a") (p := (hopAt (lit "/b")).peer echoPeer)
    (restingState (lit "/b") (p := echoPeer) { world := () })

/-- A request for `/a/b/c` goes over two hops to a server that is asked for `/c`. -/
theorem row_transparent_example : ∃ s',
    (Hop.row [hopAt (lit "/a"), hopAt (lit "/b")] echoPeer).serve
        [requestText (lit "/a/b/c") (lit "x")] restingRow
      = some (lit "HTTP/1.1 200 OK\r\nContent-Type: text/plain\r\n\r\n" ++
          requestText (lit "/c") (lit "localhost:8081"), s') ∧
      Hop.Resting echoPeer [hopAt (lit "/a"), hopAt (lit "/b")] s'
        ((countedServer echoOptions id noFiles).processRawRequest 0
          (requestHead [requestText (lit "/c") (lit "localhost:8081")].flatten) { world := () }).2 := by
  have hparse : Request.parse (requestHead [requestText (lit "/a/b/c") (lit "x")].flatten)
      = some (requestFor (lit "/a/b/c") (lit "x")) := by decide +kernel
  have hdirect : Request.parse
      (requestHead [requestText (lit "/c") (lit "localhost:8081")].flatten)
      = some (Hop.forwarded [hopAt (lit "/a"), hopAt (lit "/b")]
          (requestFor (lit "/a/b/c") (lit "x"))) := by decide +kernel
  have hresponse : ((countedServer echoOptions id noFiles).processRawRequest 0
      (requestHead [requestText (lit "/c") (lit "localhost:8081")].flatten)
      { world := () }).1.response = .returned
        (lit "HTTP/1.1 200 OK\r\nContent-Type: text/plain\r\n\r\n" ++
          requestText (lit "/c") (lit "localhost:8081")) := by decide +kernel
  have hserve := Webserver.serve_eq (countedServer echoOptions id noFiles) 0
    [requestText (lit "/c") (lit "localhost:8081")] { world := () }
  rw [hresponse] at hserve
  refine @row_transparent Unit Unit echoPeer _ 3 (relayable_of_serve ?_ hserve)
    [hopAt (lit "/a"), hopAt (lit "/b")] ?_ _ _ hparse ⟨⟨rfl, ?_, ?_⟩, ⟨rfl, ?_, ?_⟩, trivial⟩
    restingRow { world := () } _ ⟨rfl, rfl, rfl⟩ (Webserver.answersTo_of_serve hdirect hserve)
  · decide +kernel
  · intro hop hmem
    rcases List.mem_cons.mp hmem with rfl | hmem
    · exact ⟨hopAt_sound _, by decide⟩
    · rw [List.mem_singleton.mp hmem]
      exact ⟨hopAt_sound _, by decide⟩
  · decide +kernel
  · decide +kernel
  · decide +kernel
  · decide +kernel

/-! ### What arrives at the end -/

/-- The credentials of a request are in headers that no proxy replaces. -/
theorem authorization_of_others {req req' : Request}
    (h : ProxyHandler.others req.headers = ProxyHandler.others req'.headers) :
    Authentication.authorization req = Authentication.authorization req' := by
  have hfind : ∀ headers : Headers, headers.find? (fun header => header.1 = lit "Authorization")
      = (ProxyHandler.others headers).find? fun header => header.1 = lit "Authorization" := by
    intro headers
    rw [ProxyHandler.others, List.find?_filter]
    congr 1
    funext header
    by_cases hname : header.1 = lit "Authorization"
    · rw [hname]
      decide
    · simp [hname]
  rw [Authentication.authorization, Authentication.authorization, hfind req.headers,
    hfind req'.headers, h]

/-- No proxy replaces a `Content-Length`. -/
theorem announced_of_others {req req' : Request}
    (h : ProxyHandler.others req.headers = ProxyHandler.others req'.headers) :
    Request.announced req.headers = Request.announced req'.headers := by
  have hfold : ∀ (headers : Headers) (n : Int), Request.announcedFrom n headers
      = Request.announcedFrom n (ProxyHandler.others headers) := by
    intro headers
    induction headers with
    | nil =>
        intro n
        rfl
    | cons header headers ih =>
        intro n
        by_cases hother : header.1 ≠ lit "Host" ∧ header.1 ≠ lit "Connection"
        · rw [ProxyHandler.others, List.filter_cons_of_pos (by simpa using hother)]
          exact ih _
        · have hlength : header.1 ≠ lit "Content-Length" := by
            intro hname
            exact hother (hname ▸ by decide)
          rw [ProxyHandler.others, List.filter_cons_of_neg (by simpa using hother)]
          show Request.announcedFrom (if _ then _ else n) headers = _
          rw [if_neg hlength]
          exact ih n
  rw [Request.announced, Request.announced, hfold req.headers, hfold req'.headers, h]

/-- One hop cuts its prefix off, leaves the rest of the head, and makes the body zeros. -/
theorem delivered_spec {H W : Type} (hop : Hop H W) {req : Request} {rest : Str} (hrest : rest ≠ [])
    (huri : req.uri = hop.handler.uriPrefix ++ rest) :
    (hop.delivered req).method = req.method ∧ (hop.delivered req).version = req.version ∧
      (hop.delivered req).uri = rest ∧
      ProxyHandler.others (hop.delivered req).headers = ProxyHandler.others req.headers ∧
      (hop.delivered req).body = List.replicate (Request.announced req.headers).toNat 0 := by
  have hothers := others_sentRequest hop.handler req
  refine ⟨rfl, rfl, ?_, hothers, ?_⟩
  · show (sentRequest hop.handler req).uri = rest
    rw [sentRequest_uri, huri, List.drop_left, if_neg hrest]
  · show List.replicate (Request.announced (sentRequest hop.handler req).headers).toNat 0 = _
    rw [announced_of_others hothers]

/--
**The last server of a row is asked for what the prefixes leave**, by the same method, with
the same headers but for `Host` and `Connection`, and so with the same credentials.  Of the
body only the length arrives.
-/
theorem forwarded_spec {H W : Type} (hops : List (Hop H W)) {req : Request} {rest : Str}
    (hrest : rest ≠ []) (huri : req.uri = (hops.flatMap fun hop => hop.handler.uriPrefix) ++ rest) :
    (Hop.forwarded hops req).method = req.method ∧ (Hop.forwarded hops req).version = req.version ∧
      (Hop.forwarded hops req).uri = rest ∧
      ProxyHandler.others (Hop.forwarded hops req).headers = ProxyHandler.others req.headers ∧
      Authentication.authorization (Hop.forwarded hops req) = Authentication.authorization req ∧
      (Hop.forwarded hops req).body = if hops = [] then req.body
        else List.replicate (Request.announced req.headers).toNat 0 := by
  have hspec : (Hop.forwarded hops req).method = req.method ∧
      (Hop.forwarded hops req).version = req.version ∧ (Hop.forwarded hops req).uri = rest ∧
      ProxyHandler.others (Hop.forwarded hops req).headers = ProxyHandler.others req.headers ∧
      (Hop.forwarded hops req).body = if hops = [] then req.body
        else List.replicate (Request.announced req.headers).toNat 0 := by
    induction hops generalizing req with
    | nil => exact ⟨rfl, rfl, huri, rfl, rfl⟩
    | cons hop hops ih =>
        rw [List.flatMap_cons, List.append_assoc] at huri
        have hlater : (hops.flatMap fun hop => hop.handler.uriPrefix) ++ rest ≠ [] := by
          simp [hrest]
        obtain ⟨hmethod, hversion, hcut, hothers, hbody⟩ := delivered_spec hop hlater huri
        obtain ⟨hmethod', hversion', hcut', hothers', hbody'⟩ := ih hcut
        refine ⟨hmethod'.trans hmethod, hversion'.trans hversion, hcut', hothers'.trans hothers, ?_⟩
        rw [if_neg (List.cons_ne_nil _ _)]
        refine hbody'.trans ?_
        rw [hbody, announced_of_others hothers, ite_self]
  obtain ⟨hmethod, hversion, hcut, hothers, hbody⟩ := hspec
  exact ⟨hmethod, hversion, hcut, hothers, authorization_of_others hothers, hbody⟩

theorem forwarded_example :
    (Hop.forwarded [hopAt (lit "/a"), hopAt (lit "/b")] (requestFor (lit "/a/b/c") (lit "x"))).uri
      = lit "/c" :=
  (@forwarded_spec Unit Unit [hopAt (lit "/a"), hopAt (lit "/b")]
    (requestFor (lit "/a/b/c") (lit "x")) (lit "/c") (by decide) (by decide)).2.2.1

end JustEnough
