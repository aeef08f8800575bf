/-
Servers behind servers.

The request that a `ProxyHandler` writes arrives at another server, whose
`processConnection` reads it, and what that server writes is what `SyncClient::Read`
reads.  A server seen from its clients is a `Peer`: the reads of a connection go in, the
bytes it writes before it closes come out.  A proxy asks its questions to such a peer
(`Peer.answer`), and a server with proxies among its handlers is a peer again, so that
proxies can stand in a row.

Bytes may be cut up on their way in both directions in any manner, as long as all of
them arrive (`Wire`).
-/
import JustEnough.Server.Connection
import JustEnough.Server.ProxyHandler
import JustEnough.Server.SyncClient

namespace JustEnough

/-! ### Connections -/

/-- These results of `boost::asio::read` give that text and then the end of the file. -/
inductive SyncClient.Delivers : List ReadResult → Str → Prop
  | last (bytes : Str) : Delivers [{ bytes, error := .eof }] bytes
  | more {bytes : Str} {results : List ReadResult} {text : Str} (hne : bytes ≠ [])
      (h : Delivers results text) :
      Delivers ({ bytes, error := .none } :: results) (bytes ++ text)

/-- How the bytes of a connection are cut up, from the client to the server and back. -/
structure Wire where
  up : Str → List Str
  down : Str → List ReadResult
  up_all : ∀ text, (up text).flatten = text
  down_all : ∀ text, SyncClient.Delivers (down text) text

/-- The wire that carries everything in one piece. -/
def Wire.whole : Wire where
  up text := [text]
  down text := [{ bytes := text, error := .eof }]
  up_all := by simp
  down_all := .last

/-- A server as its clients see it; a connection that is never closed has no answer. -/
structure Peer where
  State : Type
  serve : List Str → State → Option (Str × State)

/-- One connection after the other; where nothing is written it is closed all the same. -/
def Webserver.peer {H W : Type} (ws : Webserver H W) (garbage : ResponseCode) : Peer where
  State := ServerState W
  serve reads s :=
    match ws.processConnection garbage { reads } s with
    | (connected, s') =>
      match connected.served.response with
      | .running => none
      | .stuck => none
      | _ => some (connected.written.getD [], s')

/-! ### The upstream of a proxy -/

/-- The peer, and what was written to the connection that stands. -/
structure Line (p : Peer) where
  peer : p.State
  sent : Str := []

/-- What a proxy's questions come to where that peer listens and nobody else does. -/
def Peer.answer (p : Peer) (wire : Wire) (host port : Str) :
    (q : ProxyQuestion) → Line p → Option (ProxyAnswer q × Line p)
  | .connect host' port', line =>
    some (.ok (decide (host' = host ∧ port' = port)), { line with sent := [] })
  | .write text, line => some (.ok true, { line with sent := line.sent ++ text })
  | .read, line =>
    match p.serve (wire.up line.sent) line.peer with
    | none => none
    | some (reply, s) =>
      (SyncClient.read (wire.down reply)).map fun result => (result.1, { peer := s })

/-! ### Servers with proxies -/

/-- A handler of a server in front of others. -/
inductive FrontHandler (H : Type)
  | proxy (handler : ProxyHandler)
  | other (handler : H)
  deriving DecidableEq

/-- What the handlers of such a server change. -/
structure FrontWorld (W : Type) (p : Peer) where
  /-- The fields of the proxy made for a path, and whether its mutex is locked. -/
  objects : Str → ProxyHandler × Bool
  line : Line p
  others : W

/-- A server in front of another, with its loops unrolled to a depth. -/
structure Front (H W : Type) where
  opt : Options (FrontHandler H)
  others : H → Request → Response → ServerState W → HandlerResult W
  fuel : Nat

namespace Front

variable {H W : Type} (front : Front H W)

/-- `handler->HandleRequest(request, response)`; the object of a proxy is the one for its path. -/
def handleRequest (p : Peer) (wire : Wire) (host port : Str) (handler : FrontHandler H)
    (req : Request) (resp : Response) (s : ServerState (FrontWorld W p)) :
    HandlerResult (FrontWorld W p) :=
  match handler with
  | .proxy h =>
    let object := s.world.objects h.uriPrefix
    let r := (ProxyHandler.handleRequest front.fuel req resp).run (p.answer wire host port)
      { shared := object.1, held := object.2, env := s.world.line, asked := [] }
    (r.1, { s with world := { s.world with
      objects := Function.update s.world.objects h.uriPrefix (r.2.shared, r.2.held)
      line := r.2.env } })
  | .other h =>
    let r := front.others h req resp { counters := s.counters, world := s.world.others }
    (r.1, { counters := r.2.counters, world := { s.world with others := r.2.world } })

def server (p : Peer) (wire : Wire) (host port : Str) :
    Webserver (FrontHandler H) (FrontWorld W p) where
  opt := front.opt
  handleRequest := front.handleRequest p wire host port

end Front

/-! ### Rows of proxies -/

/-- A server in a row: one of its proxies stands for what is behind it. -/
structure Hop (H W : Type) where
  front : Front H W
  handler : ProxyHandler
  wire : Wire
  garbage : ResponseCode

namespace Hop

variable {H W : Type}

/-- The server with that peer where its proxy looks for it. -/
def server (hop : Hop H W) (p : Peer) : Webserver (FrontHandler H) (FrontWorld W p) :=
  hop.front.server p hop.wire hop.handler.remoteHost hop.handler.remotePort

def peer (hop : Hop H W) (p : Peer) : Peer := (hop.server p).peer hop.garbage

/-- The first of the row, with the others and then `p` behind it. -/
def row (hops : List (Hop H W)) (p : Peer) : Peer := hops.foldr Hop.peer p

end Hop

end JustEnough
