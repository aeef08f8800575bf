/-
`proxy_handler.cc`: requests passed on to another server.

One handler object serves all threads.  Its fields hold the configuration and, while a
redirect is being followed, where it leads; a member function reads and writes them
one at a time, so it is a `Prog` over the record of those fields.  What the upstream
server does is what the environment answers: whether `Connect` and `Write` succeed,
fail or throw, and what `Read` reads.

`HandleRequest` calls itself to follow a redirect, and the loop over the headers of a
reply can run for ever (where no CRLF is left, `npos + 2` takes it back to the second
character).  Both are unrolled to a depth.
-/
import JustEnough.Lib.Prog
import JustEnough.Server.ConfigParser
import JustEnough.Server.RequestHandler

namespace JustEnough

/-! ### The handler and its upstream -/

/-- The fields of the class, but for the mutex and the client. -/
structure ProxyHandler where
  uriPrefix : Str
  remoteHost : Str
  remotePort : Str
  redirectHost : Str := []
  redirectHostHeader : Str := []
  redirectUri : Str := []
  redirect : Bool := false
  deriving DecidableEq, Repr

/-- What the handler asks of its `SyncClient`. -/
inductive ProxyQuestion
  | connect (host port : Str)
  | write (text : Str)
  | read
  deriving DecidableEq, Repr

/-- `Connect` and `Write` may throw; `Read` gives the reply, or fails. -/
abbrev ProxyAnswer : ProxyQuestion → Type
  | .connect _ _ => Except Fault Bool
  | .write _ => Except Fault Bool
  | .read => Option Str

abbrev ProxyProg (α : Type) := Prog ProxyHandler ProxyQuestion ProxyAnswer Fault α

/-- What the upstream does with one connection. -/
structure Exchange where
  connect : Except Fault Bool
  write : Except Fault Bool
  read : Option Str
  deriving DecidableEq

/-- An upstream that treats each connection as the next exchange of a list. -/
def upstream : (q : ProxyQuestion) → List Exchange → Option (ProxyAnswer q × List Exchange)
  | _, [] => none
  | .connect _ _, e :: es => some (e.connect, e :: es)
  | .write _, e :: es => some (e.write, e :: es)
  | .read, e :: es => some (e.read, es)

namespace ProxyHandler

/-- Token `i` of statement `j`; the source looks without asking whether it is there. -/
def tokenOf (config : NginxConfig) (j i : Nat) : Except Fault Str :=
  match config[j]? with
  | none => .error .undefinedBehaviour
  | some statement =>
    match statement.tokens[i]? with
    | none => .error .undefinedBehaviour
    | some token => .ok token

/-- `Init` of a new handler; `remote_port` may stand before or after the host. -/
def init (uriPrefix : Str) (config : NginxConfig) : Except Fault ProxyHandler := do
  let serverLocation := if (← tokenOf config 0 0) = lit "remote_port" then 1 else 0
  let remoteHost ← tokenOf config serverLocation 1
  let remotePort ← tokenOf config (1 - serverLocation) 1
  return { uriPrefix, remoteHost, remotePort }

/-! ### `ParseRawResponse` -/

/-- `header_value.substr(uri_pos)`. -/
def substrFrom (s : Str) : Option Nat → Except Fault Str
  | some pos => substr s pos none
  | none => .error .outOfRange

/-- The host and the URI in a `Location`, with its first `/` looked for from `uriPos` on. -/
def splitLocation (headerValue : Str) (uriPos : Nat) : ProxyProg Unit := do
  let uriPos := find headerValue (lit "/") uriPos
  let hostHeader ← Prog.ofExcept (substr headerValue 0 uriPos)
  Prog.modify fun h => { h with redirectHostHeader := hostHeader }
  let uri ← Prog.ofExcept (substrFrom headerValue uriPos)
  Prog.modify fun h => { h with redirectUri := uri }
  let redirectHost ← Prog.get (·.redirectHost)
  let redirectUri ← Prog.get (·.redirectUri)
  let host ← Prog.ofExcept (substr redirectHost 0 (find redirectHost redirectUri 0))
  Prog.modify fun h => { h with redirectHost := host }

/-- What a `Location` header sets. -/
def redirectTo (headerValue : Str) : ProxyProg Unit := do
  Prog.modify fun h => { h with redirect := true }
  if headerValue.head? = some (byte '/') then
    Prog.modify fun h => { h with redirectUri := headerValue }
  else
    Prog.modify fun h => { h with redirectHost := headerValue }
    let redirectHost ← Prog.get (·.redirectHost)
    if find redirectHost (lit "http://") 0 = some 0 then
      let redirectHost ← Prog.get (·.redirectHost)
      let rest ← Prog.ofExcept (substr redirectHost (lit "http://").length none)
      Prog.modify fun h => { h with redirectHost := rest }
      splitLocation headerValue (lit "http://").length
    else splitLocation headerValue 0

/-- The reply is one whose `Location` is followed. -/
def isRedirect (rc : ResponseCode) (headerName : Str) : Bool :=
  (rc = Response.code302Found || rc = Response.code301Moved) && headerName = lit "Location"

/-- The `while (true)` loop over the headers; `stop` is `end` after the line before. -/
def parseHeaders (rawResponse : Str) (rc : ResponseCode) :
    Nat → Option Nat → Response → ProxyProg Response
  | 0, _, _ => .spin
  | fuel + 1, stop, response => do
    let start := past stop 2
    if find rawResponse CRLF start = some start then
      let body ← Prog.ofExcept (substr rawResponse (start + 2) (some rawResponse.length))
      return response.setBody body
    else
      let stop := find rawResponse (lit ":") start
      let headerName ← Prog.ofExcept (substr rawResponse start stop)
      let start := past stop 1
      let start := start + ((rawResponse.drop start).takeWhile (· = byte ' ')).length
      let stop := find rawResponse CRLF start
      let headerValue ← Prog.ofExcept (substr rawResponse start stop)
      if isRedirect rc headerName then redirectTo headerValue else pure ()
      parseHeaders rawResponse rc fuel stop (response.addHeader headerName headerValue)

def parseRawResponse (fuel : Nat) (rawResponse : Str) : ProxyProg Response := do
  let start := past (find rawResponse (lit " ") 0) 1
  let stop := find rawResponse (lit " ") start
  let code ← Prog.ofExcept (substr rawResponse start stop)
  let rc ← Prog.ofExcept (stoi code)
  parseHeaders rawResponse rc fuel (find rawResponse CRLF start) { code := rc }

/-! ### `HandleRequest` -/

/-- `if (!redirect_) mtx_.lock(); else redirect_ = false;` -/
def enter : ProxyProg Unit :=
  .read fun h =>
    if h.redirect = false then .lock (.pure ())
    else .write (fun h => { h with redirect := false }) (.pure ())

/-- The request as it is passed on. -/
def proxiedRequest (request : Request) (uri host port : Str) : Request :=
  let proxied := request.setUri (if uri = [] then lit "/" else uri)
  let proxied := (proxied.removeHeader (lit "Connection")).addHeader (lit "Connection") (lit "Close")
  (proxied.removeHeader (lit "Host")).addHeader (lit "Host") (host ++ lit ":" ++ port)

/-- `mtx_.unlock(); return` -/
def unlockAndReturn (status : Status) (response : Response) : ProxyProg (Status × Response) := do
  Prog.release
  return (status, response)

/-- Where the request goes: the host of a redirect, once, or the configured one. -/
def takeHost : ProxyProg Str := do
  if (← Prog.get (·.redirectHost)).length > 0 then
    let host ← Prog.get (·.redirectHost)
    Prog.modify fun h => { h with redirectHost := [] }
    return host
  else Prog.get (·.remoteHost)

/-- `remote_host_.size() == 0 || remote_port_.size() == 0` -/
def unconfigured : ProxyProg Bool := do
  if (← Prog.get (·.remoteHost)).length = 0 then return true
  else return (← Prog.get (·.remotePort)).length = 0

/-- The branch that follows a redirect, with the call it makes. -/
def followRedirect (handleRequest : Request → Response → ProxyProg (Status × Response))
    (request : Request) (response : Response) : ProxyProg (Status × Response) := do
  let redirectUri ← Prog.get (·.redirectUri)
  let redirectHostHeader ← Prog.get (·.redirectHostHeader)
  let redirectRequest := (((request.setUri redirectUri).removeHeader (lit "Host")).addHeader
    (lit "Host") redirectHostHeader)
  Prog.modify fun h => { h with uriPrefix := [] }
  handleRequest redirectRequest response

/-- One connection: `none` where it fails, the reply otherwise. -/
def exchange (host port text : Str) : ProxyProg (Option Str) := do
  if !(← Prog.ofExcept (← Prog.query (.connect host port))) then return none
  else if !(← Prog.ofExcept (← Prog.query (.write text))) then return none
  else Prog.query ProxyQuestion.read

/-- `HandleRequest` past the entry test; `handleRequest` is the call that follows a redirect. -/
def serveRequest (handleRequest : Request → Response → ProxyProg (Status × Response)) (fuel : Nat)
    (request : Request) (response : Response) : ProxyProg (Status × Response) := do
  if ← unconfigured then unlockAndReturn .error response
  else
    let host ← takeHost
    let uriPrefix ← Prog.get (·.uriPrefix)
    let uri ← Prog.ofExcept (substr request.uri uriPrefix.length none)
    let hostPort ← Prog.get (·.remotePort)
    let port ← Prog.get (·.remotePort)
    match ← exchange host port (proxiedRequest request uri host hostPort).rawRequest with
    | none => unlockAndReturn .error response
    | some responseStr =>
      let response ← parseRawResponse fuel responseStr
      if ← Prog.get (·.redirect) then followRedirect handleRequest request response
      else unlockAndReturn .ok response

def handleRequest : Nat → Request → Response → ProxyProg (Status × Response)
  | 0, _, _ => .spin
  | fuel + 1, request, response => do
    enter
    serveRequest (handleRequest fuel) fuel request response

end ProxyHandler

end JustEnough
