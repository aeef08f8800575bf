/-
`echo_handler.cc`, `status_handler.cc`, and `processRawRequest` as the calls it makes of
the server's counters.  Only the server counts and only the status page looks: any other
handler makes none of these calls, and here it is only what it answers; one that never
returns is a thread whose turn never comes again.

All threads of a server count in one `MultiMapCounter`, whose operations each hold its
mutex from beginning to end.  Between two of them other threads may count, so a request
is a program over these operations.  The status page makes any number of them: it asks
for the keys, and then for one inner map after the other.
-/
import JustEnough.Lib.Workers
import JustEnough.Server.Options
import JustEnough.Server.StaticHandler

namespace JustEnough

/-! ### The counters as an object -/

/-- What a thread asks of the counters. -/
inductive CounterCall
  | increment (outerKey : Str) (innerKey : ResponseCode) (delta : counter_t)
  | getKeys
  | iterateKey (outerKey : Str)

abbrev CounterAnswer : CounterCall → Type
  | .increment .. => Unit
  | .getKeys => List Str
  | .iterateKey _ => Std.TreeMap ResponseCode counter_t

/-- The server's `counters_`. -/
abbrev Counters := MultiMapCounter Str ResponseCode

def Counters.call : (q : CounterCall) → Counters → CounterAnswer q × Counters
  | .increment outerKey innerKey delta, m => ((), m.increment outerKey innerKey delta)
  | .getKeys, m => (m.getKeys, m)
  | .iterateKey outerKey, m => m.iterateKey outerKey

abbrev CounterProg (α : Type) := Prog Unit CounterCall CounterAnswer Fault α

/-! ### Handlers -/

/-- The handlers that need nothing but the server and its files, and those of other types, which
are known by what they are called. -/
inductive RequestHandler (O : Type)
  | echo
  | static (handler : StaticHandler)
  | status
  | notFound
  | other (type : Str) (handler : O)
  deriving DecidableEq

/-- No other types. -/
abbrev BuiltinHandler := RequestHandler Empty

namespace RequestHandler

/-- `type()`. -/
def type {O : Type} : RequestHandler O → Str
  | .echo => lit "EchoHandler"
  | .static _ => lit "StaticHandler"
  | .status => lit "StatusHandler"
  | .notFound => lit "NotFoundHandler"
  | .other type _ => type

end RequestHandler

/-- A type with nothing to initialise, and nothing to delete. -/
def HandlerType.plain {H : Type} (handler : H) : HandlerType H where
  init _ _ := .ok (some handler)
  delete _ _ := .ok ()

/-- The handlers that are registered, less the proxy and the delay. -/
def builtinHandlers : Registry BuiltinHandler := fun type =>
  if type = lit "EchoHandler" then some (.plain .echo)
  else if type = lit "StaticHandler" then
    some
      { init := fun uriPrefix config => .ok ((StaticHandler.init uriPrefix config).map .static)
        delete := fun _ _ => StaticHandler.deleteRefused }
  else if type = lit "StatusHandler" then some (.plain .status)
  else if type = lit "NotFoundHandler" then some (.plain .notFound)
  else none

namespace EchoHandler

def handleRequest (req : Request) (resp : Response) : Status × Response :=
  (.ok, ((resp.setStatus Response.code200OK).setBody req.rawRequest).addHeader
    (lit "Content-Type") (lit "text/plain"))

end EchoHandler

namespace StatusHandler

def handlerRow (path type : Str) : Str :=
  lit "<tr><td>" ++ path ++ lit "</td><td>" ++ type ++ lit "</td></tr>"

def handlersStr {O : Type} (opt : Options (RequestHandler O)) : Str :=
  opt.handlerMap.toList.flatMap (fun h => handlerRow h.1 h.2.type) ++
    (opt.defaultHandler.map fun h => handlerRow (lit "(default)") h.type).getD []

/-- One row for each counter; the first of a key has a line above it. -/
def countRows (k : Str) : Bool → List (ResponseCode × counter_t) → Str
  | _, [] => []
  | first, c :: cs =>
    (if first then lit "<tr class=\"overline\">" else lit "<tr>") ++
      lit "<td>" ++ k ++ lit "</td>" ++
      lit "<td>" ++ decimalInt c.1 ++ lit "</td>" ++
      lit "<td>" ++ decimalInt c.2.toInt ++ lit "</td>" ++
      lit "</tr>" ++ countRows k false cs

/-- `requestCountsStr`; each key is asked for by itself. -/
def requestCounts : List Str → CounterProg Str
  | [] => pure []
  | k :: ks => do
    let inner : Std.TreeMap ResponseCode counter_t ← Prog.query (CounterCall.iterateKey k)
    let rest ← requestCounts ks
    return countRows k true inner.toList ++ rest

def pageHead : Str :=
  lit ("<html>" ++ "  <head>" ++ "  <style>" ++ "  table \x7b" ++ "    font-family: monospace;" ++
    "    border: 1px solid #777;" ++ "    border-collapse: collapse" ++ "  \x7d" ++ "  td \x7b" ++
    "    padding: 4px 20px;" ++ "  \x7d" ++ "  .underline \x7b" ++
    "    border-bottom: 1px solid #777;" ++ "  \x7d" ++ "  .overline \x7b" ++
    "    border-top: 1px solid #777;" ++ "  \x7d" ++ "  </style>" ++ "  </head>" ++ "  <body>" ++
    "    <h1 style=\"text-decoration: underline;\">Webserver Status</h1>" ++
    "    <h2>Registered handlers:</h2>" ++ "    <table>" ++
    "      <tr class=\"underline\"><th>Path</th><th>Handler Type</th></tr>")

def pageMiddle : Str :=
  lit ("    </table>" ++ "    <h2>Requests:</h2>" ++ "    <table>" ++
    "      <tr class=\"underline\"><th>Path</th><th>Response Code</th><th>Count</th></tr>")

def pageFoot : Str := lit ("    </table>" ++ "  <body>" ++ "</html>")

/-- `server` is the options of `Webserver::instance`, unless that is a null pointer. -/
def handleRequest {O : Type} (server : Option (Options (RequestHandler O))) (resp : Response) :
    CounterProg (Status × Response) :=
  match server with
  | none => pure (.error, resp.setStatus Response.code404NotFound)
  | some opt => do
    let keys ← Prog.query CounterCall.getKeys
    let requestCountsStr ← requestCounts keys
    let html := pageHead ++ handlersStr opt ++ pageMiddle ++ requestCountsStr ++ pageFoot
    return (.ok, ((resp.setStatus Response.code200OK).setBody html).addHeader
      (lit "Content-Type") (lit "text/html"))

end StatusHandler

/-! ### The server -/

section Server

variable {O : Type} (opt : Options (RequestHandler O)) (convertMarkdownToHtml : Str → Str)

/-- What a request finds: the files, and what handlers of other types do with it. -/
structure Surroundings (O : Type) extends FileSystem where
  others : O → Request → Response → Except Fault (Status × Response)

/-- `handler->HandleRequest(request, response)`. -/
def RequestHandler.handleRequest (outside : Surroundings O) (handler : RequestHandler O)
    (req : Request) (resp : Response) : CounterProg (Status × Response) :=
  match handler with
  | .echo => pure (EchoHandler.handleRequest req resp)
  | .static handler =>
    Prog.ofExcept (handler.handleRequest outside.toFileSystem convertMarkdownToHtml req resp)
  | .status => StatusHandler.handleRequest (some opt) resp
  | .notFound => pure (NotFoundHandler.handleRequest resp)
  | .other _ handler => Prog.ofExcept (outside.others handler req resp)

/-- The server with these handlers; a call of one that is alone runs to its end at once. -/
def countedServer (outside : Surroundings O) : Webserver (RequestHandler O) Unit where
  opt := opt
  handleRequest handler req resp s :=
    let r := (handler.handleRequest opt convertMarkdownToHtml outside req resp).run
      (Workers.answer Counters.call) { shared := (), held := false, env := s.counters, asked := [] }
    (r.1, { counters := r.2.env, world := () })

/-- A raw request, and what it finds: what is outside the server, and what is in memory where its
response will be. -/
structure Arrival (O : Type) where
  raw : Str
  outside : Surroundings O
  garbage : ResponseCode

/-- `counters_.increment(req->uri(), resp.status()); return resp.ToString();` -/
def countAndRespond (req : Request) (resp : Response) : CounterProg Str := do
  Prog.query (CounterCall.increment req.uri resp.code 1)
  Prog.ofExcept resp.toString

/-- `processRawRequest`, as the calls a thread makes. -/
def processArrival (arrival : Arrival O) : CounterProg Str :=
  let ws := countedServer opt convertMarkdownToHtml arrival.outside
  match Request.parse arrival.raw with
  | none => pure []
  | some req =>
    match ws.refused req with
    | some auth => countAndRespond req (Webserver.refusal auth arrival.garbage req)
    | none =>
      match ws.matchRequestWithHandler req with
      | none => .throw .undefinedBehaviour
      | some handler => do
        let r ← handler.handleRequest opt convertMarkdownToHtml arrival.outside req
          (.uninitialised arrival.garbage)
        countAndRespond req r.2

/-- Raw requests one by one, each answered before the next. -/
def processAll : List (Arrival O) → ServerState Unit →
    List (Arrival O × Outcome Fault Str) × ServerState Unit
  | [], s => ([], s)
  | arrival :: rest, s =>
    let r := (countedServer opt convertMarkdownToHtml arrival.outside).processRawRequest
      arrival.garbage arrival.raw s
    let later := processAll rest r.2
    ((arrival, r.1.response) :: later.1, later.2)

end Server

end JustEnough
