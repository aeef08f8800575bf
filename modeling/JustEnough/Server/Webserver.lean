/-
`webserver.cc`, from a raw request string to a response string, with the counters of
`multimap_counter.h`.

Handlers are objects behind pointers.  `H` is the type of those pointers, and what a
call of `HandleRequest` through one of them does is a parameter of the server: it may
change the part `W` of the world the handlers live in and the counters, and it ends
like any call, by returning, by throwing, or not at all.
-/
import JustEnough.Server.Authenticate
import JustEnough.Lib.Prog

namespace JustEnough

/-! ### Counters -/

/-- `counter_t`, an `int`. -/
abbrev counter_t := BitVec 32

/-- A map of maps of counters. -/
structure MultiMapCounter (A B : Type) [Ord A] [Ord B] where
  map : Std.TreeMap A (Std.TreeMap B counter_t) := ∅

namespace MultiMapCounter

variable {A B : Type} [Ord A] [Ord B]

def increment (m : MultiMapCounter A B) (outerKey : A) (innerKey : B) (delta : counter_t) :
    MultiMapCounter A B :=
  match m.map[outerKey]? with
  | none => { map := m.map.insert outerKey ((∅ : Std.TreeMap B counter_t).insert innerKey delta) }
  | some inner =>
    { map := m.map.insert outerKey (inner.insert innerKey (inner.getD innerKey 0 + delta)) }

/-- The value of a counter, which is put there as zero if it is missing, and the map after that. -/
def get (m : MultiMapCounter A B) (outerKey : A) (innerKey : B) : counter_t × MultiMapCounter A B :=
  let inner := m.map.getD outerKey ∅
  match inner[innerKey]? with
  | some value => (value, m)
  | none => (0, { map := m.map.insert outerKey (inner.insert innerKey 0) })

def getKeys (m : MultiMapCounter A B) : List A := m.map.keys

/-- A copy of the inner map, which is put there if it is missing, and the map after that. -/
def iterateKey (m : MultiMapCounter A B) (outerKey : A) :
    Std.TreeMap B counter_t × MultiMapCounter A B :=
  match m.map[outerKey]? with
  | some inner => (inner, m)
  | none => (∅, { map := m.map.insert outerKey ∅ })

/-- The value of a counter; one that was never incremented is zero. -/
def count (m : MultiMapCounter A B) (outerKey : A) (innerKey : B) : counter_t :=
  match m.map[outerKey]? with
  | none => 0
  | some inner => inner.getD innerKey 0

theorem count_increment [Std.TransOrd A] [Std.TransOrd B] (m : MultiMapCounter A B) (a : A) (b : B)
    (delta : counter_t) : (m.increment a b delta).count a b = m.count a b + delta := by
  unfold increment count
  cases h : m.map[a]? <;> simp

end MultiMapCounter

/-! ### The server -/

/-- What the server reads of `struct Options`. -/
structure Options (H : Type) where
  handlerMap : Std.TreeMap Str H
  /-- A null pointer when no default handler was set. -/
  defaultHandler : Option H
  /-- A null pointer when no configuration was loaded. -/
  auth : Option Authentication

/-- What a request can change. -/
structure ServerState (W : Type) where
  counters : MultiMapCounter Str ResponseCode := {}
  world : W

/-- How a call of a handler ended, and the state it left. -/
abbrev HandlerResult (W : Type) := Outcome Fault (Status × Response) × ServerState W

structure Webserver (H W : Type) where
  opt : Options H
  /-- `handler->HandleRequest(request, response)`, by virtual dispatch. -/
  handleRequest : H → Request → Response → ServerState W → HandlerResult W

/-- The response string, and the handler that was called on the way, if one was. -/
structure Served (H : Type) where
  response : Outcome Fault Str
  handler : Option H

namespace Webserver

variable {H W : Type} (ws : Webserver H W)

def matchRequestWithHandler (req : Request) : Option H :=
  match mapHasPrefix ws.opt.handlerMap req.uri with
  | some h => some h
  | none => ws.opt.defaultHandler

/-- `return resp.ToString();` -/
def respond (resp : Response) : Outcome Fault Str := .ofExcept resp.toString

def countResponse (req : Request) (resp : Response) (s : ServerState W) : ServerState W :=
  { s with counters := s.counters.increment req.uri resp.code 1 }

/-- From `matchRequestWithHandler` on.  A null handler has no meaning in the standard. -/
def dispatch (garbage : ResponseCode) (req : Request) (s : ServerState W) :
    Served H × ServerState W :=
  match ws.matchRequestWithHandler req with
  | none => ({ response := .threw .undefinedBehaviour, handler := none }, s)
  | some handler =>
    match ws.handleRequest handler req (.uninitialised garbage) s with
    | (.returned (_, resp), s') =>
      ({ response := respond resp, handler := some handler }, countResponse req resp s')
    | (.threw e, s') => ({ response := .threw e, handler := some handler }, s')
    | (.running, s') => ({ response := .running, handler := some handler }, s')
    | (.stuck, s') => ({ response := .stuck, handler := some handler }, s')

/-- The response sent when authentication fails. -/
def refusal (auth : Authentication) (garbage : ResponseCode) (req : Request) : Response :=
  auth.generateFailedAuthenticationResponse req (.uninitialised garbage)

/-- `opt_->auth && requiresAuthentication && !passesAuthentication`. -/
def refused (req : Request) : Option Authentication :=
  ws.opt.auth.filter fun auth =>
    auth.requestRequiresAuthentication req && !auth.requestPassesAuthentication req

def processRawRequest (garbage : ResponseCode) (reqStr : Str) (s : ServerState W) :
    Served H × ServerState W :=
  match Request.parse reqStr with
  | none => ({ response := .returned [], handler := none }, s)
  | some req =>
    match ws.refused req with
    | some auth =>
      let resp := refusal auth garbage req
      ({ response := respond resp, handler := none }, countResponse req resp s)
    | none => ws.dispatch garbage req s

theorem matchRequestWithHandler_some {ws : Webserver H W} {req : Request} {h : H}
    (hm : ws.matchRequestWithHandler req = some h) :
    mapHasPrefix ws.opt.handlerMap req.uri = some h ∨
      mapHasPrefix ws.opt.handlerMap req.uri = none ∧ ws.opt.defaultHandler = some h := by
  unfold matchRequestWithHandler at hm
  split at hm
  · rename_i hmap
    exact Or.inl (hmap.trans hm)
  · rename_i hmap
    exact Or.inr ⟨hmap, hm⟩

theorem refused_eq_some_iff {ws : Webserver H W} {req : Request} {auth : Authentication} :
    ws.refused req = some auth ↔ ws.opt.auth = some auth ∧
      auth.requestRequiresAuthentication req = true ∧
      auth.requestPassesAuthentication req = false := by
  simp [refused, Option.filter_eq_some_iff]

theorem refused_eq_none_iff {ws : Webserver H W} {req : Request} :
    ws.refused req = none ↔ ∀ auth, ws.opt.auth = some auth →
      auth.requestRequiresAuthentication req = true →
      auth.requestPassesAuthentication req = true := by
  simp [refused, Option.filter_eq_none_iff]

/-- The refusal is the 401 response. -/
theorem respond_refusal (auth : Authentication) (garbage : ResponseCode) (req : Request) :
    ∃ rest, respond (refusal auth garbage req)
      = .returned (lit "HTTP/1.1 401 Unauthorized\r\n" ++ rest) := by
  have hcode : responseCodeStrings.lookup (refusal auth garbage req).code
      = some (lit "401 Unauthorized") := by
    rw [refusal, Authentication.generateFailed_code]
    rfl
  unfold respond
  rw [Response.toString_eq hcode]
  exact ⟨_, by simp only [Outcome.ofExcept, List.append_assoc]; rfl⟩

end Webserver

end JustEnough
