/-
`options.cc`: from a config text to the options of the server.

`loadOptionsFromStream` goes through the statements of the config one by one and changes
the options as it goes; where it returns false the result here is `none`.  `stoi` may
throw, and a statement without a block is a null pointer to the functions that take
one.

Handlers are made by name.  Which types there are, what `Init` of a new handler of each
type gives, and whether it can be deleted when `Init` has failed, is a parameter
(`Registry`).
-/
import JustEnough.Server.ConfigParser
import JustEnough.Server.Webserver

namespace JustEnough

def maxPort : Nat := 65535
def minPort : Nat := 1024
def maxThreads : Nat := 2000
def defaultNumThreads : Nat := 8

/-- `struct Options`: what the server reads of it, the port and the number of threads. -/
structure LoadedOptions (H : Type) extends Options H where
  port : Nat
  thread : Nat

/-- What `Options` does with a new handler of a type. -/
structure HandlerType (H : Type) where
  /-- The handler after `Init`, or none where `Init` returns an error. -/
  init : Str → NginxConfig → Except Fault (Option H)
  /-- `delete handler` after `Init` has returned an error. -/
  delete : Str → NginxConfig → Except Fault Unit

/-- `request_handler_builders`, by name. -/
abbrev Registry (H : Type) := Str → Option (HandlerType H)

/-- `RequestHandler::CreateByName(type.c_str())`. -/
def createByName {H : Type} (registry : Registry H) (type : Str) : Option (HandlerType H) :=
  registry (cString type)

namespace LoadedOptions

variable {H : Type} (registry : Registry H)

/-- `Options::Options()`. -/
def fresh : LoadedOptions H where
  handlerMap := ∅
  defaultHandler := none
  auth := none
  port := 0
  thread := defaultNumThreads

/-- An empty path stands for the default handler. -/
def addHandler (type path : Str) (handlerConfig : NginxConfig) (opt : LoadedOptions H) :
    Except Fault (Option (LoadedOptions H)) :=
  match createByName registry type with
  | none => .ok none
  | some handlerType =>
    match handlerType.init path handlerConfig with
    | .error e => .error e
    | .ok none => (handlerType.delete path handlerConfig).map fun _ => none
    | .ok (some handler) =>
      if path = [] then .ok (some { opt with defaultHandler := some handler })
      else .ok (some { opt with handlerMap := opt.handlerMap.insert path handler })

def addPath (statement : NginxConfigStatement) (opt : LoadedOptions H) :
    Except Fault (Option (LoadedOptions H)) :=
  match statement.tokens with
  | [_, path, type] =>
    match statement.childBlock with
    | none => .error .undefinedBehaviour
    | some block => opt.addHandler registry type path block
  | _ => .ok none

def addDefaultHandler (statement : NginxConfigStatement) (opt : LoadedOptions H) :
    Except Fault (Option (LoadedOptions H)) :=
  match statement.tokens with
  | [_, type] =>
    match statement.childBlock with
    | none => .error .undefinedBehaviour
    | some block => opt.addHandler registry type [] block
  | _ => .ok none

/-- `AuthMap` after the statements of a realm; only `credentials` are kept. -/
def credentials (authMap : Std.TreeMap Str Str) : NginxConfig → Option (Std.TreeMap Str Str)
  | [] => some authMap
  | statement :: rest =>
    match statement.tokens with
    | [key, username, pass] =>
      credentials (if key = lit "credentials" then authMap.insert username pass else authMap) rest
    | _ => none

def addAuthenticationRealm (statement : NginxConfigStatement) (opt : LoadedOptions H) :
    Except Fault (Option (LoadedOptions H)) :=
  match statement.tokens with
  | [_, realm] =>
    match statement.childBlock with
    | none => .error .undefinedBehaviour
    | some block =>
      match credentials ∅ block with
      | none => .ok none
      | some users =>
        match opt.auth with
        | none => .error .undefinedBehaviour
        | some auth => .ok (some { opt with auth := some (auth.addRealm { realm, users }) })
  | _ => .ok none

/-- The number in a statement of two tokens; the bounds are compared with it as an `unsigned int`. -/
def boundedValue (lo hi : Nat) (statement : NginxConfigStatement) : Except Fault (Option Int) :=
  match statement.tokens with
  | [_, value] =>
    match stoi value with
    | .error e => .error e
    | .ok n => if toUnsigned 32 n > hi ∨ toUnsigned 32 n < lo then .ok none else .ok (some n)
  | _ => .ok none

def addPort (statement : NginxConfigStatement) (opt : LoadedOptions H) :
    Except Fault (Option (LoadedOptions H)) :=
  (boundedValue minPort maxPort statement).map fun value =>
    value.map fun n => { opt with port := toUnsigned 16 n }

def addThread (statement : NginxConfigStatement) (opt : LoadedOptions H) :
    Except Fault (Option (LoadedOptions H)) :=
  (boundedValue 1 maxThreads statement).map fun value =>
    value.map fun n => { opt with thread := toUnsigned 32 n }

end LoadedOptions

/-- The options, and the two flags of the loop. -/
structure Loading (H : Type) where
  opt : LoadedOptions H
  issetPort : Bool
  issetThread : Bool

section Load

variable {H : Type} (registry : Registry H)

/-- One turn of the loop. -/
def loadStatement (statement : NginxConfigStatement) (st : Loading H) :
    Except Fault (Option (Loading H)) :=
  match statement.tokens with
  | [] => .error .undefinedBehaviour
  | [_] => .ok none
  | key :: _ :: _ =>
    if key = lit "port" then
      if st.issetPort then .ok none
      else (st.opt.addPort statement).map (·.map fun opt => { st with opt, issetPort := true })
    else if key = lit "threads" then
      if st.issetThread then .ok none
      else (st.opt.addThread statement).map (·.map fun opt => { st with opt, issetThread := true })
    else if key = lit "path" then
      (st.opt.addPath registry statement).map (·.map fun opt => { st with opt })
    else if key = lit "default" then
      (st.opt.addDefaultHandler registry statement).map (·.map fun opt => { st with opt })
    else if key = lit "realm" then
      (st.opt.addAuthenticationRealm statement).map (·.map fun opt => { st with opt })
    else .ok none

/-- The `for` loop. -/
def loadStatements : NginxConfig → Loading H → Except Fault (Option (Loading H))
  | [], st => .ok (some st)
  | statement :: rest, st =>
    match loadStatement registry statement st with
    | .error e => .error e
    | .ok none => .ok none
    | .ok (some st') => loadStatements rest st'

/-- What follows the loop: the port has to be there, threads and default handler need not. -/
def finish (st : Loading H) : Except Fault (Option (LoadedOptions H)) :=
  if st.issetPort = false then .ok none
  else
    let opt := if st.issetThread then st.opt else { st.opt with thread := defaultNumThreads }
    match opt.defaultHandler with
    | some _ => .ok (some opt)
    | none =>
      (opt.addHandler registry (lit "NotFoundHandler") [] []).map fun added => some (added.getD opt)

def loadOptionsFromStream (configFile : Str) (opt : LoadedOptions H) :
    Except Fault (Option (LoadedOptions H)) :=
  match parse configFile with
  | .error e => .error e
  | .ok (false, _) => .ok none
  | .ok (true, config) =>
    match loadStatements registry config
        { opt := { opt with auth := some .empty, defaultHandler := none }
          issetPort := false
          issetThread := false } with
    | .error e => .error e
    | .ok none => .ok none
    | .ok (some st) => finish registry st

/-! ### What a load leaves behind

The options are changed in place, so a load that returns false or throws leaves them as
they were where it stopped.  After undefined behaviour nothing is known of them, `none`.
-/

/-- The options and the flags where the loop starts. -/
def starting (opt : LoadedOptions H) : Loading H where
  opt := { opt with auth := some .empty, defaultHandler := none }
  issetPort := false
  issetThread := false

/-- Where the loop stops; a statement that fails has changed nothing. -/
def stoppedAt : NginxConfig → Loading H → Loading H
  | [], st => st
  | statement :: rest, st =>
    match loadStatement registry statement st with
    | .error _ => st
    | .ok none => st
    | .ok (some st') => stoppedAt rest st'

/-- The options with the number of threads they have in the end. -/
def settled (st : Loading H) : LoadedOptions H :=
  if st.issetThread then st.opt else { st.opt with thread := defaultNumThreads }

/-- The options after what follows the loop. -/
def finished (st : Loading H) : Option (LoadedOptions H) :=
  match finish registry st with
  | .error .undefinedBehaviour => none
  | .error _ => some (settled st)
  | .ok none => some st.opt
  | .ok (some opt) => some opt

/-- The options after a load, whatever it returned. -/
def optionsLeft (configFile : Str) (opt : LoadedOptions H) : Option (LoadedOptions H) :=
  match parse configFile with
  | .error _ => some opt
  | .ok (false, _) => some opt
  | .ok (true, config) =>
    match loadStatements registry config (starting opt) with
    | .error .undefinedBehaviour => none
    | .error _ => some (stoppedAt registry config (starting opt)).opt
    | .ok none => some (stoppedAt registry config (starting opt)).opt
    | .ok (some st) => finished registry st

/-- A new `Options` after loads of those texts, one after another. -/
def optionsAfter (history : List Str) : Option (LoadedOptions H) :=
  history.foldlM (fun opt configFile => optionsLeft registry configFile opt) .fresh

end Load

end JustEnough
