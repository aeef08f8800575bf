/-
`webserver.cc`, the threads of a server: `run`, `runThread` and `stop`.

`run` creates the worker threads one after another and then waits for each of them.  A
worker sets `running_`, and takes connections for as long as it finds `running_` set.
`stop` clears it, and may be called by any thread at any time, a worker's included.

A step of the server is one access to what the threads share: the flag, the mutex, a
thread that is created or has exited.  What a call may do differently, such as fail or
never return, is part of the action's name.  The flag is a plain `bool`, and its accesses are
taken as atomic here; the constructor does not set it.
-/
import Mathlib.Data.List.Basic

namespace JustEnough

/-- Where a worker is in `runThread`. -/
inductive WorkerPosition
  /-- Created, with `running_ = true` still to come. -/
  | created
  /-- At `while (running_)`. -/
  | testing
  /-- In `acceptConnection`, waiting for the mutex. -/
  | waiting
  /-- In `acceptConnection`, with the mutex. -/
  | accepting
  | processing
  /-- In a call of `processConnection` that does not return. -/
  | blocked
  | exited
  deriving DecidableEq, Repr

/-- Where the caller of `run` is. -/
inductive RunPosition
  /-- The acceptor is still to be made. -/
  | listening
  | creating
  /-- At `threads_[i].join()`. -/
  | joining (i : Nat)
  /-- About to print that thread `i` exited. -/
  | reporting (i : Nat)
  | returned
  | threw
  deriving DecidableEq, Repr

/-- The fields of a server that `run`, `runThread` and `stop` share, and where they are. -/
structure RunState where
  running : Bool
  /-- Whether somebody holds `mtx_`. -/
  mtx : Bool := false
  run : RunPosition := .listening
  threads : List WorkerPosition := []
  deriving DecidableEq, Repr

inductive Action
  /-- The acceptor is made, or cannot be. -/
  | listen (ok : Bool)
  /-- A round of the first loop of `run`; the system may refuse another thread. -/
  | create (ok : Bool)
  /-- One of the two loops of `run` ends. -/
  | leaveLoop
  | join
  | report
  | start (i : Nat)
  | test (i : Nat)
  | lock (i : Nat)
  /-- What `acceptConnection` answers; it gives the mutex back in any case. -/
  | accept (i : Nat) (ok : Bool)
  /-- `processConnection` returns, or ends the loop by an exception. -/
  | process (i : Nat) (ok : Bool)
  /-- `processConnection` has come where it waits or loops for ever. -/
  | block (i : Nat)
  | stop
  deriving DecidableEq, Repr

namespace RunState

/-- After the constructor, which leaves whatever was there in `running_`. -/
def initial (garbage : Bool) : RunState := { running := garbage }

/-- Worker `i` goes from one place to another. -/
def advance (s : RunState) (i : Nat) (p q : WorkerPosition) : Option RunState :=
  if s.threads[i]? = some p then some { s with threads := s.threads.set i q } else none

/-- `runThread`, the part of one action. -/
def runThread (s : RunState) : Action → Option RunState
  | .start i => (s.advance i .created .testing).map fun s => { s with running := true }
  | .test i => s.advance i .testing (if s.running then .waiting else .exited)
  | .lock i =>
    if s.mtx then none
    else (s.advance i .waiting .accepting).map fun s => { s with mtx := true }
  | .accept i ok =>
    (s.advance i .accepting (if ok then .processing else .testing)).map fun s =>
      { s with mtx := false }
  | .process i ok => s.advance i .processing (if ok then .testing else .exited)
  | .block i => s.advance i .processing .blocked
  | _ => none

/-- `i < (int)opt_->thread` for the next `i`. -/
def Wanted (thread : BitVec 32) (s : RunState) : Prop := (s.threads.length : Int) < thread.toInt

instance (thread : BitVec 32) (s : RunState) : Decidable (s.Wanted thread) :=
  inferInstanceAs (Decidable ((s.threads.length : Int) < thread.toInt))

/-- One action of the server; `thread` is the option of that name, an `unsigned int`. -/
def step (thread : BitVec 32) (s : RunState) : Action → Option RunState
  | .listen ok =>
    if s.run = .listening then some { s with run := if ok then .creating else .threw } else none
  | .create ok =>
    if s.run = .creating ∧ s.Wanted thread then
      some (if ok then { s with threads := s.threads ++ [.created] } else { s with run := .threw })
    else none
  | .leaveLoop =>
    match s.run with
    | .creating => if s.Wanted thread then none else some { s with run := .joining 0 }
    | .joining i => if i < s.threads.length then none else some { s with run := .returned }
    | _ => none
  | .join =>
    match s.run with
    | .joining i =>
      if s.threads[i]? = some .exited then some { s with run := .reporting i } else none
    | _ => none
  | .report =>
    match s.run with
    | .reporting i => if s.mtx then none else some { s with run := .joining (i + 1) }
    | _ => none
  | .stop => some { s with running := false }
  | a => s.runThread a

/-- Actions one after another, each of them possible when its turn comes. -/
def exec (thread : BitVec 32) (s : RunState) (actions : List Action) : Option RunState :=
  actions.foldlM (step thread) s

end RunState

end JustEnough
