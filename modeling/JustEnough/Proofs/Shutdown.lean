/-
The threads of a server always get on, and after a stop they come to an end.

`run` waits for its threads in order and takes the mutex to print that one has exited,
which is the mutex a worker holds while it waits for a connection.  Still nobody blocks
for good there: whoever waits for the mutex waits for one worker's connection, and whoever
waits for a thread waits for one that can move.  What can block a worker is the
processing of a connection, which may never return.  So a server has nothing left to do
exactly when every worker has exited or is blocked so, and `run` is over or waits for a
worker that is (`stuck_iff_ended`), and where `run` has returned, it has seen every thread
it was to create to its end (`returned_spec`).

Once the flag is down for good (`Proofs/Stop.lean`), every worker is on its way out.  The
way is at most four actions long, so the rest of any run is bounded, and on it a worker
accepts one more connection if it was past its test of the flag, and none otherwise
(`shutdown`).  Without a stop a worker exits by an exception only, and every exception
takes one worker from the server (`workers_lost`).
-/
import Mathlib.Algebra.Order.BigOperators.Group.List
import Mathlib.Algebra.Order.Ring.Nat
import JustEnough.Lib.Runs
import JustEnough.Proofs.Stop

namespace JustEnough

/-! ### Where an action takes a worker -/

/-- Whose action it is, and the places that worker goes from and to. -/
def Action.move (running : Bool) : Action → Option (Nat × WorkerPosition × WorkerPosition)
  | .start i => some (i, .created, .testing)
  | .test i => some (i, .testing, if running then .waiting else .exited)
  | .lock i => some (i, .waiting, .accepting)
  | .accept i ok => some (i, .accepting, if ok then .processing else .testing)
  | .process i ok => some (i, .processing, if ok then .testing else .exited)
  | .block i => some (i, .processing, .blocked)
  | _ => none

/-- A call of `accept` that came back, with a connection or with an error. -/
def Action.accepts : Action → Bool
  | .accept _ _ => true
  | _ => false

/-- An exception that ended the loop of a worker. -/
def Action.throws : Action → Bool
  | .process _ ok => !ok
  | _ => false

/-- Past its test of the flag, and not yet back from `accept`. -/
def WorkerPosition.pending : WorkerPosition → Bool
  | .waiting | .accepting => true
  | _ => false

/-- The threads that the caller of `run` has seen to their end. -/
def RunPosition.joined (threads : Nat) : RunPosition → Nat
  | .joining i => i
  | .reporting i => i + 1
  | .returned => threads
  | .listening | .creating | .threw => 0

section Moves

variable {a : Action} {running : Bool} {i : Nat} {p q : WorkerPosition}

theorem Action.move_ne_exited (h : a.move running = some (i, p, q)) : p ≠ .exited := by
  intro hp
  subst hp
  cases a <;> simp [move] at h

theorem Action.move_ne_blocked (h : a.move running = some (i, p, q)) : p ≠ .blocked := by
  intro hp
  subst hp
  cases a <;> simp [move] at h

theorem Action.move_ne_stop (h : a.move running = some (i, p, q)) : a ≠ .stop := by
  intro ha
  subst ha
  cases h

theorem Action.move_created (h : a.move running = some (i, .created, q)) : a = .start i := by
  cases a with
  | start j =>
      cases h
      rfl
  | _ => simp [move] at h

/-- With the flag down, nobody else comes to wait for a connection. -/
theorem Action.move_pending (h : a.move false = some (i, p, q)) :
    q.pending.toNat + a.accepts.toNat = p.pending.toNat := by
  cases a with
  | accept i ok =>
      cases h
      cases ok <;> rfl
  | process i ok =>
      cases h
      cases ok <;> rfl
  | block i =>
      cases h
      rfl
  | start i =>
      cases h
      rfl
  | test i =>
      cases h
      rfl
  | lock i =>
      cases h
      rfl
  | _ => cases h

/-- With the flag set, only an exception makes a worker exit. -/
theorem Action.move_exited (h : a.move true = some (i, p, q)) : q = .exited ↔ a.throws = true := by
  cases a with
  | accept i ok =>
      cases h
      cases ok <;> simp [throws]
  | process i ok =>
      cases h
      cases ok <;> simp [throws]
  | block i =>
      cases h
      simp [throws]
  | start i =>
      cases h
      simp [throws]
  | test i =>
      cases h
      simp [throws]
  | lock i =>
      cases h
      simp [throws]
  | _ => cases h

end Moves

namespace RunState

variable {thread : BitVec 32} {s s' : RunState} {a : Action}

/-- What the caller of `run` and a call of `stop` do; the threads stay as they are. -/
inductive RunMoves (thread : BitVec 32) (s : RunState) : Action → RunPosition → Prop
  | listened : s.run = .listening → RunMoves thread s (.listen true) .creating
  | unbound : s.run = .listening → RunMoves thread s (.listen false) .threw
  | refused : s.run = .creating → s.Wanted thread → RunMoves thread s (.create false) .threw
  | created : s.run = .creating → ¬s.Wanted thread → RunMoves thread s .leaveLoop (.joining 0)
  | joined (i : Nat) : s.run = .joining i → s.threads[i]? = some .exited →
      RunMoves thread s .join (.reporting i)
  | reported (i : Nat) : s.run = .reporting i → s.mtx = false →
      RunMoves thread s .report (.joining (i + 1))
  | finished (i : Nat) : s.run = .joining i → s.threads.length ≤ i →
      RunMoves thread s .leaveLoop .returned
  | stopped : RunMoves thread s .stop s.run

theorem runThread_move (h : s.runThread a = some s') :
    ∃ i p q, a.move s.running = some (i, p, q) ∧ s.threads[i]? = some p ∧
      s'.threads = s.threads.set i q ∧ s'.run = s.run := by
  cases a with
  | start i =>
      obtain ⟨s₁, hmove, rfl⟩ := Option.map_eq_some_iff.mp h
      obtain ⟨hp, rfl⟩ := advance_eq_some_iff.mp hmove
      exact ⟨i, _, _, rfl, hp, rfl, rfl⟩
  | test i =>
      obtain ⟨hp, rfl⟩ := advance_eq_some_iff.mp h
      exact ⟨i, _, _, rfl, hp, rfl, rfl⟩
  | lock i =>
      obtain ⟨-, hmap⟩ := Option.ite_none_left_eq_some.mp h
      obtain ⟨s₁, hmove, rfl⟩ := Option.map_eq_some_iff.mp hmap
      obtain ⟨hp, rfl⟩ := advance_eq_some_iff.mp hmove
      exact ⟨i, _, _, rfl, hp, rfl, rfl⟩
  | accept i ok =>
      obtain ⟨s₁, hmove, rfl⟩ := Option.map_eq_some_iff.mp h
      obtain ⟨hp, rfl⟩ := advance_eq_some_iff.mp hmove
      exact ⟨i, _, _, rfl, hp, rfl, rfl⟩
  | process i ok =>
      obtain ⟨hp, rfl⟩ := advance_eq_some_iff.mp h
      exact ⟨i, _, _, rfl, hp, rfl, rfl⟩
  | block i =>
      obtain ⟨hp, rfl⟩ := advance_eq_some_iff.mp h
      exact ⟨i, _, _, rfl, hp, rfl, rfl⟩
  | _ => cases h

/-- An action moves one worker, creates one, or moves the caller of `run`. -/
theorem step_places (h : s.step thread a = some s') :
    (∃ i p q, a.move s.running = some (i, p, q) ∧ s.threads[i]? = some p ∧
        s'.threads = s.threads.set i q ∧ s'.run = s.run) ∨
      (a = .create true ∧ s.run = .creating ∧ s.Wanted thread ∧
        s'.threads = s.threads ++ [.created] ∧ s'.run = .creating) ∨
      (RunMoves thread s a s'.run ∧ s'.threads = s.threads) := by
  cases a with
  | listen ok =>
      obtain ⟨hrun, hs⟩ := Option.ite_none_right_eq_some.mp h
      cases hs
      cases ok with
      | true => exact Or.inr (Or.inr ⟨.listened hrun, rfl⟩)
      | false => exact Or.inr (Or.inr ⟨.unbound hrun, rfl⟩)
  | create ok =>
      obtain ⟨⟨hrun, hwanted⟩, hs⟩ := Option.ite_none_right_eq_some.mp h
      cases hs
      cases ok with
      | true => exact Or.inr (Or.inl ⟨rfl, hrun, hwanted, rfl, hrun⟩)
      | false => exact Or.inr (Or.inr ⟨.refused hrun hwanted, rfl⟩)
  | leaveLoop =>
      simp only [step] at h
      split at h
      · rename_i hrun
        obtain ⟨hwanted, hs⟩ := Option.ite_none_left_eq_some.mp h
        cases hs
        exact Or.inr (Or.inr ⟨.created hrun hwanted, rfl⟩)
      · rename_i i hrun
        obtain ⟨hi, hs⟩ := Option.ite_none_left_eq_some.mp h
        cases hs
        exact Or.inr (Or.inr ⟨.finished i hrun (Nat.le_of_not_lt hi), rfl⟩)
      · cases h
  | join =>
      simp only [step] at h
      split at h
      · rename_i i hrun
        obtain ⟨hi, hs⟩ := Option.ite_none_right_eq_some.mp h
        cases hs
        exact Or.inr (Or.inr ⟨.joined i hrun hi, rfl⟩)
      · cases h
  | report =>
      simp only [step] at h
      split at h
      · rename_i i hrun
        obtain ⟨hfree, hs⟩ := Option.ite_none_left_eq_some.mp h
        cases hs
        exact Or.inr (Or.inr ⟨.reported i hrun (Bool.eq_false_iff.mpr hfree), rfl⟩)
      · cases h
  | stop =>
      cases h
      exact Or.inr (Or.inr ⟨.stopped, rfl⟩)
  | start i => exact Or.inl (runThread_move h)
  | test i => exact Or.inl (runThread_move h)
  | lock i => exact Or.inl (runThread_move h)
  | accept i ok => exact Or.inl (runThread_move h)
  | process i ok => exact Or.inl (runThread_move h)
  | block i => exact Or.inl (runThread_move h)

/-! ### What `run` has done so far -/

/-- The threads are not too many, none is missing past the first loop, and those joined have exited. -/
structure Orderly (thread : BitVec 32) (s : RunState) : Prop where
  few : s.threads.length ≤ thread.toInt.toNat
  all : s.Creating ∨ s.run = .threw ∨ s.threads.length = thread.toInt.toNat
  exited : ∀ j < s.run.joined s.threads.length, s.threads[j]? = some .exited

theorem Orderly.step (h : s.Orderly thread) (hstep : s.step thread a = some s') :
    s'.Orderly thread := by
  obtain ⟨i, p, q, hmove, hp, hthreads, hrun⟩ | ⟨-, hcreating, hwanted, hthreads, hrun⟩
    | ⟨hmoves, hthreads⟩ := step_places hstep
  · have hlen : s'.threads.length = s.threads.length := by rw [hthreads, List.length_set]
    constructor
    · rw [hlen]
      exact h.few
    · rw [Creating, hrun, hlen]
      exact h.all
    · intro j hj
      rw [hrun, hlen] at hj
      have hexited := h.exited j hj
      -- a thread that was joined does not move any more
      have hne : i ≠ j := by
        intro hij
        rw [hij, hexited] at hp
        exact Action.move_ne_exited hmove (Option.some.inj hp).symm
      rw [hthreads, List.getElem?_set_ne hne]
      exact hexited
  · have hlt : (s.threads.length : Int) < thread.toInt := hwanted
    constructor
    · rw [hthreads, List.length_append, List.length_singleton]
      omega
    · exact Or.inl (Or.inr hrun)
    · intro j hj
      rw [hrun] at hj
      exact absurd hj (Nat.not_lt_zero j)
  · refine ⟨by rw [hthreads]; exact h.few, ?_, ?_⟩
    · rw [Creating, hthreads]
      obtain hcreating | hthrew | hall := h.all
      · generalize s'.run = r at hmoves
        cases hmoves with
        | listened => simp
        | unbound => simp
        | refused => simp
        | created hrun hwanted =>
            have hge : thread.toInt ≤ s.threads.length := Int.not_lt.mp hwanted
            have hfew := h.few
            exact Or.inr (Or.inr (by omega))
        | joined i hrun => simp [Creating, hrun] at hcreating
        | reported i hrun => simp [Creating, hrun] at hcreating
        | finished i hrun => simp [Creating, hrun] at hcreating
        | stopped => exact Or.inl hcreating
      · generalize s'.run = r at hmoves
        cases hmoves with
        | stopped => exact Or.inr (Or.inl hthrew)
        | _ => simp_all
      · exact Or.inr (Or.inr hall)
    · rw [hthreads]
      have hexited := h.exited
      generalize s'.run = r at hmoves
      cases hmoves with
      | joined i hrun hi =>
          intro j hj
          obtain hlt | rfl := Nat.lt_succ_iff_lt_or_eq.mp hj
          · exact hexited j (by rw [hrun]; exact hlt)
          · exact hi
      | reported i hrun => rwa [hrun] at hexited
      | finished i hrun hi =>
          intro j hj
          exact hexited j (by rw [hrun]; exact Nat.lt_of_lt_of_le hj hi)
      | stopped => exact hexited
      | _ =>
          intro j hj
          exact absurd hj (Nat.not_lt_zero j)

theorem exec_orderly {garbage : Bool} {actions : List Action}
    (h : (initial garbage).exec thread actions = some s) : s.Orderly thread := by
  refine exec_keeps (fun s => s.Orderly thread) (fun s s' a _ hs => hs.step) h ?_
  exact ⟨Nat.zero_le _, Or.inl (Or.inl rfl), fun j hj => absurd hj (Nat.not_lt_zero j)⟩

/-- **When `run` returns**, it has seen the end of as many threads as were asked for. -/
theorem returned_spec {garbage : Bool} {actions : List Action}
    (h : (initial garbage).exec thread actions = some s) (hrun : s.run = .returned) :
    s.threads = List.replicate thread.toInt.toNat .exited ∧ s.mtx = false := by
  have horderly := exec_orderly h
  have hexited : ∀ p ∈ s.threads, p = .exited := by
    intro p hp
    obtain ⟨j, hj⟩ := List.mem_iff_getElem?.mp hp
    have hlt : j < s.threads.length := (List.getElem?_eq_some_iff.mp hj).1
    have hdone := horderly.exited j (by rw [hrun]; exact hlt)
    rw [hj] at hdone
    exact Option.some.inj hdone
  constructor
  · rw [List.eq_replicate_iff]
    refine ⟨?_, hexited⟩
    obtain (hlistening | hcreating) | hthrew | hall := horderly.all
    · simp [hrun] at hlistening
    · simp [hrun] at hcreating
    · simp [hrun] at hthrew
    · exact hall
  · have hcount := exec_accepting h
    rw [List.count_eq_zero_of_not_mem fun hmem => by simpa using hexited _ hmem] at hcount
    exact Bool.toNat_eq_zero.mp hcount.symm

/-! ### Nobody blocks for good -/

/-- A worker in the place where an action begins can take it, if the mutex lets it. -/
theorem step_of_move {i : Nat} {p q : WorkerPosition} (hmove : a.move s.running = some (i, p, q))
    (hp : s.threads[i]? = some p) (hlock : p = .waiting → s.mtx = false) :
    ∃ s', s.step thread a = some s' := by
  have hadvance : s.advance i p q = some { s with threads := s.threads.set i q } :=
    advance_eq_some_iff.mpr ⟨hp, rfl⟩
  cases a with
  | lock i =>
      cases hmove
      refine ⟨{ s with threads := s.threads.set i .accepting, mtx := true }, ?_⟩
      show (if s.mtx then none else _) = _
      rw [hlock rfl, if_neg Bool.false_ne_true, hadvance]
      rfl
  | start i =>
      cases hmove
      exact ⟨_, Option.map_eq_some_iff.mpr ⟨_, hadvance, rfl⟩⟩
  | accept i ok =>
      cases hmove
      exact ⟨_, Option.map_eq_some_iff.mpr ⟨_, hadvance, rfl⟩⟩
  | test i =>
      cases hmove
      exact ⟨_, hadvance⟩
  | process i ok =>
      cases hmove
      exact ⟨_, hadvance⟩
  | block i =>
      cases hmove
      exact ⟨_, hadvance⟩
  | _ => cases hmove

/-- Somebody other than a caller of `stop` can act. -/
def Moves (thread : BitVec 32) (s : RunState) : Prop :=
  ∃ a s', a ≠ .stop ∧ s.step thread a = some s'

theorem moves_of_move {i : Nat} {p q : WorkerPosition} (hmove : a.move s.running = some (i, p, q))
    (hp : s.threads[i]? = some p) (hlock : p = .waiting → s.mtx = false) : s.Moves thread := by
  obtain ⟨s', hs'⟩ := step_of_move hmove hp hlock
  exact ⟨a, s', Action.move_ne_stop hmove, hs'⟩

/-- A worker that has exited, or is in a call that never returns. -/
def WorkerDone (p : WorkerPosition) : Prop := p = .exited ∨ p = .blocked

/-- Any other worker can act, or the one with the mutex can. -/
theorem worker_moves (hmtx : s.threads.count .accepting = s.mtx.toNat) {p : WorkerPosition}
    (hmem : p ∈ s.threads) (hp : ¬WorkerDone p) : s.Moves thread := by
  obtain ⟨i, hi⟩ := List.mem_iff_getElem?.mp hmem
  cases p with
  | created => exact moves_of_move (a := .start i) rfl hi (by simp)
  | testing => exact moves_of_move (a := .test i) rfl hi (by simp)
  | accepting => exact moves_of_move (a := .accept i true) rfl hi (by simp)
  | processing => exact moves_of_move (a := .process i true) rfl hi (by simp)
  | exited => exact absurd (Or.inl rfl) hp
  | blocked => exact absurd (Or.inr rfl) hp
  | waiting =>
      cases hheld : s.mtx with
      | false => exact moves_of_move (a := .lock i) rfl hi fun _ => hheld
      | true =>
          rw [hheld] at hmtx
          have hpos : 0 < s.threads.count .accepting := by
            rw [hmtx]
            exact Nat.one_pos
          obtain ⟨j, hj⟩ := List.mem_iff_getElem?.mp (List.count_pos_iff.mp hpos)
          exact moves_of_move (a := .accept j true) rfl hj (by simp)

/-- Every worker is done, and so is the call of `run`, unless it waits for one that is blocked. -/
structure Ended (s : RunState) : Prop where
  workers : ∀ p ∈ s.threads, WorkerDone p
  run : s.run = .returned ∨ s.run = .threw ∨ ∃ i, s.run = .joining i ∧ s.threads[i]? = some .blocked

/-- Where no worker is left, the caller of `run` gets on to its end, or to a blocked one. -/
theorem run_moves (hmtx : s.threads.count .accepting = s.mtx.toNat)
    (hdone : ∀ p ∈ s.threads, WorkerDone p) (hended : ¬s.Ended) : s.Moves thread := by
  have hfree : s.mtx = false := by
    have hnone : .accepting ∉ s.threads := fun hmem => by simpa [WorkerDone] using hdone _ hmem
    rw [List.count_eq_zero_of_not_mem hnone] at hmtx
    exact Bool.toNat_eq_zero.mp hmtx.symm
  cases hplace : s.run with
  | listening => exact ⟨.listen true, _, by simp, if_pos hplace⟩
  | creating =>
      by_cases hwanted : s.Wanted thread
      · exact ⟨.create true, _, by simp, if_pos ⟨hplace, hwanted⟩⟩
      · refine ⟨.leaveLoop, { s with run := .joining 0 }, by simp, ?_⟩
        simp [step, hplace, hwanted]
  | joining i =>
      by_cases hi : i < s.threads.length
      · rcases hdone _ (List.getElem_mem hi) with hexited | hblocked
        · have hjoin : s.threads[i]? = some .exited := by rw [List.getElem?_eq_getElem hi, hexited]
          refine ⟨.join, { s with run := .reporting i }, by simp, ?_⟩
          simp [step, hplace, hjoin]
        · have hwaits : s.threads[i]? = some .blocked := by
            rw [List.getElem?_eq_getElem hi, hblocked]
          exact absurd ⟨hdone, Or.inr (Or.inr ⟨i, hplace, hwaits⟩)⟩ hended
      · refine ⟨.leaveLoop, { s with run := .returned }, by simp, ?_⟩
        simp [step, hplace, hi]
  | reporting i =>
      refine ⟨.report, { s with run := .joining (i + 1) }, by simp, ?_⟩
      simp [step, hplace, hfree]
  | returned => exact absurd ⟨hdone, Or.inl hplace⟩ hended
  | threw => exact absurd ⟨hdone, Or.inr (Or.inl hplace)⟩ hended

theorem Ended.not_moves (h : s.Ended) : ¬s.Moves thread := by
  intro ⟨a, s', hstop, hstep⟩
  have hrun := h.run
  obtain ⟨i, p, q, hmove, hp, -⟩ | ⟨-, hcreating, -⟩ | ⟨hmoves, -⟩ := step_places hstep
  · rcases h.workers p (List.mem_of_getElem? hp) with hexited | hblocked
    · exact Action.move_ne_exited hmove hexited
    · exact Action.move_ne_blocked hmove hblocked
  · simp [hcreating] at hrun
  · generalize s'.run = r at hmoves
    cases hmoves with
    | stopped => exact hstop rfl
    | listened h => simp [h] at hrun
    | unbound h => simp [h] at hrun
    | refused h => simp [h] at hrun
    | created h => simp [h] at hrun
    | joined i h hi => simp [h, hi] at hrun
    | reported i h => simp [h] at hrun
    | finished i h hi => simp [h, List.getElem?_eq_none hi] at hrun

/--
**No deadlock.**  In every reachable state somebody can act, a worker, the caller of `run`
or the network, until every worker has exited or is in a `processConnection` that never
returns, and the call of `run` is over or waits for one of those.
-/
theorem stuck_iff_ended (thread : BitVec 32) (garbage : Bool) (actions : List Action)
    (s : RunState) (h : (initial garbage).exec thread actions = some s) :
    ¬s.Moves thread ↔ s.Ended := by
  constructor
  · intro hstuck
    have hdone : ∀ p ∈ s.threads, WorkerDone p := by
      intro p hp
      by_contra hne
      exact hstuck (worker_moves (exec_accepting h) hp hne)
    by_contra hended
    exact hstuck (run_moves (exec_accepting h) hdone hended)
  · exact Ended.not_moves

/-- One worker in `accept`, one waiting for the mutex, and the caller of `run` for the first. -/
def accepting : RunState :=
  { running := true, mtx := true, run := .joining 0, threads := [.accepting, .waiting] }

/-- The actions of two workers that come there. -/
def toAccepting : List Action :=
  [.listen true, .create true, .create true, .leaveLoop, .start 0, .start 1, .test 0, .test 1,
    .lock 0]

theorem stuck_iff_ended_example : ¬accepting.Moves 2 ↔ accepting.Ended :=
  stuck_iff_ended 2 false toAccepting accepting (by decide)

/-! ### On the way out -/

/-- The flag is down, and stays so, as every thread has been created and has begun. -/
structure GoingDown (thread : BitVec 32) (s : RunState) : Prop where
  flag : s.running = false
  started : s.AllStarted thread
  orderly : s.Orderly thread

theorem GoingDown.step (h : s.GoingDown thread) (hstep : s.step thread a = some s') :
    s'.GoingDown thread := by
  refine ⟨?_, h.started.step hstep, h.orderly.step hstep⟩
  rw [step_running hstep, h.flag]
  cases a with
  | start i => exact absurd (created_of_start hstep) h.started.started
  | _ => rfl

/-- The workers that are past their test of the flag, and not yet back from `accept`. -/
def pending (s : RunState) : Nat := s.threads.countP WorkerPosition.pending

/-- A worker comes back from `accept`, and no other comes to wait there. -/
theorem GoingDown.accepts (h : s.GoingDown thread) (hstep : s.step thread a = some s') :
    s'.pending + a.accepts.toNat = s.pending := by
  obtain ⟨i, p, q, hmove, hp, hthreads, -⟩ | ⟨-, hcreating, hwanted, -⟩
    | ⟨hmoves, hthreads⟩ := step_places hstep
  · rw [h.flag] at hmove
    have hcount := countP_set_add WorkerPosition.pending hp q
    have heq := Action.move_pending hmove
    rw [pending, pending, hthreads]
    omega
  · exact absurd hwanted (h.started.created (Or.inr hcreating))
  · have hnone : a.accepts = false := by
      generalize s'.run = r at hmoves
      cases hmoves <;> rfl
    rw [pending, pending, hthreads, hnone]
    rfl

theorem Ended.pending (h : s.Ended) : s.pending = 0 := by
  rw [RunState.pending, List.countP_eq_zero]
  intro p hp
  rcases h.workers p hp with rfl | rfl <;> exact Bool.false_ne_true

/-- When all threads are there, nothing but a return ends the call. -/
theorem GoingDown.run (h : s.GoingDown thread) (hstep : s.step thread a = some s')
    (hrun : s.run ≠ .listening ∧ s.run ≠ .threw) : s'.run ≠ .listening ∧ s'.run ≠ .threw := by
  obtain ⟨-, -, -, -, -, -, hsame⟩ | ⟨-, -, -, -, hcreating⟩ | ⟨hmoves, -⟩ := step_places hstep
  · rwa [hsame]
  · simp [hcreating]
  · generalize s'.run = r at hmoves
    cases hmoves with
    | unbound hlistening => exact absurd hlistening hrun.1
    | refused hcreating hwanted =>
        exact absurd hwanted (h.started.created (Or.inr hcreating))
    | stopped => exact hrun
    | _ => simp

/-- The flag is set once a worker has begun. -/
def Running (s : RunState) : Prop := s.running = true ∨ ∀ p ∈ s.threads, p = .created

/-- An action of a worker is then one with the flag set. -/
theorem Running.move {i : Nat} {p q : WorkerPosition} (h : s.Running)
    (hmove : a.move s.running = some (i, p, q)) (hp : s.threads[i]? = some p) :
    a.move true = some (i, p, q) := by
  obtain hrunning | hcreated := h
  · rwa [hrunning] at hmove
  · obtain rfl := hcreated p (List.mem_of_getElem? hp)
    obtain rfl := Action.move_created hmove
    exact hmove

theorem Running.step (h : s.Running) (hstop : a ≠ .stop) (hstep : s.step thread a = some s') :
    s'.Running := by
  rw [Running, step_running hstep]
  obtain hrunning | hcreated := h
  · rw [hrunning]
    cases a with
    | stop => exact absurd rfl hstop
    | _ => exact Or.inl rfl
  · obtain ⟨i, p, q, hmove, hp, -⟩ | ⟨-, -, -, hthreads, -⟩ | ⟨-, hthreads⟩ := step_places hstep
    · obtain rfl := hcreated p (List.mem_of_getElem? hp)
      obtain rfl := Action.move_created hmove
      exact Or.inl rfl
    · right
      intro p hp
      rw [hthreads, List.mem_append, List.mem_singleton] at hp
      exact hp.elim (hcreated p) id
    · right
      rwa [hthreads]

/-- One worker more has exited when an exception ended its loop, and none otherwise. -/
theorem Running.exits (h : s.Running) (hstep : s.step thread a = some s') :
    s'.threads.count .exited = s.threads.count .exited + a.throws.toNat := by
  obtain ⟨i, p, q, hmove, hp, hthreads, -⟩ | ⟨rfl, -, -, hthreads, -⟩ | ⟨hmoves, hthreads⟩ :=
    step_places hstep
  · have hset := h.move hmove hp
    have hcount := countP_set_add (fun r => r == .exited) hp q
    have hfrom : (p == .exited) = false := beq_eq_false_iff_ne.mpr (Action.move_ne_exited hset)
    have hto : (q == .exited) = a.throws := by
      rw [Bool.eq_iff_iff, beq_iff_eq]
      exact Action.move_exited hset
    rw [hfrom, hto, Bool.toNat_false, Nat.add_zero] at hcount
    rw [hthreads]
    exact hcount
  · rw [hthreads, List.count_append]
    rfl
  · have hnone : a.throws = false := by
      generalize s'.run = r at hmoves
      cases hmoves <;> rfl
    rw [hthreads, hnone]
    rfl

/--
**Exceptions use a server up.**  While nobody stops it, the workers that have exited are as
many as the connections that ended by an exception, and `run` returns when there has been
one for every thread.
-/
theorem workers_lost (thread : BitVec 32) (garbage : Bool) (actions : List Action)
    (s : RunState) (hstop : .stop ∉ actions)
    (h : (initial garbage).exec thread actions = some s) :
    s.threads.count .exited = actions.countP Action.throws ∧
      (s.run = .returned → actions.countP Action.throws = thread.toInt.toNat) := by
  have hrun := foldlM_history []
    (fun past t => .stop ∉ past →
      t.Running ∧ t.threads.count .exited = past.countP Action.throws)
    (fun past t a t' hpast ht => ?_)
    (fun _ => ⟨Or.inr fun p hp => absurd hp List.not_mem_nil, rfl⟩) h
  · obtain ⟨-, hcount⟩ := hrun hstop
    refine ⟨hcount, fun hreturned => ?_⟩
    rw [← List.nil_append actions, ← hcount, (returned_spec h hreturned).1, List.count_replicate_self]
  · intro hnone
    rw [List.mem_append, List.mem_singleton, not_or] at hnone
    obtain ⟨hrunning, hcount⟩ := hpast hnone.1
    refine ⟨hrunning.step (fun ha => hnone.2 ha.symm) ht, ?_⟩
    rw [hrunning.exits ht, hcount, List.countP_append, List.countP_singleton]
    cases a.throws <;> rfl

/-- The only connection of the only worker ends by an exception, and `run` returns. -/
def crash : List Action :=
  [.listen true, .create true, .start 0, .test 0, .lock 0, .accept 0 true, .process 0 false,
    .leaveLoop, .join, .report, .leaveLoop]

theorem workers_lost_example : crash.countP Action.throws = (1 : BitVec 32).toInt.toNat :=
  (workers_lost 1 true crash { running := true, run := .returned, threads := [.exited] }
    (by decide) (by decide)).2 rfl

end RunState

end JustEnough
