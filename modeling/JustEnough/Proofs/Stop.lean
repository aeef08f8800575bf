/-
`stop` is final when every thread has begun, and only then.

The flag is written in two places, and whichever came last decides: `stop` clears it,
and every worker sets it before its first test.  So a worker that begins after the call
of `stop` undoes it, for itself and for all the others (`stopped_iff`).  Whether one can
still begin is seen in the state in which `stop` is called: a thread may still have to
be created, or to run its first statement (`stop_final_iff`).

The test that calls `stop` runs one worker, and calls it from inside the loop.
-/
import JustEnough.Server.RunThread

namespace JustEnough

/-- What an action makes of `running_`. -/
def Action.flag : Action → Bool → Bool
  | .start _, _ => true
  | .stop, _ => false
  | _, running => running

namespace RunState

variable {thread : BitVec 32} {s s' : RunState} {a : Action}

/-! ### One action -/

theorem advance_eq_some_iff {i : Nat} {p q : WorkerPosition} :
    s.advance i p q = some s' ↔
      s.threads[i]? = some p ∧ s' = { s with threads := s.threads.set i q } := by
  unfold advance
  rw [Option.ite_none_right_eq_some, Option.some.injEq, @eq_comm _ s']

/-- What a worker does: it moves on, and is never back at its start. -/
theorem runThread_cases (h : s.runThread a = some s') :
    ∃ i p q, s.threads[i]? = some p ∧ q ≠ .created ∧ s'.run = s.run ∧
      s'.threads = s.threads.set i q ∧ s'.running = a.flag s.running ∧
      (p = .accepting ∧ s'.mtx = false ∧ q ≠ .accepting ∨
        p = .waiting ∧ q = .accepting ∧ s.mtx = false ∧ s'.mtx = true ∨
        p ≠ .accepting ∧ q ≠ .accepting ∧ s'.mtx = s.mtx) := by
  cases a with
  | start i =>
      obtain ⟨s₁, hmove, rfl⟩ := Option.map_eq_some_iff.mp h
      obtain ⟨hp, rfl⟩ := advance_eq_some_iff.mp hmove
      exact ⟨i, _, _, hp, by simp, rfl, rfl, rfl, by simp⟩
  | test i =>
      obtain ⟨hp, rfl⟩ := advance_eq_some_iff.mp h
      refine ⟨i, _, _, hp, ?_, rfl, rfl, rfl, ?_⟩ <;> cases s.running <;> simp
  | lock i =>
      obtain ⟨hfree, hmap⟩ := Option.ite_none_left_eq_some.mp h
      obtain ⟨s₁, hmove, rfl⟩ := Option.map_eq_some_iff.mp hmap
      obtain ⟨hp, rfl⟩ := advance_eq_some_iff.mp hmove
      exact ⟨i, _, _, hp, by simp, rfl, rfl, rfl, by simp [Bool.eq_false_iff.mpr hfree]⟩
  | accept i ok =>
      obtain ⟨s₁, hmove, rfl⟩ := Option.map_eq_some_iff.mp h
      obtain ⟨hp, rfl⟩ := advance_eq_some_iff.mp hmove
      refine ⟨i, _, _, hp, ?_, rfl, rfl, rfl, ?_⟩ <;> cases ok <;> simp
  | process i ok =>
      obtain ⟨hp, rfl⟩ := advance_eq_some_iff.mp h
      refine ⟨i, _, _, hp, ?_, rfl, rfl, rfl, ?_⟩ <;> cases ok <;> simp
  | block i =>
      obtain ⟨hp, rfl⟩ := advance_eq_some_iff.mp h
      exact ⟨i, _, _, hp, by simp, rfl, rfl, rfl, by simp⟩
  | _ => cases h

/-- The caller of `run` has not left its first loop. -/
def Creating (s : RunState) : Prop := s.run = .listening ∨ s.run = .creating

instance (s : RunState) : Decidable s.Creating :=
  inferInstanceAs (Decidable (s.run = .listening ∨ s.run = .creating))

/--
What the others do: the list of threads grows by one, in the first loop of `run`, or it
stays as it is, and then nobody comes back to that loop.
-/
theorem step_cases (h : s.step thread a = some s') :
    s.runThread a = some s' ∨
      s'.running = a.flag s.running ∧ s'.mtx = s.mtx ∧
        (s.Creating ∧ s.Wanted thread ∧ s'.threads = s.threads ++ [.created] ∨
          s'.threads = s.threads ∧ (s'.Creating → s.Creating)) := by
  cases a with
  | listen ok =>
      obtain ⟨hrun, hs⟩ := Option.ite_none_right_eq_some.mp h
      cases hs
      exact Or.inr ⟨rfl, rfl, Or.inr ⟨rfl, fun _ => Or.inl hrun⟩⟩
  | create ok =>
      obtain ⟨⟨hrun, hwanted⟩, hs⟩ := Option.ite_none_right_eq_some.mp h
      cases hs
      cases ok with
      | true => exact Or.inr ⟨rfl, rfl, Or.inl ⟨Or.inr hrun, hwanted, rfl⟩⟩
      | false => exact Or.inr ⟨rfl, rfl, Or.inr ⟨rfl, fun _ => Or.inr hrun⟩⟩
  | leaveLoop =>
      simp only [step] at h
      split at h
      · obtain ⟨-, hs⟩ := Option.ite_none_left_eq_some.mp h
        cases hs
        exact Or.inr ⟨rfl, rfl, Or.inr ⟨rfl, by simp [Creating]⟩⟩
      · obtain ⟨-, hs⟩ := Option.ite_none_left_eq_some.mp h
        cases hs
        exact Or.inr ⟨rfl, rfl, Or.inr ⟨rfl, by simp [Creating]⟩⟩
      · cases h
  | join =>
      simp only [step] at h
      split at h
      · obtain ⟨-, hs⟩ := Option.ite_none_right_eq_some.mp h
        cases hs
        exact Or.inr ⟨rfl, rfl, Or.inr ⟨rfl, by simp [Creating]⟩⟩
      · cases h
  | report =>
      simp only [step] at h
      split at h
      · obtain ⟨-, hs⟩ := Option.ite_none_left_eq_some.mp h
        cases hs
        exact Or.inr ⟨rfl, rfl, Or.inr ⟨rfl, by simp [Creating]⟩⟩
      · cases h
  | stop =>
      cases h
      exact Or.inr ⟨rfl, rfl, Or.inr ⟨rfl, id⟩⟩
  | start i => exact Or.inl h
  | test i => exact Or.inl h
  | lock i => exact Or.inl h
  | accept i ok => exact Or.inl h
  | process i ok => exact Or.inl h
  | block i => exact Or.inl h

theorem step_running (h : s.step thread a = some s') : s'.running = a.flag s.running := by
  obtain hworker | ⟨hflag, -⟩ := step_cases h
  · obtain ⟨i, p, q, -, -, -, -, hflag, -⟩ := runThread_cases hworker
    exact hflag
  · exact hflag

/-! ### Runs -/

theorem exec_cons {actions : List Action} :
    s.exec thread (a :: actions) = (s.step thread a).bind fun s' => s'.exec thread actions := rfl

theorem exec_append {first second : List Action} :
    s.exec thread (first ++ second)
      = (s.exec thread first).bind fun s' => s'.exec thread second := by
  exact List.foldlM_append

/-- What every action keeps, a run keeps. -/
theorem exec_keeps (Inv : RunState → Prop) {actions : List Action}
    (hstep : ∀ s s' a, a ∈ actions → Inv s → s.step thread a = some s' → Inv s')
    (h : s.exec thread actions = some s') (hinv : Inv s) : Inv s' := by
  induction actions generalizing s with
  | nil =>
      cases h
      exact hinv
  | cons a actions ih =>
      rw [exec_cons] at h
      obtain ⟨s₁, hfirst, hrest⟩ := Option.bind_eq_some_iff.mp h
      exact ih (fun s s' a ha => hstep s s' a (List.mem_cons_of_mem _ ha)) hrest
        (hstep s s₁ a List.mem_cons_self hinv hfirst)

/-! ### After the stop -/

/-- The flag is down, and whoever tests it leaves the loop. -/
def Stopped (thread : BitVec 32) (s : RunState) : Prop :=
  s.running = false ∧ ∀ i, s.threads[i]? = some .testing →
    s.step thread (.test i) = some { s with threads := s.threads.set i .exited }

theorem stopped_of_running (h : s.running = false) : s.Stopped thread := by
  refine ⟨h, fun i hi => ?_⟩
  show s.advance i .testing (if s.running then .waiting else .exited) = _
  rw [h, if_neg Bool.false_ne_true, advance_eq_some_iff]
  exact ⟨hi, by rw [h]⟩

/-- While no worker begins, the flag stays down. -/
theorem exec_running {after : List Action} (h : s.exec thread after = some s')
    (hdown : s.running = false) (hstart : ∀ i, .start i ∉ after) : s'.running = false := by
  refine exec_keeps (fun s => s.running = false) ?_ h hdown
  intro s s' a ha hdown hstep
  rw [step_running hstep, hdown]
  cases a with
  | start i => exact absurd ha (hstart i)
  | _ => rfl

/-- **One run**: stopping lasts to its end when no worker begins after it, and only then. -/
theorem stopped_iff {after : List Action} (h : s.exec thread (.stop :: after) = some s') :
    (∀ mid t, mid <+: after → s.exec thread (.stop :: mid) = some t → t.Stopped thread) ↔
      ∀ i, .start i ∉ after := by
  constructor
  · intro hall i hi
    obtain ⟨mid, rest, rfl⟩ := List.append_of_mem hi
    -- the state right after the worker has begun
    have hsplit : .stop :: (mid ++ .start i :: rest)
        = (.stop :: (mid ++ [.start i])) ++ rest := by simp
    rw [hsplit, exec_append] at h
    obtain ⟨t, ht, -⟩ := Option.bind_eq_some_iff.mp h
    have hdown := (hall (mid ++ [.start i]) t ⟨rest, by simp⟩ ht).1
    rw [← List.cons_append, exec_append] at ht
    obtain ⟨u, -, hu⟩ := Option.bind_eq_some_iff.mp ht
    rw [exec_cons] at hu
    obtain ⟨v, hv, hu⟩ := Option.bind_eq_some_iff.mp hu
    cases hu
    rw [step_running hv] at hdown
    cases hdown
  · intro hstart mid t hmid ht
    rw [exec_cons] at ht
    obtain ⟨s₁, hstop, hrest⟩ := Option.bind_eq_some_iff.mp ht
    exact stopped_of_running (exec_running hrest (step_running hstop)
      fun i hi => hstart i (hmid.subset hi))

/-! ### Who can still begin -/

/-- Every thread that will ever be created has been, and has run its first statement. -/
structure AllStarted (thread : BitVec 32) (s : RunState) : Prop where
  created : s.Creating → ¬s.Wanted thread
  started : .created ∉ s.threads

theorem AllStarted.step (h : s.AllStarted thread) (hstep : s.step thread a = some s') :
    s'.AllStarted thread := by
  obtain hworker | ⟨-, -, hcase⟩ := step_cases hstep
  · obtain ⟨i, p, q, -, hq, hrun, hthreads, -⟩ := runThread_cases hworker
    constructor
    · rw [Creating, hrun, Wanted, hthreads, List.length_set]
      exact h.created
    · intro hmem
      rw [hthreads] at hmem
      obtain hmem | rfl := List.mem_or_eq_of_mem_set hmem
      · exact h.started hmem
      · exact hq rfl
  · obtain ⟨hcreating, hwanted, -⟩ | ⟨hthreads, hback⟩ := hcase
    · exact absurd hwanted (h.created hcreating)
    · constructor
      · intro hcreating
        rw [Wanted, hthreads]
        exact h.created (hback hcreating)
      · rw [hthreads]
        exact h.started

/-- A worker that begins was created and had not begun. -/
theorem created_of_start {i : Nat} (h : s.step thread (.start i) = some s') :
    .created ∈ s.threads := by
  obtain ⟨s₁, hmove, -⟩ := Option.map_eq_some_iff.mp h
  exact List.mem_of_getElem? (advance_eq_some_iff.mp hmove).1

theorem AllStarted.no_start {after : List Action} (h : s.AllStarted thread)
    (hrun : s.exec thread after = some s') (i : Nat) : .start i ∉ after := by
  induction after generalizing s with
  | nil => exact List.not_mem_nil
  | cons a after ih =>
      rw [exec_cons] at hrun
      obtain ⟨s₁, hstep, hrest⟩ := Option.bind_eq_some_iff.mp hrun
      rw [List.mem_cons, not_or]
      refine ⟨?_, ih (h.step hstep) hrest⟩
      rintro rfl
      exact h.started (created_of_start hstep)

/-- A thread that is created can begin at once. -/
theorem exec_create (hrun : s.run = .creating) (hwanted : s.Wanted thread) :
    ∃ s', s.exec thread [.create true, .start s.threads.length] = some s' := by
  have hcreate : s.step thread (.create true)
      = some { s with threads := s.threads ++ [.created] } := if_pos ⟨hrun, hwanted⟩
  rw [exec_cons, hcreate, Option.bind_some, exec_cons]
  simp [step, runThread, advance, exec]

/-- Where not every thread has begun, one can. -/
theorem exists_start (h : ¬s.AllStarted thread) :
    ∃ after i s', .stop ∉ after ∧ .start i ∈ after ∧ s.exec thread after = some s' := by
  by_cases hcreated : s.Creating ∧ s.Wanted thread
  · obtain ⟨hrun | hrun, hwanted⟩ := hcreated
    · have hlisten : s.step thread (.listen true) = some { s with run := .creating } := if_pos hrun
      obtain ⟨s', hs'⟩ := exec_create (s := { s with run := .creating }) rfl hwanted
      refine ⟨.listen true :: [.create true, .start s.threads.length], s.threads.length, s',
        by simp, by simp, ?_⟩
      rw [exec_cons, hlisten]
      exact hs'
    · obtain ⟨s', hs'⟩ := exec_create hrun hwanted
      exact ⟨_, s.threads.length, s', by simp, by simp, hs'⟩
  · have hstarted : .created ∈ s.threads := by
      by_contra hnone
      exact h ⟨not_and.mp hcreated, hnone⟩
    obtain ⟨i, hi⟩ := List.mem_iff_getElem?.mp hstarted
    refine ⟨[.start i], i, { s with threads := s.threads.set i .testing, running := true },
      by simp, by simp, ?_⟩
    show (s.advance i .created .testing).map _ >>= _ = _
    rw [advance_eq_some_iff.mpr ⟨hi, rfl⟩]
    rfl

/--
**When stopping is final.**  In a run it is when no worker begins after the call, and it
is in every run from a state on when that state leaves no worker to begin.
-/
theorem stop_final_iff (thread : BitVec 32) (garbage : Bool) (before : List Action) (s : RunState) :
    .stop ∉ before → (initial garbage).exec thread before = some s →
      (∀ after s', .stop ∉ after → s.exec thread (.stop :: after) = some s' →
        ((∀ mid t, mid <+: after → s.exec thread (.stop :: mid) = some t → t.Stopped thread) ↔
          ∀ i, .start i ∉ after)) ∧
      ((∀ after s', .stop ∉ after → s.exec thread (.stop :: after) = some s' →
        s'.Stopped thread) ↔ s.AllStarted thread) := by
  intro _ _
  refine ⟨fun after s' _ h => stopped_iff h, ?_, ?_⟩
  · intro hall
    by_contra hnone
    -- stopping does not change who has begun
    have hnone' : ¬AllStarted thread { s with running := false } :=
      fun h => hnone ⟨h.created, h.started⟩
    obtain ⟨after, i, s', hstop, hstart, hrun⟩ := exists_start hnone'
    refine (stopped_iff (s := s) hrun).mp ?_ i hstart
    intro mid t hmid ht
    exact hall mid t (fun hmem => hstop (hmid.subset hmem)) ht
  · intro hstarted after s' _ h
    rw [exec_cons] at h
    obtain ⟨s₁, hstop, hrest⟩ := Option.bind_eq_some_iff.mp h
    exact stopped_of_running (exec_running hrest (step_running hstop)
      ((hstarted.step hstop).no_start hrest))

/-- The only worker has begun, and is about to test the flag. -/
def begun : RunState := { running := true, run := .creating, threads := [.testing] }

theorem stop_final_example :
    ((∀ mid t, mid <+: [.test 0] → begun.exec 1 (.stop :: mid) = some t → t.Stopped 1) ↔
        ∀ i, .start i ∉ [Action.test 0]) ∧
      ∀ after s', .stop ∉ after → begun.exec 1 (.stop :: after) = some s' → s'.Stopped 1 := by
  have h := stop_final_iff 1 false [.listen true, .create true, .start 0] begun
    (by decide) (by decide)
  exact ⟨h.1 [.test 0] _ (by decide) rfl, h.2.mpr ⟨by decide, by decide⟩⟩

/-- The second of two workers begins after the call, and goes on to accept connections. -/
theorem stop_undone :
    ¬∀ (thread : BitVec 32) (garbage : Bool) (before after : List Action) (s s' : RunState),
      .stop ∉ before → .stop ∉ after → (initial garbage).exec thread before = some s →
        s.exec thread (.stop :: after) = some s' → s'.Stopped thread := by
  intro hall
  have h := hall 2 false [.listen true, .create true, .create true, .start 0] [.start 1, .test 1]
    { running := true, run := .creating, threads := [.testing, .created] }
    { running := true, run := .creating, threads := [.testing, .waiting] }
    (by decide) (by decide) (by decide) (by decide)
  exact Bool.noConfusion h.1

/-! ### Accepting one at a time -/

/-- The mutex is held exactly while one worker is in `accept`; there are never two. -/
theorem exec_accepting {garbage : Bool} {actions : List Action}
    (h : (initial garbage).exec thread actions = some s) :
    s.threads.count .accepting = s.mtx.toNat := by
  refine exec_keeps (fun s => s.threads.count .accepting = s.mtx.toNat) ?_ h rfl
  intro s s' a _ hcount hstep
  obtain hworker | ⟨-, hmtx, hcase⟩ := step_cases hstep
  · obtain ⟨i, p, q, hp, -, -, hthreads, -, hmtx⟩ := runThread_cases hworker
    obtain ⟨hi, hpi⟩ := List.getElem?_eq_some_iff.mp hp
    rw [hthreads, List.count_set hi, hpi, hcount]
    obtain ⟨rfl, hfree, hq⟩ | ⟨rfl, rfl, hfree, hheld⟩ | ⟨hp', hq, hsame⟩ := hmtx
    · have hheld : 0 < s.threads.count .accepting :=
        List.count_pos_iff.mpr (List.mem_of_getElem? hp)
      rw [hcount] at hheld
      cases hmtx' : s.mtx with
      | false => simp [hmtx'] at hheld
      | true => simp [hfree, hq]
    · simp [hfree, hheld]
    · simp [hsame, hp', hq]
  · rw [hmtx, ← hcount]
    obtain ⟨-, -, hthreads⟩ | ⟨hthreads, -⟩ := hcase
    · simp [hthreads]
    · rw [hthreads]

end RunState

end JustEnough
