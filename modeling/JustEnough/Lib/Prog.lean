/-
Programs over shared fields and one mutex.

A member function of a long-lived object reads and writes the object's fields,
takes and releases its mutex, and talks to the outside world.  `Prog` is the tree
of those actions: every constructor but the three leaves is one atomic step, and
what comes next may depend on what the step returned.  Local computation costs
nothing, since no other thread can see it.

The same tree is run in two ways.  `run` executes it alone, from beginning to end,
against an environment that answers its questions; `Lib/Pool.lean` interleaves the
trees of any number of threads.  Having one program text for both is the point: a
fact about a single call and a fact about all interleavings are facts about the
same definition.

A loop or a recursion of the source is unrolled to a depth given as a `Nat`, and a
tree cut off at that depth ends in `spin`, "still running".  `Unrolls` says that a
deeper unrolling changes nothing else, so whatever a run ends with at one depth it
ends with at every greater one.
-/
import Mathlib

namespace JustEnough

/-- A program over shared state `σ` that asks questions `q : Q` answered in `A q`. -/
inductive Prog (σ Q : Type) (A : Q → Type) (ε α : Type) : Type
  | pure (a : α)
  | throw (e : ε)
  /-- The unrolling stops here; the program would go on. -/
  | spin
  | read (k : σ → Prog σ Q A ε α)
  | write (f : σ → σ) (k : Prog σ Q A ε α)
  | lock (k : Prog σ Q A ε α)
  | unlock (k : Prog σ Q A ε α)
  | ask (q : Q) (k : A q → Prog σ Q A ε α)

/-- How a call ended, if it did. -/
inductive Outcome (ε α : Type)
  | returned (a : α)
  | threw (e : ε)
  | running
  /-- The thread waits for a mutex it holds itself. -/
  | stuck
  deriving DecidableEq, Repr

def Outcome.ofExcept {ε α : Type} : Except ε α → Outcome ε α
  | .ok a => .returned a
  | .error e => .threw e

namespace Prog

variable {σ Q : Type} {A : Q → Type} {ε α β γ : Type}

/-! ### Sequencing -/

protected def bind : Prog σ Q A ε α → (α → Prog σ Q A ε β) → Prog σ Q A ε β
  | .pure a, f => f a
  | .throw e, _ => .throw e
  | .spin, _ => .spin
  | .read k, f => .read fun s => (k s).bind f
  | .write g k, f => .write g (k.bind f)
  | .lock k, f => .lock (k.bind f)
  | .unlock k, f => .unlock (k.bind f)
  | .ask q k, f => .ask q fun a => (k a).bind f

instance : Monad (Prog σ Q A ε) where
  pure := Prog.pure
  bind := Prog.bind

theorem bind_eq (p : Prog σ Q A ε α) (f : α → Prog σ Q A ε β) : p >>= f = p.bind f := rfl

private theorem bind_pure (p : Prog σ Q A ε α) : p.bind .pure = p := by
  induction p <;> simp_all [Prog.bind]

private theorem bind_assoc' (p : Prog σ Q A ε α) (f : α → Prog σ Q A ε β)
    (g : β → Prog σ Q A ε γ) : (p.bind f).bind g = p.bind fun a => (f a).bind g := by
  induction p <;> simp_all [Prog.bind]

instance : LawfulMonad (Prog σ Q A ε) :=
  LawfulMonad.mk' _ bind_pure (fun _ _ => rfl) bind_assoc'

/-- Read one field. -/
def get (field : σ → α) : Prog σ Q A ε α := .read fun s => .pure (field s)

/-- Write one field. -/
def modify (f : σ → σ) : Prog σ Q A ε Unit := .write f (.pure ())

def release : Prog σ Q A ε Unit := .unlock (.pure ())

def query (q : Q) : Prog σ Q A ε (A q) := .ask q .pure

/-- A library call that may throw. -/
def ofExcept : Except ε α → Prog σ Q A ε α
  | .ok a => .pure a
  | .error e => .throw e

@[simp] theorem ofExcept_ok_bind (a : α) (f : α → Prog σ Q A ε β) :
    ofExcept (.ok a) >>= f = f a := rfl

/-! ### One thread, alone -/

/-- What a call sees and leaves behind. -/
structure Mem (σ ω Q : Type) where
  shared : σ
  held : Bool
  env : ω
  /-- Every question asked so far, in order. -/
  asked : List Q
  deriving DecidableEq

variable {ω : Type}

/--
Run a program alone.  The environment is a state machine; where it has no answer
the call waits for ever, and so does one that locks a mutex already locked.
-/
def run (answer : (q : Q) → ω → Option (A q × ω)) :
    Prog σ Q A ε α → Mem σ ω Q → Outcome ε α × Mem σ ω Q
  | .pure a, m => (.returned a, m)
  | .throw e, m => (.threw e, m)
  | .spin, m => (.running, m)
  | .read k, m => (k m.shared).run answer m
  | .write f k, m => k.run answer { m with shared := f m.shared }
  | .lock k, m => if m.held then (.stuck, m) else k.run answer { m with held := true }
  | .unlock k, m => k.run answer { m with held := false }
  | .ask q k, m =>
    match answer q m.env with
    | none => (.running, { m with asked := m.asked ++ [q] })
    | some (a, w) => (k a).run answer { m with env := w, asked := m.asked ++ [q] }

variable (answer : (q : Q) → ω → Option (A q × ω))

@[simp] theorem run_pure (a : α) (m : Mem σ ω Q) :
    (Pure.pure a : Prog σ Q A ε α).run answer m = (.returned a, m) := rfl

@[simp] theorem run_get (field : σ → α) (m : Mem σ ω Q) :
    (get field : Prog σ Q A ε α).run answer m = (.returned (field m.shared), m) := rfl

@[simp] theorem run_modify (f : σ → σ) (m : Mem σ ω Q) :
    (modify f : Prog σ Q A ε Unit).run answer m
      = (.returned (), { m with shared := f m.shared }) := rfl

@[simp] theorem run_release (m : Mem σ ω Q) :
    (release : Prog σ Q A ε Unit).run answer m = (.returned (), { m with held := false }) := rfl

theorem run_query (q : Q) (m : Mem σ ω Q) :
    (query q : Prog σ Q A ε (A q)).run answer m =
      match answer q m.env with
      | none => (.running, { m with asked := m.asked ++ [q] })
      | some (a, w) => (.returned a, { m with env := w, asked := m.asked ++ [q] }) := by
  unfold query run
  cases answer q m.env <;> rfl

@[simp] theorem run_ok (a : α) (m : Mem σ ω Q) :
    (ofExcept (.ok a) : Prog σ Q A ε α).run answer m = (.returned a, m) := rfl

@[simp] theorem run_error (e : ε) (m : Mem σ ω Q) :
    (ofExcept (.error e) : Prog σ Q A ε α).run answer m = (.threw e, m) := rfl

/-- The outcome of a sequence, once the outcome of its first half is known. -/
def andThen (r : Outcome ε α × Mem σ ω Q) (next : α → Mem σ ω Q → Outcome ε β × Mem σ ω Q) :
    Outcome ε β × Mem σ ω Q :=
  match r with
  | (.returned a, m) => next a m
  | (.threw e, m) => (.threw e, m)
  | (.running, m) => (.running, m)
  | (.stuck, m) => (.stuck, m)

@[simp] theorem andThen_returned (a : α) (m : Mem σ ω Q)
    (next : α → Mem σ ω Q → Outcome ε β × Mem σ ω Q) :
    andThen (.returned a, m) next = next a m := rfl

@[simp] theorem andThen_threw (e : ε) (m : Mem σ ω Q)
    (next : α → Mem σ ω Q → Outcome ε β × Mem σ ω Q) :
    andThen (.threw e, m) next = (.threw e, m) := rfl

@[simp] theorem andThen_running (m : Mem σ ω Q)
    (next : α → Mem σ ω Q → Outcome ε β × Mem σ ω Q) :
    andThen (.running, m) next = (.running, m) := rfl

/-- **Running a sequence is running its parts in turn.** -/
theorem run_bind (p : Prog σ Q A ε α) (f : α → Prog σ Q A ε β) (m : Mem σ ω Q) :
    (p >>= f).run answer m = andThen (p.run answer m) fun a m' => (f a).run answer m' := by
  rw [bind_eq]
  induction p generalizing m with
  | pure a => rfl
  | throw e => rfl
  | spin => rfl
  | read k ih => exact ih _ m
  | write g k ih => exact ih _
  | lock k ih =>
      simp only [Prog.bind, run]
      split
      · rfl
      · exact ih _
  | unlock k ih => exact ih _
  | ask q k ih =>
      simp only [Prog.bind, run]
      split
      · rfl
      · exact ih _ _

@[simp] theorem run_map (f : α → β) (p : Prog σ Q A ε α) (m : Mem σ ω Q) :
    (f <$> p).run answer m
      = andThen (p.run answer m) fun a m' => (.returned (f a), m') := by
  rw [← bind_pure_comp, run_bind]
  rfl

/-! ### Programs that keep to themselves -/

/--
Wherever it starts, `p` asks nothing, leaves the mutex alone, ends with `o`, and changes
the shared state by `f`.
-/
def Local (p : Prog σ Q A ε α) (o : Outcome ε α) (f : σ → σ) : Prop :=
  ∀ {ω : Type} (answer : (q : Q) → ω → Option (A q × ω)) (m : Mem σ ω Q),
    p.run answer m = (o, { m with shared := f m.shared })

theorem Local.pure (a : α) : Local (Pure.pure a : Prog σ Q A ε α) (.returned a) id :=
  fun _ _ => rfl

theorem Local.spin : Local (.spin : Prog σ Q A ε α) .running id := fun _ _ => rfl

theorem Local.ofExcept (x : Except ε α) :
    Local (ofExcept x : Prog σ Q A ε α) (Outcome.ofExcept x) id := by
  intro ω answer m
  cases x <;> rfl

theorem Local.bind {p : Prog σ Q A ε α} {k : α → Prog σ Q A ε β} {a : α} {o : Outcome ε β}
    {f g : σ → σ} (hp : Local p (.returned a) f) (hk : Local (k a) o g) :
    Local (p >>= k) o (g ∘ f) := by
  intro ω answer m
  rw [run_bind, hp answer m, andThen_returned, hk answer]
  rfl

theorem Local.bind_threw {p : Prog σ Q A ε α} (k : α → Prog σ Q A ε β) {e : ε} {f : σ → σ}
    (hp : Local p (.threw e) f) : Local (p >>= k) (.threw e) f := by
  intro ω answer m
  rw [run_bind, hp answer m, andThen_threw]

/-- A library call either throws or hands its value on. -/
theorem Local.ofExcept_bind {x : Except ε α} {k : α → Prog σ Q A ε β} {P : Outcome ε β → (σ → σ) → Prop}
    (herror : ∀ e, x = .error e → P (.threw e) id)
    (hok : ∀ a, x = .ok a → ∃ o f, Local (k a) o f ∧ P o f) :
    ∃ o f, Local (Prog.ofExcept x >>= k) o f ∧ P o f := by
  cases x with
  | error e => exact ⟨_, _, Local.bind_threw k (Local.ofExcept (.error e)), herror e rfl⟩
  | ok a =>
      obtain ⟨o, f, hlocal, hP⟩ := hok a rfl
      exact ⟨o, f, Local.bind (Local.ofExcept (.ok a)) hlocal, hP⟩

/-! ### Unrolling deeper -/

/-- `q` is `p` with some of its `spin` leaves unrolled further. -/
inductive Unrolls : Prog σ Q A ε α → Prog σ Q A ε α → Prop
  | spin (q : Prog σ Q A ε α) : Unrolls .spin q
  | pure (a : α) : Unrolls (.pure a) (.pure a)
  | throw (e : ε) : Unrolls (.throw e) (.throw e)
  | read {k k' : σ → Prog σ Q A ε α} (h : ∀ s, Unrolls (k s) (k' s)) :
      Unrolls (.read k) (.read k')
  | write (f : σ → σ) {k k' : Prog σ Q A ε α} (h : Unrolls k k') :
      Unrolls (.write f k) (.write f k')
  | lock {k k' : Prog σ Q A ε α} (h : Unrolls k k') : Unrolls (.lock k) (.lock k')
  | unlock {k k' : Prog σ Q A ε α} (h : Unrolls k k') : Unrolls (.unlock k) (.unlock k')
  | ask (q : Q) {k k' : A q → Prog σ Q A ε α} (h : ∀ a, Unrolls (k a) (k' a)) :
      Unrolls (.ask q k) (.ask q k')

theorem Unrolls.refl (p : Prog σ Q A ε α) : Unrolls p p := by
  induction p with
  | pure a => exact .pure a
  | throw e => exact .throw e
  | spin => exact .spin _
  | read k ih => exact .read ih
  | write f k ih => exact .write f ih
  | lock k ih => exact .lock ih
  | unlock k ih => exact .unlock ih
  | ask q k ih => exact .ask q ih

theorem Unrolls.bind {p p' : Prog σ Q A ε α} {f f' : α → Prog σ Q A ε β}
    (h : Unrolls p p') (hf : ∀ a, Unrolls (f a) (f' a)) :
    Unrolls (p >>= f) (p' >>= f') := by
  rw [bind_eq, bind_eq]
  induction h with
  | spin q => exact .spin _
  | pure a => exact hf a
  | throw e => exact .throw e
  | read _ ih => exact .read ih
  | write g _ ih => exact .write g ih
  | lock _ ih => exact .lock ih
  | unlock _ ih => exact .unlock ih
  | ask q _ ih => exact .ask q ih

/-- **A run that ended is the run of every deeper unrolling.** -/
theorem Unrolls.run_eq {p q : Prog σ Q A ε α} (h : Unrolls p q) (m : Mem σ ω Q)
    (hend : (p.run answer m).1 ≠ .running) : q.run answer m = p.run answer m := by
  induction h generalizing m with
  | spin q => exact absurd rfl hend
  | pure a => rfl
  | throw e => rfl
  | read _ ih => exact ih _ m hend
  | write f _ ih => exact ih _ hend
  | lock _ ih =>
      simp only [run] at hend ⊢
      split
      · rfl
      · rename_i hheld
        rw [if_neg hheld] at hend
        exact ih _ hend
  | unlock _ ih => exact ih _ hend
  | ask q _ ih =>
      simp only [run] at hend ⊢
      split
      · rfl
      · rename_i hsome
        rw [hsome] at hend
        exact ih _ _ hend

/-! ### Straight-line reasoning

`wp p s Φ` says that `p`, running from shared state `s` with nobody interfering,
never touches the mutex and, if it comes to a value, comes to one with `Φ`.  It
ranges over every answer the environment may give.
-/

/-- Weakest precondition of the part of a program that leaves the mutex alone. -/
def wp : Prog σ Q A ε α → σ → (α → σ → Prop) → Prop
  | .pure a, s, Φ => Φ a s
  | .throw _, _, _ => True
  | .spin, _, _ => True
  | .read k, s, Φ => (k s).wp s Φ
  | .write f k, s, Φ => k.wp (f s) Φ
  | .lock _, _, _ => False
  | .unlock _, _, _ => False
  | .ask _ k, s, Φ => ∀ a, (k a).wp s Φ

theorem wp_mono {p : Prog σ Q A ε α} {s : σ} {Φ Ψ : α → σ → Prop} (h : p.wp s Φ)
    (hΦ : ∀ a s', Φ a s' → Ψ a s') : p.wp s Ψ := by
  induction p generalizing s with
  | pure a => exact hΦ a s h
  | throw e => trivial
  | spin => trivial
  | read k ih => exact ih _ h
  | write f k ih => exact ih h
  | lock k _ => exact h
  | unlock k _ => exact h
  | ask q k ih => exact fun a => ih a (h a)

theorem wp_bind {p : Prog σ Q A ε α} {f : α → Prog σ Q A ε β} {s : σ} {Φ : β → σ → Prop}
    (h : p.wp s fun a s' => (f a).wp s' Φ) : (p >>= f).wp s Φ := by
  rw [bind_eq]
  induction p generalizing s with
  | pure a => exact h
  | throw e => trivial
  | spin => trivial
  | read k ih => exact ih _ h
  | write g k ih => exact ih h
  | lock k _ => exact h
  | unlock k _ => exact h
  | ask q k ih => exact fun a => ih a (h a)

theorem wp_ofExcept {x : Except ε α} {s : σ} {Φ : α → σ → Prop}
    (h : ∀ a, x = .ok a → Φ a s) : (ofExcept x : Prog σ Q A ε α).wp s Φ := by
  cases x with
  | ok a => exact h a rfl
  | error e => trivial

/-- What holds whatever the answers, holds of a run alone. -/
theorem wp_run {p : Prog σ Q A ε α} {m m' : Mem σ ω Q} {a : α} {Φ : α → σ → Prop}
    (h : p.wp m.shared Φ) (hrun : p.run answer m = (.returned a, m')) : Φ a m'.shared := by
  induction p generalizing m with
  | pure b =>
      cases hrun
      exact h
  | throw e => cases hrun
  | spin => cases hrun
  | read k ih => exact ih _ h hrun
  | write f k ih => exact @ih { m with shared := f m.shared } h hrun
  | lock k _ => exact absurd h id
  | unlock k _ => exact absurd h id
  | ask q k ih =>
      simp only [run] at hrun
      split at hrun
      · cases hrun
      · rename_i b w _
        exact @ih b { m with env := w, asked := m.asked ++ [q] } (h b) hrun

@[simp] theorem wp_pure (a : α) (s : σ) (Φ : α → σ → Prop) :
    (Pure.pure a : Prog σ Q A ε α).wp s Φ ↔ Φ a s := Iff.rfl

@[simp] theorem wp_get (field : σ → α) (s : σ) (Φ : α → σ → Prop) :
    (get field : Prog σ Q A ε α).wp s Φ ↔ Φ (field s) s := Iff.rfl

@[simp] theorem wp_modify (f : σ → σ) (s : σ) (Φ : Unit → σ → Prop) :
    (modify f : Prog σ Q A ε Unit).wp s Φ ↔ Φ () (f s) := Iff.rfl

@[simp] theorem wp_query (q : Q) (s : σ) (Φ : A q → σ → Prop) :
    (query q : Prog σ Q A ε (A q)).wp s Φ ↔ ∀ a, Φ a s := Iff.rfl

/-- Wherever it starts, `p` never touches the mutex. -/
def LeavesMutex (p : Prog σ Q A ε α) : Prop := ∀ s, p.wp s fun _ _ => True

theorem LeavesMutex.bind {p : Prog σ Q A ε α} {f : α → Prog σ Q A ε β} (hp : LeavesMutex p)
    (hf : ∀ a, LeavesMutex (f a)) : LeavesMutex (p >>= f) :=
  fun s => wp_bind (wp_mono (hp s) fun a s' _ => hf a s')

theorem LeavesMutex.ofExcept (x : Except ε α) : LeavesMutex (ofExcept x : Prog σ Q A ε α) :=
  fun _ => wp_ofExcept fun _ _ => trivial

theorem LeavesMutex.modify (f : σ → σ) : LeavesMutex (modify f : Prog σ Q A ε Unit) :=
  fun _ => trivial

theorem LeavesMutex.get (field : σ → α) : LeavesMutex (get field : Prog σ Q A ε α) :=
  fun _ => trivial

end Prog

end JustEnough
