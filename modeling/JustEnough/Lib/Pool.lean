/-
Any number of threads calling a monitor.

An object guards itself by hand: a call first runs an entry protocol and then a
body, and the body releases the mutex as its very last action.  A pool of threads
interleaves such calls, one atomic action at a time, with every answer the outside
world might give.

The object is a monitor if at most one thread is ever past the entry protocol, a
thread unlocks the mutex only while it owns it, and no thread locks it twice.  The
rule proved here (`monitor_rule`) reduces that to two facts which mention no other
thread.  The entry protocol reads the shared state once, and where its test comes
out as it should, what is left of it is to take the lock.  The body, started alone
from any state in which the monitor invariant `J` holds, never touches the mutex
before a final unlock and restores `J` before it (`Prog.Releases`).

The rule's runs are the ones whose entry tests come out as they should (`gate`).
That hypothesis is what a hand-written protocol can get wrong.
-/
import JustEnough.Lib.Prog

namespace JustEnough

variable {σ Q : Type} {A : Q → Type} {ε α β : Type}

/-! ### Bodies that release the mutex last -/

/--
From shared state `s`, with nobody interfering: the mutex is not touched until one
final unlock, `J` holds at that point, and nothing but a plain return follows it.
An exception on the way is allowed, and leaves the mutex locked.
-/
def Prog.Releases (J : σ → Prop) : Prog σ Q A ε α → σ → Prop
  | .pure _, _ => False
  | .throw _, _ => True
  | .spin, _ => True
  | .read k, s => (k s).Releases J s
  | .write f k, s => k.Releases J (f s)
  | .lock _, _ => False
  | .unlock k, s => J s ∧ ∃ a, k = .pure a
  | .ask _ k, s => ∀ a, (k a).Releases J s

theorem Prog.releases_bind {J : σ → Prop} {p : Prog σ Q A ε α} {f : α → Prog σ Q A ε β} {s : σ}
    (h : p.wp s fun a s' => (f a).Releases J s') : (p >>= f).Releases J s := by
  rw [Prog.bind_eq]
  induction p generalizing s with
  | pure a => exact h
  | throw e => trivial
  | spin => trivial
  | read k ih => exact ih _ h
  | write g k ih => exact ih h
  | lock k _ => exact absurd h id
  | unlock k _ => exact absurd h id
  | ask q k ih => exact fun a => ih a (h a)

theorem Prog.releases_release {J : σ → Prop} {s : σ} (hJ : J s) (a : α) :
    (do Prog.release; return a : Prog σ Q A ε α).Releases J s :=
  ⟨hJ, a, rfl⟩

/-! ### The pool -/

/-- Where a thread is in its current call. -/
inductive Thread (σ Q : Type) (A : Q → Type) (ε α : Type)
  /-- Between two calls. -/
  | idle
  /-- In the entry protocol, with the body still to come. -/
  | entering (p : Prog σ Q A ε Unit) (body : Prog σ Q A ε α)
  /-- Past the entry protocol and not yet returned. -/
  | inside (p : Prog σ Q A ε α)
  /-- Ended by an exception out of a call. -/
  | dead

/-- The shared state, the owner of the mutex, and every thread. -/
structure Pool (T σ Q : Type) (A : Q → Type) (ε α : Type) where
  shared : σ
  owner : Option T
  threads : T → Thread σ Q A ε α

/-- A thread whose body has come to `p`; a return or an exception ends the call at once. -/
def Thread.ofBody : Prog σ Q A ε α → Thread σ Q A ε α
  | .pure _ => .idle
  | .throw _ => .dead
  | p => .inside p

/-- A thread whose entry protocol has come to `p`. -/
def Thread.ofEntry (body : Prog σ Q A ε α) : Prog σ Q A ε Unit → Thread σ Q A ε α
  | .pure _ => .ofBody body
  | .throw _ => .dead
  | p => .entering p body

variable {T : Type} [DecidableEq T]

/-- One atomic action of thread `t`.  Locking waits until the mutex is free. -/
def Prog.act (t : T) (answer : (q : Q) → A q) :
    Prog σ Q A ε α → σ → Option T → Option (Prog σ Q A ε α × σ × Option T)
  | .pure _, _, _ => none
  | .throw _, _, _ => none
  | .spin, _, _ => none
  | .read k, s, o => some (k s, s, o)
  | .write f k, s, o => some (k, f s, o)
  | .lock k, s, none => some (k, s, some t)
  | .lock _, _, some _ => none
  | .unlock k, s, _ => some (k, s, none)
  | .ask q k, s, o => some (k (answer q), s, o)

omit [DecidableEq T] in
/-- One action of a body that has the mutex to release: it still has, or it just did. -/
theorem Prog.Releases.act {J : σ → Prop} {p p' : Prog σ Q A ε α} {s s' : σ} {t : T}
    {answer : (q : Q) → A q} {o : Option T} (h : p.Releases J s)
    (hact : p.act t answer s (some t) = some (p', s', o)) :
    (o = some t ∧ p'.Releases J s') ∨ (o = none ∧ J s' ∧ ∃ a, p' = .pure a) := by
  cases p with
  | pure a => simp [Prog.act] at hact
  | throw e => simp [Prog.act] at hact
  | spin => simp [Prog.act] at hact
  | read k =>
      obtain ⟨rfl, rfl, rfl⟩ : k s = p' ∧ s = s' ∧ some t = o := by simpa [Prog.act] using hact
      exact Or.inl ⟨rfl, h⟩
  | write f k =>
      obtain ⟨rfl, rfl, rfl⟩ : k = p' ∧ f s = s' ∧ some t = o := by simpa [Prog.act] using hact
      exact Or.inl ⟨rfl, h⟩
  | lock k => exact absurd h id
  | unlock k =>
      obtain ⟨rfl, rfl, rfl⟩ : k = p' ∧ s = s' ∧ none = o := by simpa [Prog.act] using hact
      exact Or.inr ⟨rfl, h.1, h.2⟩
  | ask q k =>
      obtain ⟨rfl, rfl, rfl⟩ : k (answer q) = p' ∧ s = s' ∧ some t = o := by
        simpa [Prog.act] using hact
      exact Or.inl ⟨rfl, h _⟩

theorem Thread.ofBody_eq_inside {p q : Prog σ Q A ε α} (h : Thread.ofBody p = .inside q) : p = q := by
  cases p <;> simp_all [Thread.ofBody]

theorem Thread.ofBody_ne_entering (p : Prog σ Q A ε α) (q : Prog σ Q A ε Unit)
    (b : Prog σ Q A ε α) : Thread.ofBody p ≠ .entering q b := by
  cases p <;> simp [Thread.ofBody]

/-- A body that has the mutex to release has not returned. -/
theorem Prog.Releases.thread {J : σ → Prop} {p : Prog σ Q A ε α} {s : σ} (h : p.Releases J s) :
    (∃ q, Thread.ofBody p = .inside q) ∨ Thread.ofBody p = .dead := by
  cases p <;> simp_all [Thread.ofBody, Prog.Releases]

namespace Pool

/-- Thread `t` becomes `th`, the rest of the pool stays. -/
def setThread (s : Pool T σ Q A ε α) (t : T) (th : Thread σ Q A ε α) : Pool T σ Q A ε α :=
  { s with threads := Function.update s.threads t th }

/-- A thread between two calls starts one. -/
def call (entry : Prog σ Q A ε Unit) (body : Prog σ Q A ε α) (t : T) (s : Pool T σ Q A ε α) :
    Option (Pool T σ Q A ε α) :=
  match s.threads t with
  | .idle => some (s.setThread t (.ofEntry body entry))
  | _ => none

/-- A thread in a call takes its next action. -/
def act (t : T) (answer : (q : Q) → A q) (s : Pool T σ Q A ε α) : Option (Pool T σ Q A ε α) :=
  match s.threads t with
  | .entering p body =>
    (p.act t answer s.shared s.owner).map fun (p', sh, o) =>
      { shared := sh, owner := o, threads := Function.update s.threads t (.ofEntry body p') }
  | .inside p =>
    (p.act t answer s.shared s.owner).map fun (p', sh, o) =>
      { shared := sh, owner := o, threads := Function.update s.threads t (.ofBody p') }
  | _ => none

/-- Thread `t` stands at the beginning of the entry protocol. -/
def AtEntry (entry : Prog σ Q A ε Unit) (s : Pool T σ Q A ε α) (t : T) : Prop :=
  ∃ body, s.threads t = .entering entry body

/--
The pools reached from `s₀` when every thread makes calls with the given bodies, any
number of them, and a thread acts at the beginning of the entry protocol only in a
shared state with `gate`.
-/
inductive Run {Job : Type} (entry : Prog σ Q A ε Unit) (body : Job → Prog σ Q A ε α)
    (gate : σ → Prop) (s₀ : Pool T σ Q A ε α) : Pool T σ Q A ε α → Prop
  | refl : Run entry body gate s₀ s₀
  | call {s s' : Pool T σ Q A ε α} (h : Run entry body gate s₀ s) (t : T) (job : Job)
      (hcall : s.call entry (body job) t = some s') : Run entry body gate s₀ s'
  | act {s s' : Pool T σ Q A ε α} (h : Run entry body gate s₀ s) (t : T)
      (answer : (q : Q) → A q) (hgate : s.AtEntry entry t → gate s.shared)
      (hact : s.act t answer = some s') : Run entry body gate s₀ s'

/-! A schedule says which thread does what; executing it is a run. -/

inductive Event (T Job Q : Type) (A : Q → Type)
  | call (t : T) (job : Job)
  | act (t : T) (answer : (q : Q) → A q)

/-- Execute a schedule, as far as every event in it is possible. -/
def exec {Job : Type} (entry : Prog σ Q A ε Unit) (body : Job → Prog σ Q A ε α) :
    List (Event T Job Q A) → Pool T σ Q A ε α → Option (Pool T σ Q A ε α)
  | [], s => some s
  | .call t job :: events, s => (s.call entry (body job) t).bind (exec entry body events)
  | .act t answer :: events, s => (s.act t answer).bind (exec entry body events)

theorem Run.exec {Job : Type} {entry : Prog σ Q A ε Unit} {body : Job → Prog σ Q A ε α}
    {s₀ s s' : Pool T σ Q A ε α} (h : Run entry body (fun _ => True) s₀ s)
    (events : List (Event T Job Q A)) (hexec : Pool.exec entry body events s = some s') :
    Run entry body (fun _ => True) s₀ s' := by
  induction events generalizing s with
  | nil =>
      obtain rfl := Option.some.inj hexec
      exact h
  | cons event events ih =>
      cases event with
      | call t job =>
          obtain ⟨u, hu, hexec⟩ := Option.bind_eq_some_iff.mp hexec
          exact ih (.call h t job hu) hexec
      | act t answer =>
          obtain ⟨u, hu, hexec⟩ := Option.bind_eq_some_iff.mp hexec
          exact ih (.act h t answer (fun _ => trivial) hu) hexec

/-- The next action of thread `t` is to lock the mutex. -/
def Locking (s : Pool T σ Q A ε α) (t : T) : Prop :=
  (∃ k body, s.threads t = .entering (.lock k) body) ∨ ∃ k, s.threads t = .inside (.lock k)

/-- The next action of thread `t` is to unlock the mutex. -/
def Unlocking (s : Pool T σ Q A ε α) (t : T) : Prop :=
  (∃ k body, s.threads t = .entering (.unlock k) body) ∨ ∃ k, s.threads t = .inside (.unlock k)

def IsInside (s : Pool T σ Q A ε α) (t : T) : Prop := ∃ p, s.threads t = .inside p

instance (s : Pool T σ Q A ε α) (t : T) : Decidable (s.IsInside t) :=
  match h : s.threads t with
  | .inside p => isTrue ⟨p, h⟩
  | .idle => isFalse (by rintro ⟨p, hp⟩; rw [h] at hp; cases hp)
  | .entering q body => isFalse (by rintro ⟨p, hp⟩; rw [h] at hp; cases hp)
  | .dead => isFalse (by rintro ⟨p, hp⟩; rw [h] at hp; cases hp)

/-- What a monitor promises of every state. -/
structure MutualExclusion (s : Pool T σ Q A ε α) : Prop where
  /-- At most one thread is past the entry protocol and not yet returned. -/
  exclusive : ∀ t u, s.IsInside t → s.IsInside u → t = u
  /-- A thread unlocks the mutex only while it owns it. -/
  unlocksOwn : ∀ t, s.Unlocking t → s.owner = some t
  /-- No thread locks the mutex while it already owns it. -/
  locksOnce : ∀ t, s.Locking t → s.owner ≠ some t

/-! ### The rule -/

/-- What ties the threads to the owner of the mutex. -/
structure Monitored (entry : Prog σ Q A ε Unit) (J : σ → Prop) (s : Pool T σ Q A ε α) : Prop where
  inside : ∀ t p, s.threads t = .inside p → s.owner = some t ∧ p.Releases J s.shared
  entering : ∀ t p body, s.threads t = .entering p body →
    (p = entry ∨ p = .lock (.pure ())) ∧ ∀ sh, J sh → body.Releases J sh
  owner : ∀ t, s.owner = some t → s.IsInside t ∨ s.threads t = .dead
  free : s.owner = none → J s.shared

section Rule

variable {Job : Type} {entry : Prog σ Q A ε Unit} {body : Job → Prog σ Q A ε α}
  {gate J : σ → Prop} {test : σ → Prog σ Q A ε Unit} {s s' : Pool T σ Q A ε α}

omit [DecidableEq T] in
theorem Monitored.mutualExclusion (hentry : entry = .read test) (h : Monitored entry J s) :
    MutualExclusion s where
  exclusive := by
    rintro t u ⟨p, hp⟩ ⟨q, hq⟩
    have := (h.inside t p hp).1.symm.trans (h.inside u q hq).1
    simpa using this
  unlocksOwn := by
    rintro t (⟨k, b, hk⟩ | ⟨k, hk⟩)
    · rcases (h.entering t _ b hk).1 with he | he
      · rw [hentry] at he
        cases he
      · cases he
    · exact (h.inside t _ hk).1
  locksOnce := by
    rintro t (⟨k, b, hk⟩ | ⟨k, hk⟩) hown
    · rcases h.owner t hown with ⟨p, hp⟩ | hd
      · rw [hk] at hp
        cases hp
      · rw [hk] at hd
        cases hd
    · exact (h.inside t _ hk).2

omit [DecidableEq T] in
/-- Only a thread that is inside, or died there, owns the mutex. -/
theorem Monitored.not_owner (h : Monitored entry J s) {t : T} (hinside : ¬s.IsInside t)
    (hdead : s.threads t ≠ .dead) : s.owner ≠ some t := by
  intro hown
  rcases h.owner t hown with hin | hd
  · exact hinside hin
  · exact hdead hd

/-- One thread moves, to `th`; the others keep what they rely on. -/
theorem Monitored.update (h : Monitored entry J s) {t : T} {th : Thread σ Q A ε α} {sh : σ}
    {o : Option T} (hinside : ∀ p, th = .inside p → o = some t ∧ p.Releases J sh)
    (hentering : ∀ p body, th = .entering p body →
      (p = entry ∨ p = .lock (.pure ())) ∧ ∀ sh, J sh → body.Releases J sh)
    (howner : o = some t → (∃ p, th = .inside p) ∨ th = .dead) (hfree : o = none → J sh)
    (hothers : ∀ u, u ≠ t → (o = some u → s.owner = some u) ∧
      ∀ p, s.threads u = .inside p → o = some u ∧ p.Releases J sh) :
    Monitored entry J { shared := sh, owner := o, threads := Function.update s.threads t th } := by
  refine ⟨fun u p hu => ?_, fun u p body hu => ?_, fun u hu => ?_, hfree⟩
  · by_cases htu : u = t
    · subst htu
      exact hinside p (by simpa using hu)
    · simp only [Function.update_of_ne htu] at hu
      exact (hothers u htu).2 p hu
  · by_cases htu : u = t
    · subst htu
      exact hentering p body (by simpa using hu)
    · simp only [Function.update_of_ne htu] at hu
      exact h.entering u p body hu
  · by_cases htu : u = t
    · subst htu
      simpa [IsInside] using howner hu
    · simpa [IsInside, Function.update_of_ne htu] using h.owner u ((hothers u htu).1 hu)

/-- Starting a call changes no other thread and takes no lock. -/
theorem Monitored.call (hentry : entry = .read test)
    (hbody : ∀ job sh, J sh → (body job).Releases J sh) (h : Monitored entry J s) {t : T}
    {job : Job} (hcall : s.call entry (body job) t = some s') : Monitored entry J s' := by
  unfold Pool.call at hcall
  split at hcall
  · rename_i hidle
    obtain rfl := Option.some.inj hcall
    have hth : Thread.ofEntry (body job) entry = .entering entry (body job) := by
      rw [hentry]
      rfl
    have hnot : s.owner ≠ some t := by
      refine h.not_owner ?_ (by simp [hidle])
      rintro ⟨p, hp⟩
      rw [hidle] at hp
      cases hp
    rw [hth]
    refine h.update (fun p hp => by cases hp) (fun p b hp => ?_) (fun ho => absurd ho hnot) h.free
      (fun u _ => ⟨id, h.inside u⟩)
    cases hp
    exact ⟨Or.inl rfl, hbody job⟩
  · cases hcall

/-- Only the thread inside changes anything the others rely on. -/
theorem Monitored.act_inside (h : Monitored entry J s) {t : T} {answer : (q : Q) → A q}
    {p : Prog σ Q A ε α} (hp : s.threads t = .inside p) (hact : s.act t answer = some s') :
    Monitored entry J s' := by
  obtain ⟨hown, hrel⟩ := h.inside t p hp
  simp only [Pool.act, hp, hown, Option.map_eq_some_iff] at hact
  obtain ⟨⟨p', sh, o⟩, hstep, rfl⟩ := hact
  have alone : ∀ u q, u ≠ t → s.threads u ≠ .inside q := by
    intro u q hne hq
    have howners := (h.inside u q hq).1.symm.trans hown
    exact hne (Option.some.inj howners)
  rcases hrel.act hstep with ⟨rfl, hrel'⟩ | ⟨rfl, hJ, a, rfl⟩
  · refine h.update (fun q hq => ?_) (fun q b hq => absurd hq (Thread.ofBody_ne_entering p' q b))
      (fun _ => hrel'.thread) (fun ho => by cases ho) (fun u hne => ⟨fun ho => ?_, fun q hq => ?_⟩)
    · obtain rfl := Thread.ofBody_eq_inside hq
      exact ⟨rfl, hrel'⟩
    · exact absurd (Option.some.inj ho).symm hne
    · exact absurd hq (alone u q hne)
  · -- the body has returned
    refine h.update (fun q hq => by cases hq) (fun q b hq => by cases hq) (fun ho => by cases ho)
      (fun _ => hJ) (fun u hne => ⟨nofun, fun q hq => absurd hq (alone u q hne)⟩)

/-- A thread in the entry protocol writes nothing; it gets in by taking a free lock. -/
theorem Monitored.act_entering (hentry : entry = .read test)
    (hgate : ∀ sh, gate sh → test sh = .lock (.pure ())) (h : Monitored entry J s) {t : T}
    {answer : (q : Q) → A q} {p : Prog σ Q A ε Unit} {b : Prog σ Q A ε α}
    (hp : s.threads t = .entering p b) (hg : s.AtEntry entry t → gate s.shared)
    (hact : s.act t answer = some s') : Monitored entry J s' := by
  obtain ⟨hshape, hb⟩ := h.entering t p b hp
  have hnot : s.owner ≠ some t := by
    refine h.not_owner ?_ (by simp [hp])
    rintro ⟨q, hq⟩
    rw [hp] at hq
    cases hq
  simp only [Pool.act, hp, Option.map_eq_some_iff] at hact
  obtain ⟨⟨p', sh, o⟩, hstep, rfl⟩ := hact
  rcases hshape with rfl | rfl
  · -- the test comes out as it should, so what is left is to take the lock
    have hgs := hg ⟨b, hp⟩
    rw [hentry] at hstep
    simp only [Prog.act, Option.some.injEq, Prod.mk.injEq] at hstep
    obtain ⟨rfl, rfl, rfl⟩ := hstep
    rw [hgate _ hgs]
    refine h.update (fun q hq => by cases hq) (fun q b' hq => ?_) (fun ho => absurd ho hnot) h.free
      (fun u _ => ⟨id, h.inside u⟩)
    cases hq
    exact ⟨Or.inr rfl, hb⟩
  · -- the lock was free, so `J` holds and nobody else is inside
    cases hfree : s.owner with
    | some u =>
        rw [hfree] at hstep
        simp [Prog.act] at hstep
    | none =>
        rw [hfree] at hstep
        simp only [Prog.act, Option.some.injEq, Prod.mk.injEq] at hstep
        obtain ⟨rfl, rfl, rfl⟩ := hstep
        have hrel := hb _ (h.free hfree)
        refine h.update (fun q hq => ?_) (fun q b' hq => absurd hq (Thread.ofBody_ne_entering b q b'))
          (fun _ => hrel.thread) (fun ho => by cases ho) (fun u hne => ⟨fun ho => ?_, fun q hq => ?_⟩)
        · obtain rfl := Thread.ofBody_eq_inside hq
          exact ⟨rfl, hrel⟩
        · exact absurd (Option.some.inj ho).symm hne
        · have howned := (h.inside u q hq).1
          rw [hfree] at howned
          cases howned

/--
**The monitor rule.**  If the entry test, wherever `gate` holds, leaves nothing but
taking the lock, and every body releases the lock with `J` restored, then every pool
reached through gated entry tests has mutual exclusion.
-/
theorem monitor_rule (hentry : entry = .read test)
    (hgate : ∀ sh, gate sh → test sh = .lock (.pure ()))
    (hbody : ∀ job sh, J sh → (body job).Releases J sh)
    {s₀ : Pool T σ Q A ε α} (hidle : ∀ t, s₀.threads t = .idle) (hfree : s₀.owner = none)
    (hJ : J s₀.shared) (h : Run entry body gate s₀ s) : MutualExclusion s := by
  refine Monitored.mutualExclusion (J := J) hentry ?_
  induction h with
  | refl =>
      refine ⟨fun t p hp => ?_, fun t p b hp => ?_, fun t ht => ?_, fun _ => hJ⟩
      · rw [hidle] at hp
        cases hp
      · rw [hidle] at hp
        cases hp
      · rw [hfree] at ht
        cases ht
  | call _ t job hcall ih => exact ih.call hentry hbody hcall
  | @act s s' _ t answer hg hact ih =>
      cases hth : s.threads t with
      | idle => simp [Pool.act, hth] at hact
      | dead => simp [Pool.act, hth] at hact
      | entering p b => exact ih.act_entering hentry hgate hth hg hact
      | inside p => exact ih.act_inside hth hact

end Rule

end Pool

end JustEnough
