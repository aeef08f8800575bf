/-
Jobs that share one object.

Any number of workers take jobs from outside and run their programs.  A program has
nothing of its own that others could see; it calls the operations of one object, and
every call is atomic.  So a pool is the object, the programs under way and the jobs that
are finished, and any of the programs may act next.

The rule proved here (`Run.ledger`) is for objects that keep a ledger in which a job may
make an entry.  `Tracks` follows one program, alone, through every answer it may get, and
notes what it has entered.  If at its end that agrees with how it ended, then once
nothing is under way the ledger is that of the finished jobs, whatever the order in
which the calls were made.  For a property of the object alone it is enough that every
call a job may make keeps it (`Run.keeps`), and for a property of what jobs return that
each of them has it whatever the answers (`Run.returns`).
-/
import JustEnough.Lib.Prog

namespace JustEnough

variable {Job Q ω ε α β K : Type} {A : Q → Type}

namespace Prog

/-- One action of a program whose questions are calls of an object. -/
def advance (call : (q : Q) → ω → A q × ω) :
    Prog Unit Q A ε α → ω → Option (Prog Unit Q A ε α × ω)
  | .read k, w => some (k (), w)
  | .write _ k, w => some (k, w)
  | .ask q k, w => some (k (call q w).1, (call q w).2)
  | _, _ => none

/-- How a program has ended, if it has. -/
def result : Prog Unit Q A ε α → Option (Outcome ε α)
  | .pure a => some (.returned a)
  | .throw e => some (.threw e)
  | _ => none

/-! ### What a program has entered -/

/--
Starting with the entry `e`, whatever the answers: every call is one that `note` allows,
which says what has been entered after it, and the program ends with `Φ`.
-/
def Tracks (note : Q → Option K → Option (Option K)) (Φ : Outcome ε α → Option K → Prop) :
    Prog Unit Q A ε α → Option K → Prop
  | .pure a, e => Φ (.returned a) e
  | .throw x, e => Φ (.threw x) e
  | .read k, e => (k ()).Tracks note Φ e
  | .write _ k, e => k.Tracks note Φ e
  | .ask q k, e => ∃ e', note q e = some e' ∧ ∀ a, (k a).Tracks note Φ e'
  | _, _ => False

variable {note : Q → Option K → Option (Option K)} {Φ : Outcome ε α → Option K → Prop}

/-- The end of a sequence, from the end of its first half. -/
def tracksNext (note : Q → Option K → Option (Option K)) (Φ : Outcome ε β → Option K → Prop)
    (f : α → Prog Unit Q A ε β) : Outcome ε α → Option K → Prop
  | .returned a, e => (f a).Tracks note Φ e
  | .threw x, e => Φ (.threw x) e
  | _, _ => False

theorem tracks_bind {Φ : Outcome ε β → Option K → Prop} {p : Prog Unit Q A ε α}
    {f : α → Prog Unit Q A ε β} {e : Option K} (h : p.Tracks note (tracksNext note Φ f) e) :
    (p >>= f).Tracks note Φ e := by
  rw [bind_eq]
  induction p generalizing e with
  | pure a => exact h
  | throw x => exact h
  | spin => exact h
  | read k ih => exact ih _ h
  | write g k ih => exact ih h
  | lock k _ => exact h
  | unlock k _ => exact h
  | ask q k ih =>
      obtain ⟨e', hnote, hall⟩ := h
      exact ⟨e', hnote, fun a => ih a (hall a)⟩

theorem tracks_mono {Ψ : Outcome ε α → Option K → Prop} {p : Prog Unit Q A ε α} {e : Option K}
    (h : p.Tracks note Φ e) (hΦ : ∀ o e, Φ o e → Ψ o e) : p.Tracks note Ψ e := by
  induction p generalizing e with
  | pure a => exact hΦ _ _ h
  | throw x => exact hΦ _ _ h
  | spin => exact h
  | read k ih => exact ih _ h
  | write g k ih => exact ih h
  | lock k _ => exact h
  | unlock k _ => exact h
  | ask q k ih =>
      obtain ⟨e', hnote, hall⟩ := h
      exact ⟨e', hnote, fun a => ih a (hall a)⟩

theorem tracks_pure {a : α} {e : Option K} (h : Φ (.returned a) e) :
    (pure a : Prog Unit Q A ε α).Tracks note Φ e := h

theorem tracks_ofExcept {x : Except ε α} {e : Option K} (h : Φ (.ofExcept x) e) :
    (ofExcept x : Prog Unit Q A ε α).Tracks note Φ e := by
  cases x with
  | ok a => exact h
  | error y => exact h

theorem tracks_query {q : Q} {Φ : Outcome ε (A q) → Option K → Prop} {e e' : Option K}
    (hnote : note q e = some e') (h : ∀ a, Φ (.returned a) e') :
    (query q : Prog Unit Q A ε (A q)).Tracks note Φ e := ⟨e', hnote, h⟩

/-- One action keeps track. -/
theorem Tracks.advance {call : (q : Q) → ω → A q × ω} {p p' : Prog Unit Q A ε α} {e : Option K}
    {w w' : ω} (h : p.Tracks note Φ e) (hact : p.advance call w = some (p', w')) :
    (∃ q e', note q e = some e' ∧ w' = (call q w).2 ∧ p'.Tracks note Φ e') ∨
      w' = w ∧ p'.Tracks note Φ e := by
  cases p with
  | read k =>
      cases hact
      exact Or.inr ⟨rfl, h⟩
  | write f k =>
      cases hact
      exact Or.inr ⟨rfl, h⟩
  | ask q k =>
      obtain ⟨e', hnote, hall⟩ := h
      cases hact
      exact Or.inl ⟨q, e', hnote, rfl, hall _⟩
  | pure a => cases hact
  | throw x => cases hact
  | spin => cases hact
  | lock k => cases hact
  | unlock k => cases hact

/-- And so does the end. -/
theorem Tracks.result {p : Prog Unit Q A ε α} {e : Option K} {o : Outcome ε α}
    (h : p.Tracks note Φ e) (hresult : p.result = some o) : Φ o e := by
  cases p with
  | pure a =>
      cases hresult
      exact h
  | throw x =>
      cases hresult
      exact h
  | _ => cases hresult

/-! ### What a program may call -/

/-- Whatever the answers, every call is one of these. -/
def Calls (allowed : Q → Prop) : Prog Unit Q A ε α → Prop
  | .read k => (k ()).Calls allowed
  | .write _ k => k.Calls allowed
  | .lock k => k.Calls allowed
  | .unlock k => k.Calls allowed
  | .ask q k => allowed q ∧ ∀ a, (k a).Calls allowed
  | _ => True

variable {allowed : Q → Prop}

theorem calls_bind {p : Prog Unit Q A ε α} {f : α → Prog Unit Q A ε β} (hp : p.Calls allowed)
    (hf : ∀ a, (f a).Calls allowed) : (p >>= f).Calls allowed := by
  rw [bind_eq]
  induction p with
  | pure a => exact hf a
  | throw x => trivial
  | spin => trivial
  | read k ih => exact ih _ hp
  | write g k ih => exact ih hp
  | lock k ih => exact ih hp
  | unlock k ih => exact ih hp
  | ask q k ih => exact ⟨hp.1, fun a => ih a (hp.2 a)⟩

theorem calls_query {q : Q} (h : allowed q) : (query q : Prog Unit Q A ε (A q)).Calls allowed :=
  ⟨h, fun _ => trivial⟩

theorem calls_ofExcept (x : Except ε α) : (ofExcept x : Prog Unit Q A ε α).Calls allowed := by
  cases x with
  | ok a => trivial
  | error y => trivial

theorem Calls.mono {allowed' : Q → Prop} {p : Prog Unit Q A ε α} (h : p.Calls allowed)
    (hall : ∀ q, allowed q → allowed' q) : p.Calls allowed' := by
  induction p with
  | pure a => trivial
  | throw x => trivial
  | spin => trivial
  | read k ih => exact ih _ h
  | write g k ih => exact ih h
  | lock k ih => exact ih h
  | unlock k ih => exact ih h
  | ask q k ih => exact ⟨hall q h.1, fun a => ih a (h.2 a)⟩

/-- One action is one of these calls, or does not touch the object. -/
theorem Calls.advance {call : (q : Q) → ω → A q × ω} {p p' : Prog Unit Q A ε α} {w w' : ω}
    (h : p.Calls allowed) (hact : p.advance call w = some (p', w')) :
    p'.Calls allowed ∧ (w' = w ∨ ∃ q, allowed q ∧ w' = (call q w).2) := by
  cases p with
  | read k =>
      cases hact
      exact ⟨h, Or.inl rfl⟩
  | write f k =>
      cases hact
      exact ⟨h, Or.inl rfl⟩
  | ask q k =>
      cases hact
      exact ⟨h.2 _, Or.inr ⟨q, h.1, rfl⟩⟩
  | pure a => cases hact
  | throw x => cases hact
  | spin => cases hact
  | lock k => cases hact
  | unlock k => cases hact

/-! ### What a program comes to -/

/-- One action keeps what the program comes to. -/
theorem wp_advance {call : (q : Q) → ω → A q × ω} {p p' : Prog Unit Q A ε α} {w w' : ω}
    {Φ : α → Unit → Prop} (h : p.wp () Φ) (hact : p.advance call w = some (p', w')) :
    p'.wp () Φ := by
  cases p with
  | read k =>
      cases hact
      exact h
  | write f k =>
      cases hact
      exact h
  | ask q k =>
      cases hact
      exact h _
  | pure a => cases hact
  | throw x => cases hact
  | spin => cases hact
  | lock k => cases hact
  | unlock k => cases hact

theorem wp_result {p : Prog Unit Q A ε α} {a : α} {Φ : α → Unit → Prop} (h : p.wp () Φ)
    (hresult : p.result = some (.returned a)) : Φ a () := by
  cases p with
  | pure b =>
      cases hresult
      exact h
  | _ => cases hresult

end Prog

/-! ### The pool -/

/-- The object, the programs under way, and the jobs that are finished. -/
structure Workers (Job ω Q : Type) (A : Q → Type) (ε α : Type) where
  object : ω
  active : List (Job × Prog Unit Q A ε α)
  finished : List (Job × Outcome ε α)

namespace Workers

/-- The pools reached when any job may begin and any program under way may act next. -/
inductive Run (body : Job → Prog Unit Q A ε α) (call : (q : Q) → ω → A q × ω) (w₀ : ω) :
    Workers Job ω Q A ε α → Prop
  | init : Run body call w₀ { object := w₀, active := [], finished := [] }
  | start {s : Workers Job ω Q A ε α} (h : Run body call w₀ s) (job : Job) :
      Run body call w₀ { s with active := (job, body job) :: s.active }
  | act {w w' : ω} {before after : List (Job × Prog Unit Q A ε α)}
      {finished : List (Job × Outcome ε α)} {job : Job} {p p' : Prog Unit Q A ε α}
      (h : Run body call w₀ { object := w, active := before ++ (job, p) :: after, finished })
      (hact : p.advance call w = some (p', w')) :
      Run body call w₀ { object := w', active := before ++ (job, p') :: after, finished }
  | finish {w : ω} {before after : List (Job × Prog Unit Q A ε α)}
      {finished : List (Job × Outcome ε α)} {job : Job} {p : Prog Unit Q A ε α} {o : Outcome ε α}
      (h : Run body call w₀ { object := w, active := before ++ (job, p) :: after, finished })
      (hresult : p.result = some o) :
      Run body call w₀ { object := w, active := before ++ after, finished := finished ++ [(job, o)] }

section Run

variable {body : Job → Prog Unit Q A ε α} {call : (q : Q) → ω → A q × ω} {w₀ : ω}
  {note : Q → Option K → Option (Option K)} {Φ : Outcome ε α → Option K → Prop}

/-- The answers of the object. -/
def answer (call : (q : Q) → ω → A q × ω) (q : Q) (w : ω) : Option (A q × ω) := some (call q w)

theorem Run.act_first {w w' : ω} {active : List (Job × Prog Unit Q A ε α)}
    {finished : List (Job × Outcome ε α)} {job : Job} {p p' : Prog Unit Q A ε α}
    (h : Run body call w₀ { object := w, active := (job, p) :: active, finished })
    (hact : p.advance call w = some (p', w')) :
    Run body call w₀ { object := w', active := (job, p') :: active, finished } :=
  @Run.act _ _ _ _ _ _ body call w₀ w w' [] active finished job p p' h hact

theorem Run.finish_first {w : ω} {active : List (Job × Prog Unit Q A ε α)}
    {finished : List (Job × Outcome ε α)} {job : Job} {p : Prog Unit Q A ε α} {o : Outcome ε α}
    (h : Run body call w₀ { object := w, active := (job, p) :: active, finished })
    (hresult : p.result = some o) :
    Run body call w₀ { object := w, active, finished := finished ++ [(job, o)] } :=
  @Run.finish _ _ _ _ _ _ body call w₀ w [] active finished job p o h hresult

/-- A program comes to the end it has alone, if the others wait. -/
theorem Run.alone {job : Job} {active : List (Job × Prog Unit Q A ε α)}
    {finished : List (Job × Outcome ε α)} {p : Prog Unit Q A ε α} {e : Option K}
    {m : Prog.Mem Unit ω Q}
    (h : Run body call w₀ { object := m.env, active := (job, p) :: active, finished })
    (htracks : p.Tracks note Φ e) :
    Run body call w₀ {
      object := (p.run (answer call) m).2.env
      active
      finished := finished ++ [(job, (p.run (answer call) m).1)] } := by
  induction p generalizing m e with
  | pure a => exact h.finish_first rfl
  | throw x => exact h.finish_first rfl
  | read k ih => exact ih _ (h.act_first rfl) htracks
  | write f k ih => exact @ih e { m with shared := f m.shared } (h.act_first rfl) htracks
  | ask q k ih =>
      obtain ⟨e', -, hall⟩ := htracks
      exact ih _ (h.act_first rfl) (hall _)
  | spin => exact absurd htracks id
  | lock k ih => exact absurd htracks id
  | unlock k ih => exact absurd htracks id

/-- The jobs that were begun. -/
def jobs (s : Workers Job ω Q A ε α) : List Job :=
  s.active.map Prod.fst ++ s.finished.map Prod.fst

/-- What the calls of each job keep, the pool keeps. -/
theorem Run.keeps {I : ω → Prop} {allowed : Q → Prop} {Fine : Job → Prop}
    (hcall : ∀ q w, allowed q → I w → I (call q w).2)
    (hbody : ∀ job, Fine job → (body job).Calls allowed) (hinit : I w₀)
    {s : Workers Job ω Q A ε α} (hrun : Run body call w₀ s) :
    (∀ job ∈ s.jobs, Fine job) → I s.object ∧ ∀ x ∈ s.active, x.2.Calls allowed := by
  induction hrun with
  | init =>
      intro _
      exact ⟨hinit, by simp⟩
  | @start s _ job ih =>
      intro hfine
      obtain ⟨hobject, hactive⟩ := ih fun job' hjob' => hfine job' (List.mem_cons_of_mem job hjob')
      refine ⟨hobject, ?_⟩
      intro x hx
      rcases List.mem_cons.mp hx with rfl | hx
      · exact hbody job (hfine job List.mem_cons_self)
      · exact hactive x hx
  | @act w w' before after finished job p p' _ hact ih =>
      intro hfine
      obtain ⟨hobject, hactive⟩ := ih (by simpa [jobs] using hfine)
      obtain ⟨hcalls, htouch⟩ := (hactive (job, p) (by simp)).advance hact
      refine ⟨?_, ?_⟩
      · rcases htouch with rfl | ⟨q, hq, rfl⟩
        · exact hobject
        · exact hcall q w hq hobject
      · intro x hx
        rcases List.mem_append.mp hx with hx | hx
        · exact hactive x (by simp [hx])
        · rcases List.mem_cons.mp hx with rfl | hx
          · exact hcalls
          · exact hactive x (by simp [hx])
  | @finish w before after finished job p o _ _ ih =>
      intro hfine
      obtain ⟨hobject, hactive⟩ := ih (by
        intro job' hjob'
        refine hfine job' ?_
        simp only [jobs, List.map_append, List.map_cons, List.mem_append, List.mem_cons] at hjob' ⊢
        tauto)
      refine ⟨hobject, ?_⟩
      intro x hx
      refine hactive x ?_
      simp only [List.mem_append, List.mem_cons] at hx ⊢
      tauto

/-- What every end of a job alone has, its end in a pool has too. -/
theorem Run.returns {Φ : Job → α → Prop}
    (hbody : ∀ job, (body job).wp () fun a _ => Φ job a) {s : Workers Job ω Q A ε α}
    (hrun : Run body call w₀ s) :
    (∀ x ∈ s.active, x.2.wp () fun a _ => Φ x.1 a) ∧
      ∀ job a, (job, Outcome.returned a) ∈ s.finished → Φ job a := by
  induction hrun with
  | init => exact ⟨by simp, by simp⟩
  | @start s _ job ih =>
      refine ⟨?_, ih.2⟩
      intro x hx
      rcases List.mem_cons.mp hx with rfl | hx
      · exact hbody job
      · exact ih.1 x hx
  | @act w w' before after finished job p p' _ hact ih =>
      refine ⟨?_, ih.2⟩
      intro x hx
      rcases List.mem_append.mp hx with hx | hx
      · exact ih.1 x (by simp [hx])
      · rcases List.mem_cons.mp hx with rfl | hx
        · exact Prog.wp_advance (ih.1 (job, p) (by simp)) hact
        · exact ih.1 x (by simp [hx])
  | @finish w before after finished job p o _ hresult ih =>
      refine ⟨fun x hx => ih.1 x (by simp at hx ⊢; tauto), ?_⟩
      intro job' a hmem
      rcases List.mem_append.mp hmem with hmem | hmem
      · exact ih.2 job' a hmem
      · obtain ⟨rfl, rfl⟩ : job' = job ∧ Outcome.returned a = o := by simpa using hmem
        exact Prog.wp_result (ih.1 (job', p) (by simp)) hresult

end Run

/-! ### The ledger -/

/-- The entries of the finished jobs. -/
def finishedEntries (entry : Job → Outcome ε α → Option K) (finished : List (Job × Outcome ε α)) :
    Multiset K := (finished.filterMap fun f => entry f.1 f.2 : List K)

/-- The entries of programs under way; each is listed with what it has entered. -/
def activeEntries (noted : List ((Job × Prog Unit Q A ε α) × Option K)) : Multiset K :=
  (noted.filterMap (·.2) : List K)

/-- One program apart from the others. -/
theorem activeEntries_split (before after : List ((Job × Prog Unit Q A ε α) × Option K))
    (n : (Job × Prog Unit Q A ε α) × Option K) (other : Multiset K) :
    other + activeEntries (before ++ n :: after)
      = other + activeEntries (before ++ after) + n.2.toList := by
  have hfirst : activeEntries (before ++ n :: after)
      = (n.2.toList : Multiset K) + activeEntries (before ++ after) := by
    have hperm := (@List.perm_middle _ n before after).filterMap (·.2)
    rw [activeEntries, Multiset.coe_eq_coe.mpr hperm]
    obtain ⟨job, e⟩ := n
    cases e with
    | none => simp [activeEntries]
    | some k => simp [activeEntries]
  rw [hfirst, ← add_assoc, add_right_comm]

theorem finishedEntries_concat (entry : Job → Outcome ε α → Option K)
    (finished : List (Job × Outcome ε α)) (job : Job) (o : Outcome ε α) :
    finishedEntries entry (finished ++ [(job, o)])
      = finishedEntries entry finished + (entry job o).toList := by
  cases hentry : entry job o with
  | none => simp [finishedEntries, hentry]
  | some k => simp [finishedEntries, hentry, ← Multiset.coe_add]

/-- The object makes the entries that `note` says. -/
def KeepsLedger (call : (q : Q) → ω → A q × ω) (Holds : ω → Multiset K → Prop)
    (note : Q → Option K → Option (Option K)) : Prop :=
  ∀ q e e', note q e = some e' → ∀ (w : ω) (others : Multiset K),
    Holds w (others + e.toList) → Holds (call q w).2 (others + e'.toList)

section Ledger

variable {body : Job → Prog Unit Q A ε α} {call : (q : Q) → ω → A q × ω} {w₀ : ω}
  {Holds : ω → Multiset K → Prop} {note : Q → Option K → Option (Option K)}
  {entry : Job → Outcome ε α → Option K} {Good : Job → Outcome ε α → Prop}

/-- The job ends well, and with the entry that goes with its end. -/
def EndsAs (entry : Job → Outcome ε α → Option K) (Good : Job → Outcome ε α → Prop) (job : Job)
    (o : Outcome ε α) (e : Option K) : Prop := e = entry job o ∧ Good job o

/-- The ledger of a pool, with what its programs under way have entered. -/
structure Kept (Holds : ω → Multiset K → Prop) (note : Q → Option K → Option (Option K))
    (entry : Job → Outcome ε α → Option K) (Good : Job → Outcome ε α → Prop)
    (s : Workers Job ω Q A ε α) (noted : List ((Job × Prog Unit Q A ε α) × Option K)) : Prop where
  active : noted.map (·.1) = s.active
  holds : Holds s.object (finishedEntries entry s.finished + activeEntries noted)
  each : ∀ n ∈ noted, n.1.2.Tracks note (EndsAs entry Good n.1.1) n.2
  good : ∀ f ∈ s.finished, Good f.1 f.2

/-- The program an action is taken by. -/
theorem Kept.split {w : ω} {before after : List (Job × Prog Unit Q A ε α)}
    {finished : List (Job × Outcome ε α)} {job : Job} {p : Prog Unit Q A ε α}
    {noted : List ((Job × Prog Unit Q A ε α) × Option K)}
    (h : Kept Holds note entry Good
      { object := w, active := before ++ (job, p) :: after, finished } noted) :
    ∃ noted₁ e noted₂, noted = noted₁ ++ ((job, p), e) :: noted₂ ∧
      noted₁.map (·.1) = before ∧ noted₂.map (·.1) = after ∧
      p.Tracks note (EndsAs entry Good job) e := by
  obtain ⟨noted₁, rest, rfl, hbefore, hrest⟩ := List.map_eq_append_iff.mp h.active
  obtain ⟨⟨running, e⟩, noted₂, rfl, hp, hafter⟩ := List.map_eq_cons_iff.mp hrest
  obtain rfl : running = (job, p) := hp
  exact ⟨noted₁, e, noted₂, rfl, hbefore, hafter, h.each ((job, p), e) (by simp)⟩

/-- **Every step keeps the ledger.** -/
theorem Run.kept (hledger : KeepsLedger call Holds note)
    (hbody : ∀ job, (body job).Tracks note (EndsAs entry Good job) none) (hinit : Holds w₀ 0)
    {s : Workers Job ω Q A ε α} (hrun : Run body call w₀ s) :
    ∃ noted, Kept Holds note entry Good s noted := by
  induction hrun with
  | init => exact ⟨[], rfl, hinit, by simp, by simp⟩
  | @start s _ job ih =>
      obtain ⟨noted, hkept⟩ := ih
      refine ⟨((job, body job), none) :: noted, by simp [hkept.active], hkept.holds, ?_, hkept.good⟩
      intro n hn
      rcases List.mem_cons.mp hn with rfl | hn
      · exact hbody job
      · exact hkept.each n hn
  | @act w w' before after finished job p p' _ hact ih =>
      obtain ⟨noted, hkept⟩ := ih
      obtain ⟨noted₁, e, noted₂, rfl, rfl, rfl, htracks⟩ := hkept.split
      have hbefore := hkept.holds
      rw [activeEntries_split] at hbefore
      obtain ⟨e', htracks', hholds⟩ : ∃ e', p'.Tracks note (EndsAs entry Good job) e' ∧
          Holds w' (finishedEntries entry finished + activeEntries (noted₁ ++ noted₂) + e'.toList) := by
        rcases htracks.advance hact with ⟨q, e', hnote, rfl, htracks'⟩ | ⟨rfl, htracks'⟩
        · exact ⟨e', htracks', hledger q e e' hnote w _ hbefore⟩
        · exact ⟨e, htracks', hbefore⟩
      refine ⟨noted₁ ++ ((job, p'), e') :: noted₂, by simp, ?_, ?_, hkept.good⟩
      · rw [activeEntries_split]
        exact hholds
      · intro n hn
        rcases List.mem_append.mp hn with hn | hn
        · exact hkept.each n (by simp [hn])
        · rcases List.mem_cons.mp hn with rfl | hn
          · exact htracks'
          · exact hkept.each n (by simp [hn])
  | @finish w before after finished job p o _ hresult ih =>
      obtain ⟨noted, hkept⟩ := ih
      obtain ⟨noted₁, e, noted₂, rfl, rfl, rfl, htracks⟩ := hkept.split
      obtain ⟨rfl, hgood⟩ := htracks.result hresult
      refine ⟨noted₁ ++ noted₂, by simp, ?_, ?_, ?_⟩
      · have hbefore := hkept.holds
        rw [activeEntries_split, add_right_comm] at hbefore
        rw [finishedEntries_concat]
        exact hbefore
      · intro n hn
        rcases List.mem_append.mp hn with hn | hn
        · exact hkept.each n (by simp [hn])
        · exact hkept.each n (by simp [hn])
      · intro f hf
        rcases List.mem_append.mp hf with hf | hf
        · exact hkept.good f hf
        · obtain rfl := List.mem_singleton.mp hf
          exact hgood

/--
**The ledger rule.**  Once nothing is under way, the ledger holds the entries of the
finished jobs, each as it ended.
-/
theorem Run.ledger (hledger : KeepsLedger call Holds note)
    (hbody : ∀ job, (body job).Tracks note (EndsAs entry Good job) none) (hinit : Holds w₀ 0)
    {s : Workers Job ω Q A ε α} (hrun : Run body call w₀ s) (hover : s.active = []) :
    Holds s.object (finishedEntries entry s.finished) ∧ ∀ f ∈ s.finished, Good f.1 f.2 := by
  obtain ⟨noted, hkept⟩ := hrun.kept hledger hbody hinit
  obtain rfl : noted = [] := by simpa [hover] using hkept.active
  have hholds := hkept.holds
  rw [show activeEntries ([] : List ((Job × Prog Unit Q A ε α) × Option K)) = 0 from rfl,
    add_zero] at hholds
  exact ⟨hholds, hkept.good⟩

end Ledger

end Workers

end JustEnough
