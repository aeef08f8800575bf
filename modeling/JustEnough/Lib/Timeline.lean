/-
Jobs that share one object, with the moments of their calls.

A pool forgets when a call was made.  A timeline keeps the calls that were made of the
object, in order, and a moment is a number of calls; so the object at a moment is what the
calls before it made of it (`objectAt`), and every job has the moment at which it began and,
when it is finished, the one at which it ended.  Timelines are pools with that added:
without it a timeline is a pool (`Run.pool`), and every pool comes from a timeline
(`exists_timeline`).

What is proved here of a finished job is what its answer is made of (`Run.sees`): each of
its calls found the object as it was at one moment, the moments are in order, and they are
not before the job began and before it ended.  A program that is run against given states
of the object, one for each call, is `replay`.
-/
import JustEnough.Lib.Workers

namespace JustEnough

variable {Job Q ω ε α β : Type} {A : Q → Type}

namespace Prog

/-- How a program ends when its calls find the object in these states, one after the other;
`none` where it makes more calls than that, or fewer. -/
def replay (call : (q : Q) → ω → A q × ω) : Prog Unit Q A ε α → List ω → Option (Outcome ε α)
  | .pure a, [] => some (.returned a)
  | .throw x, [] => some (.threw x)
  | .read k, ws => (k ()).replay call ws
  | .write _ k, ws => k.replay call ws
  | .ask q k, w :: ws => (k (call q w).1).replay call ws
  | _, _ => none

/-- The call that comes next. -/
def asks : Prog Unit Q A ε α → List Q
  | .ask q _ => [q]
  | _ => []

variable {call : (q : Q) → ω → A q × ω}

/-- The two halves of a sequence share the states. -/
theorem replay_bind {p : Prog Unit Q A ε α} {f : α → Prog Unit Q A ε β} {ws : List ω} {b : β}
    (h : (p >>= f).replay call ws = some (.returned b)) :
    ∃ first second a, ws = first ++ second ∧ p.replay call first = some (.returned a) ∧
      (f a).replay call second = some (.returned b) := by
  rw [bind_eq] at h
  induction p generalizing ws with
  | pure a => exact ⟨[], ws, a, rfl, rfl, h⟩
  | throw x => cases ws <;> cases h
  | spin => cases ws <;> cases h
  | read k ih => exact ih () h
  | write g k ih => exact ih h
  | lock k _ => cases ws <;> cases h
  | unlock k _ => cases ws <;> cases h
  | ask q k ih =>
      cases ws with
      | nil => cases h
      | cons w ws =>
          obtain ⟨first, second, a, rfl, hfirst, hsecond⟩ := ih _ h
          exact ⟨w :: first, second, a, rfl, hfirst, hsecond⟩

theorem replay_query {q : Q} {ws : List ω} {a : A q}
    (h : (query q : Prog Unit Q A ε (A q)).replay call ws = some (.returned a)) :
    ∃ w, ws = [w] ∧ a = (call q w).1 := by
  cases ws with
  | nil => cases h
  | cons w ws =>
      cases ws with
      | nil =>
          cases h
          exact ⟨w, rfl, rfl⟩
      | cons w' ws => cases h

theorem replay_pure {a b : α} {ws : List ω}
    (h : (pure a : Prog Unit Q A ε α).replay call ws = some (.returned b)) : ws = [] ∧ b = a := by
  cases ws with
  | nil =>
      cases h
      exact ⟨rfl, rfl⟩
  | cons w ws => cases h

theorem replay_ofExcept {x : Except ε α} {b : α} {ws : List ω}
    (h : (ofExcept x : Prog Unit Q A ε α).replay call ws = some (.returned b)) : ws = [] ∧ x = .ok b := by
  cases x with
  | ok a =>
      obtain ⟨rfl, rfl⟩ := replay_pure h
      exact ⟨rfl, rfl⟩
  | error e => cases ws <;> cases h

/-- One action takes the state of the object, if it is a call. -/
theorem replay_advance {p p' : Prog Unit Q A ε α} {w w' : ω} (h : p.advance call w = some (p', w'))
    (ws : List ω) : p.replay call (p.asks.map (fun _ => w) ++ ws) = p'.replay call ws := by
  cases p with
  | read k =>
      cases h
      rfl
  | write f k =>
      cases h
      rfl
  | ask q k =>
      cases h
      rfl
  | pure a => cases h
  | throw x => cases h
  | spin => cases h
  | lock k => cases h
  | unlock k => cases h

theorem replay_result {p : Prog Unit Q A ε α} {o : Outcome ε α} (h : p.result = some o) :
    p.replay call [] = some o := by
  cases p with
  | pure a => exact h
  | throw x => exact h
  | _ => cases h

end Prog

/-! ### Timelines -/

/-- A job, with the moment at which it began. -/
structure Underway (Job Q : Type) (A : Q → Type) (ε α : Type) where
  began : Nat
  job : Job
  prog : Prog Unit Q A ε α

/-- A finished job, with the moments between which it was under way. -/
structure Done (Job ε α : Type) where
  began : Nat
  job : Job
  outcome : Outcome ε α
  ended : Nat

/-- The calls that were made, and the jobs. -/
structure Timeline (Job Q : Type) (A : Q → Type) (ε α : Type) where
  log : List Q
  active : List (Underway Job Q A ε α)
  finished : List (Done Job ε α)

/-- What calls make of the object. -/
def objectAfter (call : (q : Q) → ω → A q × ω) (w₀ : ω) (log : List Q) : ω :=
  log.foldl (fun w q => (call q w).2) w₀

namespace Timeline

/-- The timelines reached when any job may begin and any program under way may act next. -/
inductive Run (body : Job → Prog Unit Q A ε α) (call : (q : Q) → ω → A q × ω) (w₀ : ω) :
    Timeline Job Q A ε α → Prop
  | init : Run body call w₀ { log := [], active := [], finished := [] }
  | start {t : Timeline Job Q A ε α} (h : Run body call w₀ t) (job : Job) :
      Run body call w₀ { t with active := ⟨t.log.length, job, body job⟩ :: t.active }
  | act {log : List Q} {before after : List (Underway Job Q A ε α)} {finished : List (Done Job ε α)}
      {began : Nat} {job : Job} {p p' : Prog Unit Q A ε α} {w' : ω}
      (h : Run body call w₀ { log, active := before ++ ⟨began, job, p⟩ :: after, finished })
      (hact : p.advance call (objectAfter call w₀ log) = some (p', w')) :
      Run body call w₀ { log := log ++ p.asks, active := before ++ ⟨began, job, p'⟩ :: after, finished }
  | finish {log : List Q} {before after : List (Underway Job Q A ε α)} {finished : List (Done Job ε α)}
      {began : Nat} {job : Job} {p : Prog Unit Q A ε α} {o : Outcome ε α}
      (h : Run body call w₀ { log, active := before ++ ⟨began, job, p⟩ :: after, finished })
      (hresult : p.result = some o) :
      Run body call w₀ {
        log
        active := before ++ after
        finished := finished ++ [⟨began, job, o, log.length⟩] }

/-- The object at a moment. -/
def objectAt (call : (q : Q) → ω → A q × ω) (w₀ : ω) (t : Timeline Job Q A ε α) (moment : Nat) : ω :=
  objectAfter call w₀ (t.log.take moment)

/-- The pool, without the moments. -/
def pool (call : (q : Q) → ω → A q × ω) (w₀ : ω) (t : Timeline Job Q A ε α) : Workers Job ω Q A ε α where
  object := objectAfter call w₀ t.log
  active := t.active.map fun u => (u.job, u.prog)
  finished := t.finished.map fun d => (d.job, d.outcome)

variable {body : Job → Prog Unit Q A ε α} {call : (q : Q) → ω → A q × ω} {w₀ : ω}
  {t : Timeline Job Q A ε α}

theorem objectAfter_asks {p p' : Prog Unit Q A ε α} {w' : ω} {log : List Q}
    (h : p.advance call (objectAfter call w₀ log) = some (p', w')) :
    objectAfter call w₀ (log ++ p.asks) = w' := by
  rw [objectAfter, List.foldl_append]
  cases p with
  | read k =>
      cases h
      rfl
  | write f k =>
      cases h
      rfl
  | ask q k =>
      cases h
      rfl
  | pure a => cases h
  | throw x => cases h
  | spin => cases h
  | lock k => cases h
  | unlock k => cases h

/-- A timeline is a pool. -/
theorem Run.pool (h : Run body call w₀ t) : Workers.Run body call w₀ (t.pool call w₀) := by
  induction h with
  | init => exact .init
  | start _ job ih => exact ih.start job
  | @act log before after finished began job p p' w' _ hact ih =>
      rw [Timeline.pool, List.map_append, List.map_cons] at ih ⊢
      rw [objectAfter_asks hact]
      exact ih.act hact
  | @finish log before after finished began job p o _ hresult ih =>
      rw [Timeline.pool, List.map_append, List.map_cons] at ih
      rw [Timeline.pool, List.map_append, List.map_append]
      exact ih.finish hresult

/-- Every pool has a timeline. -/
theorem exists_timeline {s : Workers Job ω Q A ε α} (h : Workers.Run body call w₀ s) :
    ∃ t, Run body call w₀ t ∧ t.pool call w₀ = s := by
  induction h with
  | init => exact ⟨_, .init, rfl⟩
  | start _ job ih =>
      obtain ⟨t, hrun, rfl⟩ := ih
      exact ⟨_, hrun.start job, rfl⟩
  | @act w w' before after finished job p p' _ hact ih =>
      obtain ⟨⟨log, active, done⟩, hrun, hpool⟩ := ih
      obtain ⟨rfl, hactive, rfl⟩ := Workers.mk.inj hpool
      obtain ⟨before', rest, rfl, rfl, hrest⟩ := List.map_eq_append_iff.mp hactive
      obtain ⟨⟨began, job', prog⟩, after', rfl, hhead, rfl⟩ := List.map_eq_cons_iff.mp hrest
      obtain ⟨rfl, rfl⟩ := Prod.mk.inj hhead
      refine ⟨_, hrun.act hact, ?_⟩
      rw [Timeline.pool, objectAfter_asks hact, List.map_append, List.map_cons]
  | @finish w before after finished job p o _ hresult ih =>
      obtain ⟨⟨log, active, done⟩, hrun, hpool⟩ := ih
      obtain ⟨rfl, hactive, rfl⟩ := Workers.mk.inj hpool
      obtain ⟨before', rest, rfl, rfl, hrest⟩ := List.map_eq_append_iff.mp hactive
      obtain ⟨⟨began, job', prog⟩, after', rfl, hhead, rfl⟩ := List.map_eq_cons_iff.mp hrest
      obtain ⟨rfl, rfl⟩ := Prod.mk.inj hhead
      refine ⟨_, hrun.finish hresult, ?_⟩
      rw [Timeline.pool, List.map_append, List.map_append]
      rfl

/-- A program comes to the end it has alone, if the others wait. -/
theorem Run.alone {K : Type} {note : Q → Option K → Option (Option K)} {Φ : Outcome ε α → Option K → Prop}
    {began : Nat} {job : Job} {active : List (Underway Job Q A ε α)} {finished : List (Done Job ε α)}
    {p : Prog Unit Q A ε α} {e : Option K} {m : Prog.Mem Unit ω Q}
    (h : Run body call w₀ ⟨m.asked, ⟨began, job, p⟩ :: active, finished⟩)
    (henv : m.env = objectAfter call w₀ m.asked) (htracks : p.Tracks note Φ e) :
    Run body call w₀ ⟨(p.run (Workers.answer call) m).2.asked, active,
      finished ++ [⟨began, job, (p.run (Workers.answer call) m).1,
        (p.run (Workers.answer call) m).2.asked.length⟩]⟩ ∧
      (p.run (Workers.answer call) m).2.env
        = objectAfter call w₀ (p.run (Workers.answer call) m).2.asked := by
  induction p generalizing m e with
  | pure a => exact ⟨@Run.finish _ _ _ _ _ _ body call w₀ m.asked [] active finished began job _ _ h rfl, henv⟩
  | throw x => exact ⟨@Run.finish _ _ _ _ _ _ body call w₀ m.asked [] active finished began job _ _ h rfl, henv⟩
  | read k ih =>
      have hact := @Run.act _ _ _ _ _ _ body call w₀ m.asked [] active finished began job _ (k ()) _ h rfl
      rw [show (Prog.read k).asks = [] from rfl, List.append_nil] at hact
      exact ih _ hact henv htracks
  | write f k ih =>
      have hact := @Run.act _ _ _ _ _ _ body call w₀ m.asked [] active finished began job _ k _ h rfl
      rw [show (Prog.write f k).asks = [] from rfl, List.append_nil] at hact
      exact @ih e { m with shared := f m.shared } hact henv htracks
  | ask q k ih =>
      obtain ⟨e', -, hall⟩ := htracks
      have hact := @Run.act _ _ _ _ _ _ body call w₀ m.asked [] active finished began job _ _ _ h rfl
      rw [← henv] at hact
      refine @ih _ e' { m with env := (call q m.env).2, asked := m.asked ++ [q] } hact ?_ (hall _)
      rw [objectAfter, List.foldl_append]
      exact congrArg (fun w => (call q w).2) henv
  | spin => exact absurd htracks id
  | lock k ih => exact absurd htracks id
  | unlock k ih => exact absurd htracks id

/-! ### What a job has seen -/

/-- Moments in order, not before one and before another. -/
structure Moments (first last : Nat) (moments : List Nat) : Prop where
  ordered : moments.Pairwise (· < ·)
  notBefore : ∀ i ∈ moments, first ≤ i
  before : ∀ i ∈ moments, i < last

theorem Moments.mono {first last last' : Nat} {moments : List Nat} (h : Moments first last moments)
    (hle : last ≤ last') : Moments first last' moments where
  ordered := h.ordered
  notBefore := h.notBefore
  before i hi := (h.before i hi).trans_le hle

/-- One more, later than all others. -/
theorem Moments.snoc {first last : Nat} {moments : List Nat} (h : Moments first last moments)
    (hle : first ≤ last) : Moments first (last + 1) (moments ++ [last]) where
  ordered := by
    apply List.pairwise_append.mpr
    refine ⟨h.ordered, List.pairwise_singleton _ _, fun i hi j hj => ?_⟩
    obtain rfl := List.mem_singleton.mp hj
    exact h.before i hi
  notBefore i hi := by
    obtain hi | hi := List.mem_append.mp hi
    · exact h.notBefore i hi
    · obtain rfl := List.mem_singleton.mp hi
      exact hle
  before i hi := by
    obtain hi | hi := List.mem_append.mp hi
    · exact (h.before i hi).trans (Nat.lt_succ_self last)
    · obtain rfl := List.mem_singleton.mp hi
      exact Nat.lt_succ_self _

/-- Later calls do not change the object at an earlier moment. -/
theorem objectAt_append {log more : List Q} {active active' : List (Underway Job Q A ε α)}
    {finished finished' : List (Done Job ε α)} {moment : Nat} (h : moment ≤ log.length) :
    objectAt call w₀ ⟨log ++ more, active', finished'⟩ moment = objectAt call w₀ ⟨log, active, finished⟩ moment := by
  rw [objectAt, objectAt, List.take_append_of_le_length h]

theorem map_objectAt_append {log more : List Q} {active active' : List (Underway Job Q A ε α)}
    {finished finished' : List (Done Job ε α)} {first last : Nat} {moments : List Nat}
    (h : Moments first last moments) (hlast : last ≤ log.length) :
    moments.map (objectAt call w₀ ⟨log ++ more, active', finished'⟩)
      = moments.map (objectAt call w₀ ⟨log, active, finished⟩) := by
  apply List.map_congr_left
  intro i hi
  have hlt := h.before i hi
  exact objectAt_append (by omega)

/-- What a program under way has seen so far, and what it goes on with. -/
def Seen (body : Job → Prog Unit Q A ε α) (call : (q : Q) → ω → A q × ω) (w₀ : ω)
    (t : Timeline Job Q A ε α) (u : Underway Job Q A ε α) : Prop :=
  u.began ≤ t.log.length ∧ ∃ moments, Moments u.began t.log.length moments ∧
    ∀ ws, (body u.job).replay call (moments.map (t.objectAt call w₀) ++ ws) = u.prog.replay call ws

/-- What a finished job has seen. -/
def Replays (body : Job → Prog Unit Q A ε α) (call : (q : Q) → ω → A q × ω) (w₀ : ω)
    (t : Timeline Job Q A ε α) (d : Done Job ε α) : Prop :=
  ∃ moments, Moments d.began d.ended moments ∧
    (body d.job).replay call (moments.map (t.objectAt call w₀)) = some d.outcome

/-- The other programs have seen what they had seen. -/
theorem Seen.later {log more : List Q} {active active' : List (Underway Job Q A ε α)}
    {finished finished' : List (Done Job ε α)} {u : Underway Job Q A ε α}
    (h : Seen body call w₀ ⟨log, active, finished⟩ u) :
    Seen body call w₀ ⟨log ++ more, active', finished'⟩ u := by
  obtain ⟨hbegan, moments, hmoments, hreplay⟩ := h
  have hgrows : log.length ≤ (log ++ more).length := by simp
  refine ⟨hbegan.trans hgrows, moments, hmoments.mono hgrows, fun ws => ?_⟩
  rw [map_objectAt_append hmoments le_rfl]
  exact hreplay ws

/-- The one that acts sees the object as it is now. -/
theorem Seen.act {log : List Q} {active active' : List (Underway Job Q A ε α)}
    {finished finished' : List (Done Job ε α)} {began : Nat} {job : Job} {p p' : Prog Unit Q A ε α}
    {w' : ω} (h : Seen body call w₀ ⟨log, active, finished⟩ ⟨began, job, p⟩)
    (hact : p.advance call (objectAfter call w₀ log) = some (p', w')) :
    Seen body call w₀ ⟨log ++ p.asks, active', finished'⟩ ⟨began, job, p'⟩ := by
  obtain ⟨hbegan, moments, hmoments, hreplay⟩ := h
  have hgrows : log.length ≤ (log ++ p.asks).length := by simp
  have hnow : objectAt call w₀ ⟨log ++ p.asks, active', finished'⟩ log.length = objectAfter call w₀ log := by
    rw [objectAt, List.take_left]
  refine ⟨hbegan.trans hgrows, moments ++ p.asks.map fun _ => log.length, ?_, fun ws => ?_⟩
  · cases p with
    | ask q k =>
        have hsnoc := hmoments.snoc hbegan
        simpa [Prog.asks] using hsnoc
    | _ => simpa [Prog.asks] using hmoments
  · rw [List.map_append, map_objectAt_append hmoments le_rfl, List.map_map, List.append_assoc, hreplay,
      ← Prog.replay_advance hact ws]
    simp only [Function.comp_def, hnow]

/-- **What a finished job returned** comes from the object as it was at moments in order while the
job was under way. -/
theorem Run.sees (h : Run body call w₀ t) :
    (∀ u ∈ t.active, Seen body call w₀ t u) ∧
      ∀ d ∈ t.finished, d.began ≤ d.ended ∧ d.ended ≤ t.log.length ∧ Replays body call w₀ t d := by
  induction h with
  | init => exact ⟨by simp, by simp⟩
  | @start t _ job ih =>
      refine ⟨?_, ih.2⟩
      intro u hu
      obtain rfl | hu := List.mem_cons.mp hu
      · exact ⟨le_rfl, [], ⟨.nil, by simp, by simp⟩, fun ws => rfl⟩
      · exact ih.1 u hu
  | @act log before after finished began job p p' w' hrun hact ih =>
      have hgrows : log.length ≤ (log ++ p.asks).length := by simp
      refine ⟨?_, ?_⟩
      · intro u hu
        obtain hu | rfl | hu : u ∈ before ∨ u = ⟨began, job, p'⟩ ∨ u ∈ after := by simpa using hu
        · exact (ih.1 u (by simp [hu])).later
        · exact (ih.1 ⟨began, job, p⟩ (by simp)).act hact
        · exact (ih.1 u (by simp [hu])).later
      · intro d hd
        obtain ⟨hle, hended, moments, hmoments, hreplay⟩ := ih.2 d hd
        refine ⟨hle, hended.trans hgrows, moments, hmoments, ?_⟩
        rw [map_objectAt_append hmoments hended]
        exact hreplay
  | @finish log before after finished began job p o hrun hresult ih =>
      refine ⟨?_, ?_⟩
      · intro u hu
        exact ih.1 u (by simp at hu ⊢; tauto)
      · intro d hd
        obtain hd | rfl : d ∈ finished ∨ d = ⟨began, job, o, log.length⟩ := by simpa using hd
        · exact ih.2 d hd
        · obtain ⟨hle, moments, hmoments, hreplay⟩ := ih.1 ⟨began, job, p⟩ (by simp)
          refine ⟨hle, le_rfl, moments, hmoments, ?_⟩
          have hend := hreplay []
          rw [List.append_nil, Prog.replay_result hresult] at hend
          exact hend

/-- Every call is one that the jobs may make. -/
theorem Run.log_allowed {allowed : Q → Prop} (hbody : ∀ job, (body job).Calls allowed)
    (h : Run body call w₀ t) : (∀ u ∈ t.active, u.prog.Calls allowed) ∧ ∀ q ∈ t.log, allowed q := by
  induction h with
  | init => exact ⟨by simp, by simp⟩
  | start _ job ih =>
      refine ⟨?_, ih.2⟩
      intro u hu
      obtain rfl | hu := List.mem_cons.mp hu
      · exact hbody job
      · exact ih.1 u hu
  | @act log before after finished began job p p' w' _ hact ih =>
      have hp : p.Calls allowed := ih.1 ⟨began, job, p⟩ (by simp)
      refine ⟨?_, ?_⟩
      · intro u hu
        obtain hu | rfl | hu : u ∈ before ∨ u = ⟨began, job, p'⟩ ∨ u ∈ after := by simpa using hu
        · exact ih.1 u (by simp [hu])
        · exact (hp.advance hact).1
        · exact ih.1 u (by simp [hu])
      · intro q hq
        obtain hq | hq := List.mem_append.mp hq
        · exact ih.2 q hq
        · cases p with
          | ask q' k =>
              obtain rfl := List.mem_singleton.mp hq
              exact hp.1
          | _ => cases hq
  | @finish log before after finished began job p o _ _ ih =>
      exact ⟨fun u hu => ih.1 u (by simp at hu ⊢; tauto), ih.2⟩

end Timeline

end JustEnough
