/-
What the queries of a counter answer.

Each operation of a `MultiMapCounter` holds its mutex from beginning to end, so a run of
any number of threads is a list of operations, in the order in which they took the mutex.
What has been counted is a matter of the increments in that list alone.  The map holds
more: `get` and `iterateKey` look up with `operator[]`, which puts there what it does not
find (`Holds`).

What is put there has the value that a counter has before it is incremented, so it is
never seen by `get`.  But it is listed: the answers are exact, and do not depend on the
queries before them, exactly where each key that was asked for has been incremented by
the time keys are listed (`queriesRight_iff`).
-/
import JustEnough.Proofs.Counting

namespace JustEnough

/-! ### Runs -/

inductive CounterOp (A B : Type)
  | increment (outerKey : A) (innerKey : B) (delta : counter_t)
  | get (outerKey : A) (innerKey : B)
  | getKeys
  | iterateKey (outerKey : A)
  deriving DecidableEq

/-- What an operation returns; of a map, its entries in order. -/
inductive CounterReply (A B : Type)
  | done
  | count (value : counter_t)
  | keys (keys : List A)
  | entries (entries : List (B × counter_t))
  deriving DecidableEq

namespace CounterOp

variable {A B : Type}

def IsQuery : CounterOp A B → Prop
  | .increment .. => False
  | _ => True

section Run

variable [Ord A] [Ord B]

def perform : CounterOp A B → MultiMapCounter A B → CounterReply A B × MultiMapCounter A B
  | .increment a b delta, m => (.done, m.increment a b delta)
  | .get a b, m => (.count (m.get a b).1, (m.get a b).2)
  | .getKeys, m => (.keys m.getKeys, m)
  | .iterateKey a, m => (.entries (m.iterateKey a).1.toList, (m.iterateKey a).2)

/-- The counter after some operations. -/
def after (m : MultiMapCounter A B) (ops : List (CounterOp A B)) : MultiMapCounter A B :=
  ops.foldl (fun m op => (op.perform m).2) m

/-- What an operation returns when these came before it. -/
def answer (done : List (CounterOp A B)) (op : CounterOp A B) : CounterReply A B :=
  (op.perform (after {} done)).1

theorem after_concat (m : MultiMapCounter A B) (ops : List (CounterOp A B)) (op : CounterOp A B) :
    after m (ops ++ [op]) = (op.perform (after m ops)).2 := by
  simp [after]

end Run

/-! ### What has been counted -/

section Counted

variable [DecidableEq A] [DecidableEq B]

/-- The deltas given to one counter. -/
def deltas (ops : List (CounterOp A B)) (a : A) (b : B) : List counter_t :=
  ops.filterMap fun op =>
    match op with
    | .increment a' b' delta => if a' = a ∧ b' = b then some delta else none
    | _ => none

def total (ops : List (CounterOp A B)) (a : A) (b : B) : counter_t := (deltas ops a b).sum

def Incremented (ops : List (CounterOp A B)) (a : A) (b : B) : Prop := deltas ops a b ≠ []

theorem deltas_increment (ops : List (CounterOp A B)) (a a' : A) (b b' : B) (delta : counter_t) :
    deltas (ops ++ [.increment a b delta]) a' b'
      = deltas ops a' b' ++ if a = a' ∧ b = b' then [delta] else [] := by
  by_cases hsame : a = a' ∧ b = b'
  · simp [deltas, hsame]
  · simp [deltas, hsame]

theorem deltas_append (done rest : List (CounterOp A B)) (a : A) (b : B) :
    deltas (done ++ rest) a b = deltas done a b ++ deltas rest a b := List.filterMap_append

/-- Queries count nothing. -/
theorem deltas_cons_query (op : CounterOp A B) (h : op.IsQuery) (rest : List (CounterOp A B))
    (a : A) (b : B) : deltas (op :: rest) a b = deltas rest a b := by
  cases op with
  | increment => exact absurd h id
  | get => rfl
  | getKeys => rfl
  | iterateKey => rfl

theorem deltas_query (op : CounterOp A B) (h : op.IsQuery) (ops : List (CounterOp A B)) (a : A)
    (b : B) : deltas (ops ++ [op]) a b = deltas ops a b := by
  rw [deltas_append, deltas_cons_query op h]
  exact List.append_nil _

end Counted

end CounterOp

/-! ### Maps in order -/

section Order

variable {α β : Type} [Ord α] [Std.TransOrd α] [Std.LawfulEqOrd α]

theorem keys_eq_of_mem_iff {t t' : Std.TreeMap α β} (h : ∀ a, a ∈ t ↔ a ∈ t') :
    t.keys = t'.keys := by
  have hperm : t.keys.Perm t'.keys := by
    rw [List.perm_ext_iff_of_nodup Std.TreeMap.nodup_keys Std.TreeMap.nodup_keys]
    simpa using h
  refine hperm.eq_of_pairwise ?_ Std.TreeMap.ordered_keys Std.TreeMap.ordered_keys
  intro a b _ _ hlt hgt
  exact absurd hgt (Std.OrientedCmp.not_lt_of_lt hlt)

theorem toList_eq_of_getElem?_eq {t t' : Std.TreeMap α β} (h : ∀ a : α, t[a]? = t'[a]?) :
    t.toList = t'.toList :=
  (Std.TreeMap.Equiv.of_forall_constGet?_eq h).toList_eq

theorem eq_of_getD_eq {x y : Option β} {d : β} (hsome : x.isSome ↔ y.isSome)
    (hvalue : x.getD d = y.getD d) : x = y := by
  cases x with
  | none =>
      cases y with
      | none => rfl
      | some v => simp at hsome
  | some u =>
      cases y with
      | none => simp at hsome
      | some v => simpa using hvalue

end Order

/-! ### What is in the map -/

namespace MultiMapCounter

variable {A B : Type} [Ord A] [Ord B] [Std.TransOrd A]

theorem mem_of_entry {m : MultiMapCounter A B} {a : A} {b : B} {value : counter_t}
    (h : m.entry a b = some value) : a ∈ m.map := by
  by_contra hnot
  have hnone : m.map[a]? = none := Std.TreeMap.getElem?_eq_none hnot
  rw [entry, hnone] at h
  cases h

omit [Std.TransOrd A] in
/-- Putting a key where it is adds none. -/
theorem mem_iff_of_mem {m : MultiMapCounter A B} {a : A} (h : a ∈ m.map) (a' : A) :
    a' ∈ m.map ↔ a = a' ∨ a' ∈ m.map := by
  refine ⟨Or.inr, ?_⟩
  rintro (rfl | hmem)
  · exact h
  · exact hmem

theorem mem_increment [Std.LawfulEqOrd A] (m : MultiMapCounter A B) (a a' : A) (b : B)
    (delta : counter_t) : a' ∈ (m.increment a b delta).map ↔ a = a' ∨ a' ∈ m.map := by
  unfold increment
  split
  · simp [Std.TreeMap.mem_insert]
  · simp [Std.TreeMap.mem_insert]

theorem mem_iterateKey [Std.LawfulEqOrd A] (m : MultiMapCounter A B) (a a' : A) :
    a' ∈ (m.iterateKey a).2.map ↔ a = a' ∨ a' ∈ m.map := by
  unfold iterateKey
  cases hinner : m.map[a]? with
  | some inner =>
      have hmem : a ∈ m.map := by
        rw [Std.TreeMap.mem_iff_isSome_getElem?, hinner]
        rfl
      exact mem_iff_of_mem hmem a'
  | none => simp [Std.TreeMap.mem_insert]

variable [Std.TransOrd B]

omit [Std.TransOrd A] in
/-- The copy that is returned has the counters of that key. -/
theorem getElem?_iterateKey (m : MultiMapCounter A B) (a : A) (b : B) :
    (m.iterateKey a).1[b]? = m.entry a b := by
  unfold iterateKey entry
  cases m.map[a]? with
  | none => simp
  | some inner => rfl

/-- And so has the inner map that `operator[]` gives. -/
theorem getElem?_inner (m : MultiMapCounter A B) (a : A) (b : B) :
    (m.map.getD a ∅)[b]? = m.entry a b := by
  rw [Std.TreeMap.getD_eq_getD_getElem?, entry]
  cases m.map[a]? with
  | none => simp
  | some inner => rfl

theorem get_some {m : MultiMapCounter A B} {a : A} {b : B} {value : counter_t}
    (h : m.entry a b = some value) : m.get a b = (value, m) := by
  simp [get, getElem?_inner, h]

theorem get_none {m : MultiMapCounter A B} {a : A} {b : B} (h : m.entry a b = none) :
    m.get a b = (0, { map := m.map.insert a ((m.map.getD a ∅).insert b 0) }) := by
  simp [get, getElem?_inner, h]

theorem get_eq (m : MultiMapCounter A B) (a : A) (b : B) :
    (m.get a b).1 = (m.entry a b).getD 0 := by
  cases h : m.entry a b with
  | some value => rw [get_some h, Option.getD_some]
  | none => rw [get_none h, Option.getD_none]

theorem mem_get [Std.LawfulEqOrd A] (m : MultiMapCounter A B) (a a' : A) (b : B) :
    a' ∈ (m.get a b).2.map ↔ a = a' ∨ a' ∈ m.map := by
  cases h : m.entry a b with
  | some value =>
      rw [get_some h]
      exact mem_iff_of_mem (mem_of_entry h) a'
  | none =>
      rw [get_none h]
      simp [Std.TreeMap.mem_insert]

/-- A counter that is asked for is there afterwards. -/
theorem entry_get [Std.LawfulEqOrd A] [Std.LawfulEqOrd B] [DecidableEq A] [DecidableEq B]
    (m : MultiMapCounter A B) (a a' : A) (b b' : B) : (m.get a b).2.entry a' b'
      = if a = a' ∧ b = b' then some ((m.entry a b).getD 0) else m.entry a' b' := by
  cases h : m.entry a b with
  | some value =>
      rw [get_some h]
      by_cases hsame : a = a' ∧ b = b'
      · obtain ⟨rfl, rfl⟩ := hsame
        simpa using h
      · rw [if_neg hsame]
  | none =>
      rw [get_none h]
      by_cases ha : a = a'
      · subst ha
        have hinner := getElem?_inner m a b'
        by_cases hb : b = b'
        · subst hb
          simp [entry]
        · simpa [entry, Std.TreeMap.getElem?_insert, hb] using hinner
      · simp [entry, Std.TreeMap.getElem?_insert, ha]

end MultiMapCounter

namespace CounterOp

section Listed

variable {A B : Type} [DecidableEq A] [DecidableEq B]

/-- The counter is one that the map has. -/
def Listed (ops : List (CounterOp A B)) (a : A) (b : B) : Prop :=
  Incremented ops a b ∨ .get a b ∈ ops

theorem listed_increment {ops : List (CounterOp A B)} {a a' : A} {b b' : B} {delta : counter_t} :
    Listed (ops ++ [.increment a b delta]) a' b' ↔ (a = a' ∧ b = b') ∨ Listed ops a' b' := by
  by_cases hsame : a = a' ∧ b = b'
  · simp [Listed, Incremented, deltas_increment, hsame]
  · simp [Listed, Incremented, deltas_increment, hsame]

theorem listed_query (op : CounterOp A B) (h : op.IsQuery) {ops : List (CounterOp A B)} {a : A}
    {b : B} : Listed (ops ++ [op]) a b ↔ .get a b = op ∨ Listed ops a b := by
  simp only [Listed, Incremented, deltas_query op h, List.mem_append, List.mem_singleton]
  grind

theorem listed_get {ops : List (CounterOp A B)} {a a' : A} {b b' : B} :
    Listed (ops ++ [.get a b]) a' b' ↔ (a = a' ∧ b = b') ∨ Listed ops a' b' := by
  rw [listed_query (.get a b) trivial]
  grind

theorem listed_iterateKey {ops : List (CounterOp A B)} {a a' : A} {b : B} :
    Listed (ops ++ [.iterateKey a]) a' b ↔ Listed ops a' b := by
  simp [listed_query (.iterateKey a) trivial]

theorem listed_getKeys {ops : List (CounterOp A B)} {a : A} {b : B} :
    Listed (ops ++ [.getKeys]) a b ↔ Listed ops a b := by
  simp [listed_query .getKeys trivial]

end Listed

section Holds

variable {A B : Type} [Ord A] [Ord B] [DecidableEq A] [DecidableEq B]

/-- The map after some operations has the counters that were incremented or asked for. -/
structure Holds (m : MultiMapCounter A B) (ops : List (CounterOp A B)) : Prop where
  value : ∀ a b, (m.entry a b).getD 0 = total ops a b
  inner : ∀ a b, (m.entry a b).isSome ↔ Listed ops a b
  outer : ∀ a, a ∈ m.map ↔ (∃ b, Listed ops a b) ∨ .iterateKey a ∈ ops

theorem Holds.getKeys {m : MultiMapCounter A B} {ops : List (CounterOp A B)} (h : Holds m ops) :
    Holds m (ops ++ [.getKeys]) where
  value a b := by
    rw [total, deltas_query .getKeys trivial]
    exact h.value a b
  inner a b := by
    rw [listed_getKeys]
    exact h.inner a b
  outer a := by
    rw [h.outer]
    simp [listed_getKeys]

variable [Std.TransOrd A] [Std.TransOrd B] [Std.LawfulEqOrd A] [Std.LawfulEqOrd B]

omit [Std.TransOrd B] [Std.LawfulEqOrd A] [Std.LawfulEqOrd B] in
theorem holds_nil : Holds ({} : MultiMapCounter A B) [] where
  value := by simp [MultiMapCounter.entry, total, deltas]
  inner := by simp [MultiMapCounter.entry, Listed, Incremented, deltas]
  outer := by simp [Listed, Incremented, deltas]

theorem Holds.increment {m : MultiMapCounter A B} {ops : List (CounterOp A B)} (h : Holds m ops)
    (a : A) (b : B) (delta : counter_t) :
    Holds (m.increment a b delta) (ops ++ [.increment a b delta]) where
  value a' b' := by
    have hvalue := h.value a' b'
    rw [total] at hvalue
    rw [MultiMapCounter.entry_increment, total, deltas_increment, List.sum_append]
    by_cases hsame : a = a' ∧ b = b'
    · obtain ⟨rfl, rfl⟩ := hsame
      simp [← hvalue]
    · simp [hsame, ← hvalue]
  inner a' b' := by
    rw [MultiMapCounter.entry_increment, listed_increment]
    by_cases hsame : a = a' ∧ b = b'
    · simp [hsame]
    · simp [hsame, h.inner]
  outer a' := by
    rw [MultiMapCounter.mem_increment, h.outer]
    simp only [listed_increment, exists_or, exists_and_left, exists_eq', and_true]
    simp [or_assoc]

theorem Holds.get {m : MultiMapCounter A B} {ops : List (CounterOp A B)} (h : Holds m ops)
    (a : A) (b : B) : Holds (m.get a b).2 (ops ++ [.get a b]) where
  value a' b' := by
    have hvalue := h.value a' b'
    rw [total] at hvalue
    rw [MultiMapCounter.entry_get, total, deltas_query (.get a b) trivial]
    by_cases hsame : a = a' ∧ b = b'
    · obtain ⟨rfl, rfl⟩ := hsame
      simpa using hvalue
    · rw [if_neg hsame]
      exact hvalue
  inner a' b' := by
    rw [MultiMapCounter.entry_get, listed_get]
    by_cases hsame : a = a' ∧ b = b'
    · simp [hsame]
    · simp [hsame, h.inner]
  outer a' := by
    rw [MultiMapCounter.mem_get, h.outer]
    simp only [listed_get, exists_or, exists_and_left, exists_eq', and_true]
    simp [or_assoc]

omit [Std.LawfulEqOrd B] in
theorem Holds.iterateKey {m : MultiMapCounter A B} {ops : List (CounterOp A B)} (h : Holds m ops)
    (a : A) : Holds (m.iterateKey a).2 (ops ++ [.iterateKey a]) where
  value a' b' := by
    rw [MultiMapCounter.entry_iterateKey, total, deltas_query (.iterateKey a) trivial]
    exact h.value a' b'
  inner a' b' := by
    rw [MultiMapCounter.entry_iterateKey, listed_iterateKey]
    exact h.inner a' b'
  outer a' := by
    rw [MultiMapCounter.mem_iterateKey, h.outer]
    simp [listed_iterateKey]
    grind

/-- By induction on the operations, from the last one on. -/
theorem holds_after (ops : List (CounterOp A B)) : Holds (after {} ops) ops := by
  induction ops using List.reverseRecOn with
  | nil => exact holds_nil
  | append_singleton ops op ih =>
      rw [after_concat]
      cases op with
      | increment a b delta => exact ih.increment a b delta
      | get a b => exact ih.get a b
      | getKeys => exact ih.getKeys
      | iterateKey a => exact ih.iterateKey a

end Holds

/-! ### What is listed -/

section Answers

variable {A B : Type} [DecidableEq A] [DecidableEq B]

/-- The reply is a matter of the increments alone. -/
def Exact (done : List (CounterOp A B)) : CounterOp A B → CounterReply A B → Prop
  | .increment .., reply => reply = .done
  | .get a b, reply => reply = .count (total done a b)
  | .getKeys, reply =>
      ∃ keys, reply = .keys keys ∧ keys.Nodup ∧ ∀ a, a ∈ keys ↔ ∃ b, Incremented done a b
  | .iterateKey a, reply =>
      ∃ entries, reply = .entries entries ∧ (entries.map Prod.fst).Nodup ∧
        ∀ b value, (b, value) ∈ entries ↔ Incremented done a b ∧ value = total done a b

/-- Where an operation lists keys, those that were asked for have been incremented. -/
def ListsCounted (done : List (CounterOp A B)) : CounterOp A B → Prop
  | .getKeys =>
      (∀ a b, .get a b ∈ done → ∃ b', Incremented done a b') ∧
        ∀ a, .iterateKey a ∈ done → ∃ b, Incremented done a b
  | .iterateKey a => ∀ b, .get a b ∈ done → Incremented done a b
  | _ => True

/-- In every list of keys of a run. -/
def OnlyCounted (ops : List (CounterOp A B)) : Prop :=
  ∀ done op rest, ops = done ++ op :: rest → ListsCounted done op

/-- The queries of a run are exact, and leaving out one of them changes no later answer. -/
structure QueriesRight [Ord A] [Ord B] (ops : List (CounterOp A B)) : Prop where
  exact : ∀ done op rest, ops = done ++ op :: rest → Exact done op (answer done op)
  pure : ∀ done query between op rest, query.IsQuery →
    ops = done ++ query :: (between ++ op :: rest) →
      answer (done ++ query :: between) op = answer (done ++ between) op

/-- Fewer queries leave less to be listed. -/
theorem ListsCounted.mono {done done' : List (CounterOp A B)} {op : CounterOp A B}
    (h : ListsCounted done op) (hsub : done' ⊆ done) (hdeltas : deltas done = deltas done') :
    ListsCounted done' op := by
  have hincremented : ∀ a b, Incremented done a b → Incremented done' a b := by
    intro a b hcounted
    rwa [Incremented, ← hdeltas]
  cases op with
  | increment a b delta => trivial
  | get a b => trivial
  | getKeys =>
      refine ⟨?_, ?_⟩
      · intro a b hget
        obtain ⟨b', hcounted⟩ := h.1 a b (hsub hget)
        exact ⟨b', hincremented a b' hcounted⟩
      · intro a hiterate
        obtain ⟨b, hcounted⟩ := h.2 a (hsub hiterate)
        exact ⟨b, hincremented a b hcounted⟩
  | iterateKey a =>
      intro b hget
      exact hincremented a b (h b (hsub hget))

variable [Ord A] [Ord B] [Std.TransOrd A] [Std.TransOrd B] [Std.LawfulEqOrd A] [Std.LawfulEqOrd B]

omit [Std.TransOrd A] [Std.TransOrd B] [Std.LawfulEqOrd A] [Std.LawfulEqOrd B] in
theorem ListsCounted.mem_iff {m : MultiMapCounter A B} {done : List (CounterOp A B)}
    (hlists : ListsCounted done .getKeys) (h : Holds m done) (a : A) :
    a ∈ m.map ↔ ∃ b, Incremented done a b := by
  rw [h.outer]
  constructor
  · rintro (⟨b, hcounted | hget⟩ | hiterate)
    · exact ⟨b, hcounted⟩
    · exact hlists.1 a b hget
    · exact hlists.2 a hiterate
  · rintro ⟨b, hcounted⟩
    exact Or.inl ⟨b, Or.inl hcounted⟩

omit [Std.TransOrd A] [Std.TransOrd B] [Std.LawfulEqOrd A] [Std.LawfulEqOrd B] in
theorem ListsCounted.isSome_iff {m : MultiMapCounter A B} {done : List (CounterOp A B)} {a : A}
    (hlists : ListsCounted done (.iterateKey a)) (h : Holds m done) (b : B) :
    (m.entry a b).isSome ↔ Incremented done a b := by
  rw [h.inner]
  refine ⟨?_, Or.inl⟩
  rintro (hcounted | hget)
  · exact hcounted
  · exact hlists b hget

theorem perform_exact_iff {m : MultiMapCounter A B} {done : List (CounterOp A B)} (h : Holds m done)
    (op : CounterOp A B) : Exact done op (op.perform m).1 ↔ ListsCounted done op := by
  cases op with
  | increment a b delta => simp [Exact, perform, ListsCounted]
  | get a b =>
      simp only [Exact, perform, ListsCounted, CounterReply.count.injEq, iff_true]
      rw [MultiMapCounter.get_eq, h.value]
  | getKeys =>
      have hnodup : m.getKeys.Nodup := Std.TreeMap.nodup_keys
      have hkeys : ∀ a, a ∈ m.getKeys ↔ a ∈ m.map := fun a => Std.TreeMap.mem_keys
      constructor
      · rintro ⟨keys, hreply, -, hcounted⟩
        cases hreply
        refine ⟨?_, ?_⟩
        · intro a b hget
          have hmem := (h.outer a).mpr (Or.inl ⟨b, Or.inr hget⟩)
          exact (hcounted a).mp ((hkeys a).mpr hmem)
        · intro a hiterate
          have hmem := (h.outer a).mpr (Or.inr hiterate)
          exact (hcounted a).mp ((hkeys a).mpr hmem)
      · intro hlists
        refine ⟨m.getKeys, rfl, hnodup, ?_⟩
        intro a
        rw [hkeys, hlists.mem_iff h]
  | iterateKey a =>
      have hnodup : ((m.iterateKey a).1.toList.map Prod.fst).Nodup := by
        rw [Std.TreeMap.map_fst_toList_eq_keys]
        exact Std.TreeMap.nodup_keys
      have hentries : ∀ b value, (b, value) ∈ (m.iterateKey a).1.toList
          ↔ (m.entry a b).isSome ∧ value = total done a b := by
        intro b value
        rw [Std.TreeMap.mem_toList_iff_getElem?_eq_some, MultiMapCounter.getElem?_iterateKey,
          ← h.value]
        cases m.entry a b with
        | none => simp
        | some value' => simp [eq_comm]
      constructor
      · rintro ⟨entries, hreply, -, hcounted⟩ b hget
        cases hreply
        have hsome := (h.inner a b).mpr (Or.inr hget)
        have hmem := (hentries b (total done a b)).mpr ⟨hsome, rfl⟩
        exact ((hcounted b _).mp hmem).1
      · intro hlists
        refine ⟨_, rfl, hnodup, ?_⟩
        intro b value
        rw [hentries, hlists.isSome_iff h]

/-- Two maps after the same increments answer the same, as long as they list nothing else. -/
theorem perform_eq {m m' : MultiMapCounter A B} {done done' : List (CounterOp A B)}
    (h : Holds m done) (h' : Holds m' done') (hdeltas : deltas done = deltas done')
    {op : CounterOp A B} (hlists : ListsCounted done op) (hlists' : ListsCounted done' op) :
    (op.perform m).1 = (op.perform m').1 := by
  have hincremented : ∀ a b, Incremented done a b ↔ Incremented done' a b := by
    intro a b
    rw [Incremented, Incremented, hdeltas]
  have hentry : ∀ a b, (m.entry a b).getD 0 = (m'.entry a b).getD 0 := by
    intro a b
    rw [h.value, h'.value, total, total, hdeltas]
  cases op with
  | increment a b delta => rfl
  | get a b =>
      show CounterReply.count _ = CounterReply.count _
      rw [MultiMapCounter.get_eq, MultiMapCounter.get_eq, hentry]
  | getKeys =>
      have hkeys : m.getKeys = m'.getKeys := by
        refine keys_eq_of_mem_iff ?_
        intro a
        simp only [hlists.mem_iff h, hlists'.mem_iff h', hincremented]
      show CounterReply.keys _ = CounterReply.keys _
      rw [hkeys]
  | iterateKey a =>
      have hentries : (m.iterateKey a).1.toList = (m'.iterateKey a).1.toList := by
        refine toList_eq_of_getElem?_eq ?_
        intro b
        have hsome := hlists.isSome_iff h b
        rw [hincremented, ← hlists'.isSome_iff h'] at hsome
        rw [MultiMapCounter.getElem?_iterateKey, MultiMapCounter.getElem?_iterateKey]
        exact eq_of_getD_eq hsome (hentry a b)
      show CounterReply.entries _ = CounterReply.entries _
      rw [hentries]

/-- The queries of a run are right exactly where every key it lists has been incremented. -/
theorem queriesRight_iff (ops : List (CounterOp A B)) : QueriesRight ops ↔ OnlyCounted ops := by
  constructor
  · intro h done op rest hops
    exact (perform_exact_iff (holds_after done) op).mp (h.exact done op rest hops)
  · intro h
    refine ⟨?_, ?_⟩
    · intro done op rest hops
      exact (perform_exact_iff (holds_after done) op).mpr (h done op rest hops)
    · intro done query between op rest hquery hops
      have hlists : ListsCounted (done ++ query :: between) op := by
        refine h _ op rest ?_
        rw [hops]
        simp
      have hdeltas : deltas (done ++ query :: between) = deltas (done ++ between) := by
        funext a b
        rw [deltas_append, deltas_append, deltas_cons_query query hquery]
      have hlists' : ListsCounted (done ++ between) op := by
        refine hlists.mono ?_ hdeltas
        simp
      exact perform_eq (holds_after _) (holds_after _) hdeltas hlists hlists'

/-- A key that was incremented is listed, however it was asked for. -/
theorem queriesRight_iff_example :
    QueriesRight [.increment (lit "/a") (200 : ResponseCode) 1, .get (lit "/a") 404, .getKeys] := by
  refine (queriesRight_iff _).mpr ?_
  intro done op rest hops
  match done, hops with
  | [], hops =>
      cases hops
      trivial
  | [_], hops =>
      cases hops
      trivial
  | [_, _], hops =>
      cases hops
      simp [ListsCounted, Incremented, deltas]
  | _ :: _ :: _ :: _, hops => simp at hops

/-- One that was only asked for is listed, and would not have been listed without the question. -/
theorem asked_key_listed : answer [.get (lit "/a") (200 : ResponseCode)] .getKeys = .keys [lit "/a"]
    ∧ answer [] (.getKeys : CounterOp Str ResponseCode) = .keys []
    ∧ ¬QueriesRight [.get (lit "/a") (200 : ResponseCode), .getKeys] := by
  have hasked : answer [.get (lit "/a") (200 : ResponseCode)] .getKeys = .keys [lit "/a"] := by
    decide +kernel
  have hnot : answer [] (.getKeys : CounterOp Str ResponseCode) = .keys [] := by
    decide +kernel
  refine ⟨hasked, hnot, ?_⟩
  intro h
  have hsame := h.pure [] (.get (lit "/a") 200) [] .getKeys [] trivial rfl
  rw [List.nil_append, hasked, List.nil_append, hnot] at hsame
  cases hsame

end Answers

end CounterOp

end JustEnough
