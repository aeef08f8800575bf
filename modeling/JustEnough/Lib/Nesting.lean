/-
Opening and closing tags.

A sequence of tags is nested if it is made of pairs with nested sequences inside
(`Nested`).  A stack decides that: an opening tag is pushed, and a closing tag has to be
the one on top (`nested_iff`).

A sequence in which every pair is in order, but pairs may cross, becomes nested when some
pairs are dropped.  One pass does so (`uncross`): a closing tag that is not on top of the
stack is dropped, with the opening tag it belongs to, which stays on the stack until it
comes to the top.  What the pass knows on its way is `Uncrossing`; every tag keeps it
(`Uncrossing.step`), and after the last one what is left is nested (`Uncrossing.nested`).
-/
import Mathlib.Data.List.Basic
import Mathlib.Data.List.Nodup

namespace JustEnough

inductive Tag (τ : Type)
  | opening (t : τ)
  | closing (t : τ)
  deriving DecidableEq, Repr

variable {τ σ : Type}

def Tag.label : Tag τ → τ
  | .opening t => t
  | .closing t => t

/-- Every tag that is opened is closed, in the reverse order. -/
inductive Nested : List (Tag τ) → Prop
  | nil : Nested []
  | pair (t : τ) {inner rest : List (Tag τ)} (hinner : Nested inner) (hrest : Nested rest) :
      Nested (.opening t :: (inner ++ .closing t :: rest))

/-! ### Tags for tags -/

/-- Several tags around a nested sequence. -/
theorem Nested.wrap {inner rest : List (Tag τ)} (hinner : Nested inner) (hrest : Nested rest)
    (ts : List τ) :
    Nested (ts.map .opening ++ (inner ++ (ts.reverse.map .closing ++ rest))) := by
  induction ts generalizing rest with
  | nil =>
      simp only [List.map_nil, List.nil_append, List.reverse_nil]
      induction hinner with
      | nil => exact hrest
      | pair t hfirst _ _ ih =>
          rw [List.cons_append, List.append_assoc, List.cons_append]
          exact .pair t hfirst ih
  | cons t ts ih =>
      have hwhole := Nested.pair t (ih .nil) hrest
      simpa using hwhole

theorem Nested.append {first second : List (Tag τ)} (hfirst : Nested first) (hsecond : Nested second) :
    Nested (first ++ second) := by
  simpa using hfirst.wrap hsecond []

/-- What a tag becomes when each label stands for several. -/
def Tag.expand (f : τ → List σ) : Tag τ → List (Tag σ)
  | .opening t => (f t).map .opening
  | .closing t => (f t).reverse.map .closing

/-- A nested sequence stays so when pairs become several pairs. -/
theorem Nested.expand {tags : List (Tag τ)} (h : Nested tags) (f : τ → List σ) :
    Nested (tags.flatMap (Tag.expand f)) := by
  induction h with
  | nil => exact .nil
  | pair t _ _ ihinner ihrest =>
      have hwhole := ihinner.wrap ihrest (f t)
      simpa [Tag.expand] using hwhole

/-! ### The stack -/

section Stack

variable [DecidableEq τ]

/-- The tags that are open after some, the last one first. -/
def openAfter : List τ → List (Tag τ) → Option (List τ)
  | stack, [] => some stack
  | stack, .opening t :: tags => openAfter (t :: stack) tags
  | [], .closing _ :: _ => none
  | top :: stack, .closing t :: tags => if t = top then openAfter stack tags else none

theorem openAfter_append (stack : List τ) (first second : List (Tag τ)) :
    openAfter stack (first ++ second) = (openAfter stack first).bind fun s => openAfter s second := by
  induction first generalizing stack with
  | nil => rfl
  | cons tag first ih =>
      cases tag with
      | opening t => exact ih (t :: stack)
      | closing t =>
          cases stack with
          | nil => rfl
          | cons top stack =>
              simp only [List.cons_append, openAfter]
              by_cases h : t = top
              · rw [if_pos h, if_pos h]
                exact ih stack
              · rw [if_neg h, if_neg h]
                rfl

/-- A nested sequence leaves the stack as it was. -/
theorem Nested.openAfter {tags : List (Tag τ)} (h : Nested tags) (stack : List τ) :
    openAfter stack tags = some stack := by
  induction h generalizing stack with
  | nil => rfl
  | pair t _ _ ihinner ihrest =>
      rw [JustEnough.openAfter, openAfter_append, ihinner, Option.bind_some, JustEnough.openAfter,
        if_pos rfl]
      exact ihrest stack

/-- Nested pieces between the tags leave the stack as it is. -/
theorem openAfter_flatMap {α : Type} {whole tags : α → List (Tag τ)} {items : List α}
    (h : ∀ x ∈ items, whole x = tags x ∨ (tags x = [] ∧ Nested (whole x))) (stack : List τ) :
    openAfter stack (items.flatMap whole) = openAfter stack (items.flatMap tags) := by
  induction items generalizing stack with
  | nil => rfl
  | cons x items ih =>
      have hrest := ih fun y hy => h y (List.mem_cons_of_mem _ hy)
      rw [List.flatMap_cons, List.flatMap_cons, openAfter_append, openAfter_append]
      obtain hsame | ⟨hnone, hnested⟩ := h x List.mem_cons_self
      · rw [hsame]
        exact Option.bind_congr fun s _ => hrest s
      · rw [hnone, hnested.openAfter]
        exact hrest stack

/-- Sequences that close a stack: a nested piece before each of its tags, and one after. -/
inductive Closes : List τ → List (Tag τ) → Prop
  | last {tags : List (Tag τ)} (h : Nested tags) : Closes [] tags
  | next {t : τ} {stack : List τ} {inner rest : List (Tag τ)} (hinner : Nested inner)
      (hrest : Closes stack rest) : Closes (t :: stack) (inner ++ .closing t :: rest)

omit [DecidableEq τ] in
/-- One more pair in front. -/
theorem Closes.pair {t : τ} {stack : List τ} {inner rest : List (Tag τ)} (hinner : Nested inner)
    (h : Closes stack rest) : Closes stack (.opening t :: (inner ++ .closing t :: rest)) := by
  cases h with
  | last hrest => exact .last (.pair t hinner hrest)
  | @next top _ _ _ hinner' hrest =>
      have hwhole := @Closes.next _ top _ _ _ (Nested.pair t hinner hinner') hrest
      simpa using hwhole

theorem closes_of_openAfter {stack : List τ} {tags : List (Tag τ)}
    (h : openAfter stack tags = some []) : Closes stack tags := by
  induction tags generalizing stack with
  | nil =>
      obtain rfl : stack = [] := Option.some.inj h
      exact .last .nil
  | cons tag tags ih =>
      cases tag with
      | opening t =>
          have hrest := @ih (t :: stack) h
          cases hrest with
          | next hinner hrest => exact hrest.pair hinner
      | closing t =>
          cases stack with
          | nil => cases h
          | cons top stack =>
              obtain ⟨rfl, hrest⟩ := Option.ite_none_right_eq_some.mp h
              exact .next .nil (ih hrest)

/-- **The stack decides.** -/
theorem nested_iff {tags : List (Tag τ)} : Nested tags ↔ openAfter [] tags = some [] := by
  constructor
  · intro h
    exact h.openAfter []
  · intro h
    cases closes_of_openAfter h with
    | last h => exact h

/-- Nested pieces between nested tags. -/
theorem Nested.flatMap {α : Type} {whole tags : α → List (Tag τ)} {items : List α}
    (h : ∀ x ∈ items, whole x = tags x ∨ (tags x = [] ∧ Nested (whole x)))
    (htags : Nested (items.flatMap tags)) : Nested (items.flatMap whole) := by
  rw [nested_iff, openAfter_flatMap h]
  exact htags.openAfter []

/-- Tags that are not closed can be left out. -/
theorem openAfter_filter (keep : τ → Bool) {stack stack' : List τ} {tags : List (Tag τ)}
    (hkeep : ∀ t, .closing t ∈ tags → keep t = true) (h : openAfter stack tags = some stack') :
    openAfter (stack.filter keep) (tags.filter (keep ·.label)) = some (stack'.filter keep) := by
  induction tags generalizing stack with
  | nil =>
      cases h
      rfl
  | cons tag tags ih =>
      have hrest : ∀ t, .closing t ∈ tags → keep t = true :=
        fun t ht => hkeep t (List.mem_cons_of_mem _ ht)
      cases tag with
      | opening t =>
          have htail := @ih (t :: stack) hrest h
          by_cases hk : keep t = true
          · simpa [List.filter_cons, Tag.label, hk, openAfter] using htail
          · simpa [List.filter_cons, Tag.label, hk] using htail
      | closing t =>
          have hk : keep t = true := hkeep t List.mem_cons_self
          cases stack with
          | nil => cases h
          | cons top stack =>
              obtain ⟨rfl, htail⟩ := Option.ite_none_right_eq_some.mp h
              simpa [List.filter_cons, Tag.label, hk, openAfter] using ih hrest htail

/-! ### Crossing pairs -/

/-- Every label is on no tag, or on an opening tag and then on a closing one. -/
def Paired (tags : List (Tag τ)) : Prop :=
  ∀ t, tags.filter (·.label = t) = [] ∨ tags.filter (·.label = t) = [.opening t, .closing t]

/-- The labels of the open tags, the last one first, and the labels to leave out. -/
structure Crossings (τ : Type) where
  stack : List τ := []
  dropped : List τ := []

/-- A closing tag that is not on top of the stack is left out, and with the top go the labels
under it that were left out before. -/
def uncross : Crossings τ → Tag τ → Option (Crossings τ)
  | ⟨stack, dropped⟩, .opening t => some ⟨t :: stack, dropped⟩
  | ⟨[], _⟩, .closing _ => none
  | ⟨top :: stack, dropped⟩, .closing t =>
    if t = top then some ⟨stack.dropWhile (· ∈ dropped), dropped⟩ else some ⟨top :: stack, t :: dropped⟩

theorem filter_label_eq_nil {t : τ} {tags : List (Tag τ)} :
    tags.filter (·.label = t) = [] ↔ .opening t ∉ tags ∧ .closing t ∉ tags := by
  constructor
  · intro h
    have hnone := List.filter_eq_nil_iff.mp h
    exact ⟨fun hmem => hnone _ hmem (by simp [Tag.label]),
      fun hmem => hnone _ hmem (by simp [Tag.label])⟩
  · intro ⟨hopening, hclosing⟩
    apply List.filter_eq_nil_iff.mpr
    intro tag htag hlabel
    have ht : tag.label = t := of_decide_eq_true hlabel
    cases tag with
    | opening u =>
        obtain rfl : u = t := ht
        exact hopening htag
    | closing u =>
        obtain rfl : u = t := ht
        exact hclosing htag

omit [DecidableEq τ] in
private theorem append_cons_eq_pair {first rest : List σ} {a x y : σ}
    (h : first ++ a :: rest = [x, y]) : (first = [] ∧ a = x) ∨ (first = [x] ∧ a = y) := by
  cases first with
  | nil => exact .inl ⟨rfl, (List.cons.inj h).1⟩
  | cons b first =>
      obtain ⟨rfl, hrest⟩ := List.cons.inj h
      cases first with
      | nil => exact .inr ⟨rfl, (List.cons.inj hrest).1⟩
      | cons c first => simp at hrest

/-- Before its opening tag nothing has the label. -/
theorem Paired.before_opening {done tags : List (Tag τ)} {t : τ}
    (h : Paired (done ++ .opening t :: tags)) : .opening t ∉ done ∧ .closing t ∉ done := by
  have hlabel := h t
  rw [List.filter_append, List.filter_cons_of_pos (by simp [Tag.label])] at hlabel
  apply filter_label_eq_nil.mp
  obtain hnone | hpair := hlabel
  · simp at hnone
  · obtain ⟨hdone, _⟩ | ⟨_, hne⟩ := append_cons_eq_pair hpair
    · exact hdone
    · cases hne

/-- Before its closing tag the label is on the opening one. -/
theorem Paired.before_closing {done tags : List (Tag τ)} {t : τ}
    (h : Paired (done ++ .closing t :: tags)) : .opening t ∈ done ∧ .closing t ∉ done := by
  have hlabel := h t
  rw [List.filter_append, List.filter_cons_of_pos (by simp [Tag.label])] at hlabel
  obtain hnone | hpair := hlabel
  · simp at hnone
  · have hdone : done.filter (·.label = t) = [.opening t] := by
      obtain ⟨_, hne⟩ | ⟨hdone, _⟩ := append_cons_eq_pair hpair
      · cases hne
      · exact hdone
    have hmem : ∀ tag, tag ∈ done ∧ tag.label = t ↔ tag = .opening t := by
      intro tag
      rw [← List.mem_singleton (b := Tag.opening t), ← hdone, List.mem_filter, decide_eq_true_iff]
    refine ⟨((hmem (.opening t)).mpr rfl).1, fun hclosing => ?_⟩
    cases (hmem (.closing t)).mp ⟨hclosing, rfl⟩

/-- After its closing tag nothing has the label. -/
theorem Paired.after_closing {done tags : List (Tag τ)} {t : τ}
    (h : Paired (done ++ .closing t :: tags)) : .closing t ∉ tags := by
  have hlabel := h t
  rw [List.filter_append, List.filter_cons_of_pos (by simp [Tag.label])] at hlabel
  obtain hnone | hpair := hlabel
  · simp at hnone
  · obtain ⟨_, hne⟩ | ⟨hdone, _⟩ := append_cons_eq_pair hpair
    · cases hne
    · rw [hdone] at hpair
      have hrest : tags.filter (·.label = t) = [] := by simpa using hpair
      exact (filter_label_eq_nil.mp hrest).2

theorem Paired.closing_mem {tags : List (Tag τ)} {t : τ} (h : Paired tags)
    (hopening : .opening t ∈ tags) : .closing t ∈ tags := by
  obtain hnone | hpair := h t
  · exact absurd hopening (filter_label_eq_nil.mp hnone).1
  · have hmem : .closing t ∈ tags.filter (·.label = t) := by rw [hpair]; simp
    exact (List.mem_filter.mp hmem).1

/-- What the pass knows after the tags `done`. -/
structure Uncrossing (done : List (Tag τ)) (st : Crossings τ) : Prop where
  /-- A label is on the stack once. -/
  nodup : st.stack.Nodup
  opened : ∀ t ∈ st.stack, .opening t ∈ done
  /-- What is open is on the stack, -/
  pending : ∀ t, .opening t ∈ done → .closing t ∉ done → t ∈ st.stack
  /-- and what else is there was left out. -/
  alive : ∀ t ∈ st.stack, t ∉ st.dropped → .closing t ∉ done
  closed : ∀ t ∈ st.dropped, .closing t ∈ done
  top : ∀ t ∈ st.stack.head?, t ∉ st.dropped
  /-- The tags that stay are in order so far. -/
  kept : openAfter [] (done.filter (·.label ∉ st.dropped)) = some (st.stack.filter (· ∉ st.dropped))

theorem Uncrossing.start : Uncrossing ([] : List (Tag τ)) {} where
  nodup := List.nodup_nil
  opened _ h := by simp at h
  pending _ h := by simp at h
  alive _ h := by simp at h
  closed _ h := by simp at h
  top _ h := by simp at h
  kept := rfl

theorem filter_dropWhile (dropped stack : List τ) :
    (stack.dropWhile (· ∈ dropped)).filter (· ∉ dropped) = stack.filter (· ∉ dropped) := by
  induction stack with
  | nil => rfl
  | cons t stack ih =>
      by_cases h : t ∈ dropped
      · simpa [h] using ih
      · simp [h]

section Step

variable {done : List (Tag τ)} {stack dropped : List τ} {t : τ}

theorem Uncrossing.opening (h : Uncrossing done ⟨stack, dropped⟩)
    (hbefore : .opening t ∉ done ∧ .closing t ∉ done) :
    Uncrossing (done ++ [.opening t]) ⟨t :: stack, dropped⟩ where
  nodup := List.nodup_cons.mpr ⟨fun ht => hbefore.1 (h.opened t ht), h.nodup⟩
  opened u hu := by
    obtain rfl | hu := List.mem_cons.mp hu
    · simp
    · simp [h.opened u hu]
  pending u hopening hclosing := by
    obtain hopening | rfl : .opening u ∈ done ∨ u = t := by simpa using hopening
    · exact List.mem_cons_of_mem _ (h.pending u hopening (by simpa using hclosing))
    · exact List.mem_cons_self
  alive u hu hdropped := by
    obtain rfl | hu := List.mem_cons.mp hu
    · simpa using hbefore.2
    · simpa using h.alive u hu hdropped
  closed u hu := by simpa using h.closed u hu
  top u hu := by
    obtain rfl : t = u := by simpa using hu
    exact fun hdropped => hbefore.2 (h.closed _ hdropped)
  kept := by
    have ht : t ∉ dropped := fun hdropped => hbefore.2 (h.closed _ hdropped)
    rw [List.filter_append, openAfter_append, h.kept]
    simp [Tag.label, ht, openAfter]

/-- The closing tag is the one that the stack asks for. -/
theorem Uncrossing.pop (h : Uncrossing done ⟨t :: stack, dropped⟩) :
    Uncrossing (done ++ [.closing t]) ⟨stack.dropWhile (· ∈ dropped), dropped⟩ where
  nodup := (List.dropWhile_sublist _).nodup (List.nodup_cons.mp h.nodup).2
  opened u hu := by
    have hu : u ∈ stack := (List.dropWhile_sublist _).subset hu
    simpa using h.opened u (List.mem_cons_of_mem _ hu)
  pending u hopening hopen := by
    obtain ⟨hne, hopen⟩ : u ≠ t ∧ .closing u ∉ done := by
      simp only [List.mem_append, not_or] at hopen
      exact ⟨by simpa using hopen.2, hopen.1⟩
    have hu : u ∈ t :: stack := h.pending u (by simpa using hopening) hopen
    have hstack : u ∈ stack := (List.mem_cons.mp hu).resolve_left hne
    have hkept : u ∈ stack.filter (· ∉ dropped) :=
      List.mem_filter.mpr ⟨hstack, decide_eq_true fun hdropped => hopen (h.closed u hdropped)⟩
    rw [← filter_dropWhile] at hkept
    exact (List.mem_filter.mp hkept).1
  alive u hu hdropped := by
    have hu : u ∈ stack := (List.dropWhile_sublist _).subset hu
    have hne : u ≠ t := fun heq => (List.nodup_cons.mp h.nodup).1 (heq ▸ hu)
    simpa [hne] using h.alive u (List.mem_cons_of_mem _ hu) hdropped
  closed u hu := by simp [h.closed u hu]
  top u hu := by
    have hnot := List.head?_dropWhile_not (· ∈ dropped) stack
    rw [Option.mem_def.mp hu] at hnot
    simpa using hnot
  kept := by
    have ht : t ∉ dropped := h.top t rfl
    rw [List.filter_append, openAfter_append, h.kept, filter_dropWhile]
    simp [Tag.label, ht, openAfter]

/-- The closing tag crosses the top, and is left out. -/
theorem Uncrossing.drop (h : Uncrossing done ⟨stack, dropped⟩) (htop : t ∉ stack.head?)
    (hclosing : .closing t ∉ done) :
    Uncrossing (done ++ [.closing t]) ⟨stack, t :: dropped⟩ where
  nodup := h.nodup
  opened u hu := by simp [h.opened u hu]
  pending u hopening hopen := by
    simp only [List.mem_append, not_or] at hopen
    exact h.pending u (by simpa using hopening) hopen.1
  alive u hu hdropped := by
    simp only [List.mem_cons, not_or] at hdropped
    simpa [hdropped.1] using h.alive u hu hdropped.2
  closed u hu := by
    obtain rfl | hu := List.mem_cons.mp hu
    · simp
    · simp [h.closed u hu]
  top u hu := by
    have hne : u ≠ t := fun heq => htop (heq ▸ hu)
    simpa [hne] using h.top u hu
  kept := by
    have hkeep : ∀ u, .closing u ∈ done.filter (·.label ∉ dropped) → decide (u ≠ t) = true := by
      intro u hu
      apply decide_eq_true
      intro heq
      exact hclosing (heq ▸ (List.mem_filter.mp hu).1)
    have hkept := openAfter_filter (fun u => decide (u ≠ t)) hkeep h.kept
    rw [List.filter_filter, List.filter_filter] at hkept
    have hclosed : [Tag.closing t].filter (·.label ∉ t :: dropped) = [] := by simp [Tag.label]
    rw [List.filter_append, hclosed, List.append_nil]
    simp only [List.mem_cons, not_or, Bool.decide_and]
    exact hkept

/-- No tag stops the pass. -/
theorem Uncrossing.step {st : Crossings τ} {tag : Tag τ} {tags : List (Tag τ)}
    (h : Uncrossing done st) (hpaired : Paired (done ++ tag :: tags)) :
    ∃ st', uncross st tag = some st' ∧ Uncrossing (done ++ [tag]) st' := by
  obtain ⟨stack, dropped⟩ := st
  cases tag with
  | opening t => exact ⟨_, rfl, h.opening hpaired.before_opening⟩
  | closing t =>
      obtain ⟨hopening, hclosing⟩ := hpaired.before_closing
      have hmem : t ∈ stack := h.pending t hopening hclosing
      cases stack with
      | nil => simp at hmem
      | cons top stack =>
          by_cases htop : t = top
          · subst htop
            exact ⟨_, if_pos rfl, h.pop⟩
          · refine ⟨_, if_neg htop, h.drop ?_ hclosing⟩
            simpa using Ne.symm htop

/-- **What is left is nested.** -/
theorem Uncrossing.nested {st : Crossings τ} {tags : List (Tag τ)} (h : Uncrossing tags st)
    (hpaired : Paired tags) : Nested (tags.filter (·.label ∉ st.dropped)) := by
  obtain ⟨stack, dropped⟩ := st
  cases stack with
  | nil => exact nested_iff.mpr h.kept
  | cons top stack =>
      have hopening : .opening top ∈ tags := h.opened top List.mem_cons_self
      have hclosing : .closing top ∉ tags := h.alive top List.mem_cons_self (h.top top rfl)
      exact absurd (hpaired.closing_mem hopening) hclosing

end Step

end Stack

end JustEnough
