/-
The tags of a text.

A tag goes from an opening mark to the closing mark that comes next, whatever stands in
between, and outside of a tag a closing mark is text like any other.  A scan that stops
in the middle of a tag says what it has of it, so a text may be scanned in parts; where
a part leaves nothing open, its tags and those of the rest stand one after the other.
-/
import Mathlib

namespace JustEnough.Markup

variable {α : Type} [DecidableEq α]

/-- The tags that end in a text, and what has been begun of another, before the text and after it. -/
def scan (opens closes : α) : Option (List α) → List α → List (List α) × Option (List α)
  | part, [] => ([], part)
  | none, c :: s => if c = opens then scan opens closes (some [c]) s else scan opens closes none s
  | some part, c :: s =>
    if c = closes then
      let rest := scan opens closes none s
      ((part ++ [c]) :: rest.1, rest.2)
    else scan opens closes (some (part ++ [c])) s

def tags (opens closes : α) (s : List α) : List (List α) := (scan opens closes none s).1

/-- Nothing is left open. -/
def Closed (opens closes : α) (s : List α) : Prop := (scan opens closes none s).2 = none

instance (opens closes : α) (s : List α) : Decidable (Closed opens closes s) :=
  inferInstanceAs (Decidable (_ = _))

variable {opens closes : α}

theorem scan_append (part : Option (List α)) (s t : List α) :
    scan opens closes part (s ++ t)
      = ((scan opens closes part s).1 ++ (scan opens closes (scan opens closes part s).2 t).1,
          (scan opens closes (scan opens closes part s).2 t).2) := by
  induction s generalizing part with
  | nil => simp [scan]
  | cons c s ih =>
      cases part with
      | none =>
          by_cases hopens : c = opens
          · simp [scan, hopens, ih]
          · simp [scan, hopens, ih]
      | some part =>
          by_cases hcloses : c = closes
          · simp [scan, hcloses, ih]
          · simp [scan, hcloses, ih]

theorem tags_append {s : List α} (h : Closed opens closes s) (t : List α) :
    tags opens closes (s ++ t) = tags opens closes s ++ tags opens closes t := by
  rw [Closed] at h
  rw [tags, scan_append, h]
  rfl

theorem Closed.append {s t : List α} (hs : Closed opens closes s) (ht : Closed opens closes t) :
    Closed opens closes (s ++ t) := by
  rw [Closed] at hs
  rw [Closed, scan_append, hs]
  exact ht

/-- A closing mark leaves nothing open, whatever is before it. -/
theorem closed_concat (hne : opens ≠ closes) (s : List α) : Closed opens closes (s ++ [closes]) := by
  rw [Closed, scan_append]
  cases (scan opens closes none s).2 with
  | none => simp [scan, hne.symm]
  | some part => simp [scan]

theorem scan_text {s : List α} (h : opens ∉ s) : scan opens closes none s = ([], none) := by
  induction s with
  | nil => simp [scan]
  | cons c s ih =>
      obtain ⟨hc, hs⟩ : opens ≠ c ∧ opens ∉ s := by simpa using h
      simp [scan, hc.symm, ih hs]

theorem tags_text {s : List α} (h : opens ∉ s) : tags opens closes s = [] := by
  rw [tags, scan_text h]

theorem closed_text {s : List α} (h : opens ∉ s) : Closed opens closes s := by
  rw [Closed, scan_text h]

/-- A part of a tag that has no closing mark. -/
theorem scan_part {part s : List α} (h : closes ∉ s) :
    scan opens closes (some part) s = ([], some (part ++ s)) := by
  induction s generalizing part with
  | nil => simp [scan]
  | cons c s ih =>
      obtain ⟨hc, hs⟩ : closes ≠ c ∧ closes ∉ s := by simpa using h
      simp [scan, hc.symm, ih hs]

/-- One tag and nothing else. -/
theorem scan_tag {s : List α} (h : closes ∉ s) :
    scan opens closes none (opens :: (s ++ [closes])) = ([opens :: (s ++ [closes])], none) := by
  rw [scan, if_pos rfl, scan_append, scan_part h]
  simp [scan]

/-- Every opening mark is in a tag. -/
theorem count_scan (part : Option (List α)) (s : List α) :
    (scan opens closes part s).1.flatten.count opens
        + ((scan opens closes part s).2.getD []).count opens
      = (part.getD []).count opens + s.count opens := by
  induction s generalizing part with
  | nil => simp [scan]
  | cons c s ih =>
      cases part with
      | none =>
          by_cases hopens : c = opens
          · have hrest := ih (some [c])
            simp [scan, hopens] at hrest ⊢
            omega
          · have hrest := ih none
            simp [scan, hopens] at hrest ⊢
            omega
      | some part =>
          by_cases hcloses : c = closes
          · have hrest := ih none
            simp [scan, hcloses, List.count_cons] at hrest ⊢
            omega
          · have hrest := ih (some (part ++ [c]))
            simp [scan, hcloses, List.count_cons] at hrest ⊢
            omega

theorem count_tags {s : List α} (h : Closed opens closes s) :
    (tags opens closes s).flatten.count opens = s.count opens := by
  have hcount := @count_scan _ _ opens closes none s
  rw [Closed] at h
  rw [h] at hcount
  simpa [tags] using hcount

/-! ### The order of rows -/

/-- Two sequences that differ in the order of their rows, if they differ at all. -/
def SameUpToRows {τ : Type} (IsRow : List τ → Prop) (s t : List τ) : Prop :=
  ∃ (before after : List τ) (rows rows' : List (List τ)),
    (∀ row ∈ rows, IsRow row) ∧ rows.Perm rows' ∧
    s = before ++ rows.flatten ++ after ∧ t = before ++ rows'.flatten ++ after

theorem SameUpToRows.perm {τ : Type} {IsRow : List τ → Prop} {s t : List τ}
    (h : SameUpToRows IsRow s t) : s.Perm t := by
  obtain ⟨before, after, rows, rows', -, hperm, rfl, rfl⟩ := h
  exact (hperm.flatten.append_left before).append_right after

end JustEnough.Markup
