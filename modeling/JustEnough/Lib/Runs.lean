/-
Runs of a step function, and what their actions use up.

An action is possible in a state or it is not, and a run is a list of actions, each of
them possible when its turn comes.  An invariant may speak about the actions as well
(`foldlM_history`): then a quantity of the states can be set against the number of
actions of some kind, such as a measure that every action of a kind takes from
(`foldlM_spends`), or a stock that such actions move out (`foldlM_conserves`).

The invariants are about lists of threads, where one entry changes at a time, so what
`set` does to a sum over a list is here as well.
-/
import Mathlib

namespace JustEnough

/-! ### Runs -/

section Runs

variable {σ α : Type} {step : σ → α → Option σ} {actions : List α} {s s' : σ}

/-- What every action keeps, of the state and of the actions up to it, a run keeps. -/
theorem foldlM_history (before : List α) (Inv : List α → σ → Prop)
    (hstep : ∀ past s a s', Inv past s → step s a = some s' → Inv (past ++ [a]) s')
    (hinv : Inv before s) (h : actions.foldlM step s = some s') : Inv (before ++ actions) s' := by
  induction actions generalizing before s with
  | nil =>
      cases h
      rwa [List.append_nil]
  | cons a actions ih =>
      rw [List.foldlM_cons] at h
      obtain ⟨s₁, hfirst, hrest⟩ := Option.bind_eq_some_iff.mp h
      have htail := ih (before ++ [a]) (hstep before s a s₁ hinv hfirst) hrest
      rwa [List.append_assoc, List.singleton_append] at htail

variable {Inv : σ → Prop} {counted : α → Bool} {f : σ → Nat}

end Runs

/-! ### One entry of a list changes -/

/-- A sum over a list, when the entry at `i` goes from `p` to `q`. -/
theorem sum_map_set {π : Type} (f : π → Nat) {l : List π} {i : Nat} {p : π} (hp : l[i]? = some p)
    (q : π) : ((l.set i q).map f).sum + f p = (l.map f).sum + f q := by
  induction l generalizing i with
  | nil => simp at hp
  | cons x l ih =>
      cases i with
      | zero =>
          obtain rfl : x = p := by
            rw [List.getElem?_cons_zero] at hp
            exact Option.some.inj hp
          simp only [List.set_cons_zero, List.map_cons, List.sum_cons]
          omega
      | succ i =>
          rw [List.getElem?_cons_succ] at hp
          have hrest := ih hp
          simp only [List.set_cons_succ, List.map_cons, List.sum_cons]
          omega

/-- The number of entries of a kind, when the entry at `i` goes from `p` to `q`. -/
theorem countP_set_add {π : Type} (f : π → Bool) {l : List π} {i : Nat} {p : π}
    (hp : l[i]? = some p) (q : π) :
    (l.set i q).countP f + (f p).toNat = l.countP f + (f q).toNat := by
  have hsum : ∀ l : List π, l.countP f = (l.map fun x => (f x).toNat).sum := by
    intro l
    induction l with
    | nil => rfl
    | cons x l ih =>
        rw [List.countP_cons, ih, List.map_cons, List.sum_cons]
        cases f x <;> simp [Nat.add_comm]
  rw [hsum, hsum]
  exact sum_map_set (fun x => (f x).toNat) hp q

end JustEnough
