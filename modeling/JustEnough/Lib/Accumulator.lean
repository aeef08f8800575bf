/-
An `int` that takes up digits.

A sum or a shift has a meaning while its result is in the range of an `int`, a shift while
its count is below the width, and one to the left while its operand is not negative; here
each operation fails where it has none.

An accumulator is shifted for every digit that comes in, and the digit is added below.
What it holds is the number the digits write, so the whole run has a meaning exactly when
that number is in range: the numbers before it are no larger (`le_number`).

Whether a number is below `m` times a power of the base can be seen from its digits
(`number_lt_iff`): the digit in that place is below `m`, and there is nothing in front of
it.
-/
import JustEnough.Lib.Strings

namespace JustEnough

/-! ### Arithmetic that can fail -/

/-- Why an operation has no meaning. -/
inductive IntFault
  /-- The result is not an `int`, or a negative number is shifted to the left. -/
  | range
  /-- A shift by less than 0 or by more than 31. -/
  | shiftCount
  deriving DecidableEq, Repr

namespace CInt

def inRange (n : Int) : Except IntFault Int :=
  if -2 ^ 31 ≤ n ∧ n < 2 ^ 31 then .ok n else .error .range

/-- `a + b` -/
def add (a b : Int) : Except IntFault Int := inRange (a + b)

/-- `val << count` -/
def shiftLeft (val count : Int) : Except IntFault Int :=
  if ¬(0 ≤ count ∧ count < 32) then .error .shiftCount
  else if val < 0 then .error .range
  else inRange (val * 2 ^ count.toNat)

/-- `val >> count`, which keeps the sign. -/
def shiftRight (val count : Int) : Except IntFault Int :=
  if ¬(0 ≤ count ∧ count < 32) then .error .shiftCount else .ok (val / 2 ^ count.toNat)

/-- `(val << count) + digit` -/
def push (val count digit : Int) : Except IntFault Int := do
  add (← shiftLeft val count) digit

section Nat

variable {val count : Nat}

theorem inRange_natCast (n : Nat) :
    inRange n = if n < 2 ^ 31 then .ok (n : Int) else .error .range := by
  unfold inRange
  by_cases h : n < 2 ^ 31
  · rw [if_pos h, if_pos (by omega)]
  · rw [if_neg h, if_neg (by omega)]

theorem shiftLeft_natCast (h : count < 32) :
    shiftLeft val count
      = if val * 2 ^ count < 2 ^ 31 then .ok ((val * 2 ^ count : Nat) : Int) else .error .range := by
  rw [shiftLeft, if_neg (by omega), if_neg (by omega), Int.toNat_natCast, ← inRange_natCast]
  push_cast
  rfl

theorem shiftRight_natCast (h : count < 32) :
    shiftRight val count = .ok ((val / 2 ^ count : Nat) : Int) := by
  rw [shiftRight, if_neg (by omega), Int.toNat_natCast]
  push_cast
  rfl

/-- The shift alone does not leave the range before the sum does. -/
theorem push_natCast (h : count < 32) (digit : Nat) :
    push val count digit
      = if val * 2 ^ count + digit < 2 ^ 31 then .ok ((val * 2 ^ count + digit : Nat) : Int)
        else .error .range := by
  rw [push, shiftLeft_natCast h]
  by_cases hshift : val * 2 ^ count < 2 ^ 31
  · rw [if_pos hshift, ok_bind, add, ← inRange_natCast]
    push_cast
    rfl
  · rw [if_neg hshift, error_bind, if_neg (by omega)]

end Nat

end CInt

/-! ### The number of a run of digits -/

/-- What an accumulator holds after more digits of `bits` bits. -/
def number (bits start : Nat) (digits : List Nat) : Nat :=
  digits.foldl (fun n digit => n * 2 ^ bits + digit) start

section Number

variable {bits start : Nat} {digits : List Nat}

@[simp] theorem number_nil (bits start : Nat) : number bits start [] = start := rfl

@[simp] theorem number_cons (bits start digit : Nat) (digits : List Nat) :
    number bits start (digit :: digits) = number bits (start * 2 ^ bits + digit) digits := rfl

/-- No digit makes the number smaller. -/
theorem le_number (bits start : Nat) (digits : List Nat) : start ≤ number bits start digits := by
  induction digits generalizing start with
  | nil => exact Nat.le_refl start
  | cons digit digits ih =>
      have hpush : start ≤ start * 2 ^ bits + digit :=
        Nat.le_add_right_of_le (Nat.le_mul_of_pos_right start (Nat.two_pow_pos bits))
      exact Nat.le_trans hpush (ih _)

theorem number_eq_ofDigits (bits : Nat) (digits : List Nat) :
    number bits 0 digits = Nat.ofDigits (2 ^ bits) digits.reverse := by
  rw [Nat.ofDigits_eq_foldr, List.foldr_reverse, number]
  congr 1
  funext n digit
  rw [Nat.cast_id]
  ring

/-! ### Numbers below a bound -/

theorem ofDigits_eq_zero_iff {base : Nat} (hbase : 0 < base) {digits : List Nat} :
    Nat.ofDigits base digits = 0 ↔ ∀ d ∈ digits, d = 0 := by
  induction digits with
  | nil => simp
  | cons digit digits ih =>
      have hne : base ≠ 0 := Nat.ne_of_gt hbase
      simp [Nat.ofDigits_cons, hne, ih]

/-- The lowest digit comes first. -/
theorem ofDigits_lt_iff {base m : Nat} (hm : 0 < m) (hmb : m ≤ base) (k : Nat) {digits : List Nat}
    (hdigits : ∀ d ∈ digits, d < base) :
    Nat.ofDigits base digits < m * base ^ k ↔
      (∀ d ∈ digits[k]?, d < m) ∧ ∀ d ∈ digits.drop (k + 1), d = 0 := by
  have hbase : 0 < base := Nat.lt_of_lt_of_le hm hmb
  induction k generalizing digits with
  | zero =>
      cases digits with
      | nil => simpa using hm
      | cons digit digits =>
          rw [Nat.ofDigits_cons, Nat.pow_zero, Nat.mul_one]
          simp only [List.getElem?_cons_zero, Option.mem_some_iff, forall_eq', List.drop_succ_cons,
            List.drop_zero, ← ofDigits_eq_zero_iff hbase]
          constructor
          · intro h
            have hzero : Nat.ofDigits base digits = 0 := by
              by_contra hne
              have hle := Nat.le_mul_of_pos_right base (Nat.pos_of_ne_zero hne)
              omega
            rw [hzero] at h
            exact ⟨by simpa using h, hzero⟩
          · intro ⟨hdigit, hzero⟩
            rw [hzero]
            simpa using hdigit
  | succ k ih =>
      cases digits with
      | nil =>
          have hpos : 0 < m * base ^ (k + 1) := Nat.mul_pos hm (Nat.pow_pos hbase)
          simpa using hpos
      | cons digit digits =>
          have hdigit : digit < base := hdigits digit (by simp)
          have hrest := @ih digits fun d hd => hdigits d (List.mem_cons_of_mem digit hd)
          rw [List.getElem?_cons_succ, List.drop_succ_cons]
          refine Iff.trans ?_ hrest
          rw [Nat.ofDigits_cons, Nat.pow_succ, ← Nat.mul_assoc, Nat.mul_comm _ base]
          constructor
          · intro h
            by_contra hge
            have hle := Nat.mul_le_mul_left base (Nat.le_of_not_lt hge)
            omega
          · intro h
            have hle := Nat.mul_le_mul_left base (Nat.succ_le_of_lt h)
            rw [Nat.mul_succ] at hle
            omega

/-- The digit with `k` digits after it is below `m`, and those before it are zero. -/
def Below (m k : Nat) (digits : List Nat) : Prop :=
  (∀ d ∈ digits.reverse[k]?, d < m) ∧ ∀ d ∈ digits.reverse.drop (k + 1), d = 0

instance (m k : Nat) (digits : List Nat) : Decidable (Below m k digits) :=
  inferInstanceAs (Decidable (_ ∧ _))

/-- **The digits show how large a number is.** -/
theorem number_lt_iff {m : Nat} (hm : 0 < m) (hmb : m ≤ 2 ^ bits) (k : Nat)
    (hdigits : ∀ d ∈ digits, d < 2 ^ bits) :
    number bits 0 digits < m * (2 ^ bits) ^ k ↔ Below m k digits := by
  rw [number_eq_ofDigits]
  apply ofDigits_lt_iff hm hmb
  intro d hd
  exact hdigits d (List.mem_reverse.mp hd)

end Number

end JustEnough
