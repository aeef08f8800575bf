/-
Base64 by groups of three bytes.

Three bytes are a number of 24 bits, which is written as four digits to the base 64.  A
last group that is not full is filled up with zero bits; of its digits those that hold a
bit of its own are written, and a `=` stands for each of the others.

A text of digits and `=` signs need not be one that is written so: the bits that were
filled up have to be zero.  The texts for which they are, here called canonical, are
exactly the encodings (`canonical_iff`).
-/
import JustEnough.Lib.Strings

namespace JustEnough

namespace Base64

/-! ### Encoding -/

/-- The digits are the capital letters, the small ones, the numerals, `+` and `/`. -/
def digit (n : Nat) : UInt8 :=
  if n < 26 then UInt8.ofNat ('A'.toNat + n)
  else if n < 52 then UInt8.ofNat ('a'.toNat + (n - 26))
  else if n < 62 then UInt8.ofNat ('0'.toNat + (n - 52))
  else if n = 62 then byte '+'
  else byte '/'

/-- Three bytes as one number. -/
def group (a b c : UInt8) : Nat := a.toNat * 2 ^ 16 + b.toNat * 2 ^ 8 + c.toNat

/-- The four places of a number of 24 bits. -/
def places (n : Nat) : List Nat := [n / 2 ^ 18 % 64, n / 2 ^ 12 % 64, n / 2 ^ 6 % 64, n % 64]

def encode : Str → Str
  | [] => []
  | [a] => ((places (group a 0 0)).take 2).map digit ++ [byte '=', byte '=']
  | [a, b] => ((places (group a b 0)).take 3).map digit ++ [byte '=']
  | a :: b :: c :: rest => (places (group a b c)).map digit ++ encode rest

/-! ### Canonical texts -/

/-- `t` is made of the digits `ns` and of `pads` signs, for which the last digit has zero bits. -/
structure Padded (ns : List Nat) (pads : Nat) (t : Str) : Prop where
  text : t = ns.map digit ++ List.replicate pads (byte '=')
  digits : ∀ n ∈ ns, n < 64
  /-- The length is a multiple of four. -/
  groups : t.length % 4 = 0
  atMostTwo : pads ≤ 2
  /-- Two bits for each sign. -/
  unused : ∀ n, ns.getLast? = some n → n % 4 ^ pads = 0

def Canonical (t : Str) : Prop := ∃ ns pads, Padded ns pads t

/-- Signs alone are not canonical. -/
theorem Padded.pads_eq_zero {pads : Nat} {t : Str} (h : Padded [] pads t) : pads = 0 := by
  have hgroups := h.groups
  have htwo := h.atMostTwo
  rw [h.text] at hgroups
  simp only [List.map_nil, List.nil_append, List.length_replicate] at hgroups
  omega

/-- One more group in front. -/
theorem Padded.group {ns front : List Nat} {pads : Nat} {t : Str} (h : Padded ns pads t)
    (hfour : front.length = 4) (hdigits : ∀ n ∈ front, n < 64) :
    Padded (front ++ ns) pads (front.map digit ++ t) where
  text := by rw [h.text, List.map_append, List.append_assoc]
  digits := by
    intro n hn
    rcases List.mem_append.mp hn with hn | hn
    · exact hdigits n hn
    · exact h.digits n hn
  groups := by
    have hgroups := h.groups
    rw [List.length_append, List.length_map]
    omega
  atMostTwo := h.atMostTwo
  unused := by
    intro n hn
    by_cases hns : ns = []
    · subst hns
      rw [h.pads_eq_zero, Nat.pow_zero, Nat.mod_one]
    · obtain ⟨last, hlast⟩ := Option.ne_none_iff_exists'.mp (mt List.getLast?_eq_none_iff.mp hns)
      have hsame : some n = some last := by simpa [List.getLast?_append, hlast] using hn.symm
      obtain rfl := Option.some.inj hsame
      exact h.unused n hlast

/-- The four places are digits. -/
theorem places_lt (n : Nat) : ∀ m ∈ places n, m < 64 := by
  simp only [places, List.mem_cons, List.not_mem_nil, or_false]
  rintro m (rfl | rfl | rfl | rfl)
  all_goals omega

/-- The last digit that is written, if some are left out. -/
theorem getLast?_places (n : Nat) {pads : Nat} (hpads : pads ≤ 2) :
    ((places n).take (4 - pads)).getLast? = some (n / 64 ^ pads % 64) := by
  have hcases : pads = 0 ∨ pads = 1 ∨ pads = 2 := by omega
  rcases hcases with rfl | rfl | rfl
  · simp [places]
  · rfl
  · rfl

theorem canonical_encode (s : Str) : Canonical (encode s) := by
  induction s using encode.induct with
  | case1 => exact ⟨[], 0, by simp [encode], by simp, by simp [encode], by omega, by simp⟩
  | case2 a =>
      refine ⟨(places (group a 0 0)).take 2, 2, by simp [encode, List.replicate], ?_,
        by simp [encode, places], by omega, ?_⟩
      · exact fun n hn => places_lt _ n (List.mem_of_mem_take hn)
      · intro n hn
        have hlast := @getLast?_places (group a 0 0) 2 (by omega)
        obtain rfl := Option.some.inj (hlast.symm.trans hn)
        simp only [group, UInt8.toNat_zero]
        omega
  | case3 a b =>
      refine ⟨(places (group a b 0)).take 3, 1, by simp [encode], ?_,
        by simp [encode, places], by omega, ?_⟩
      · exact fun n hn => places_lt _ n (List.mem_of_mem_take hn)
      · intro n hn
        have hlast := @getLast?_places (group a b 0) 1 (by omega)
        obtain rfl := Option.some.inj (hlast.symm.trans hn)
        simp only [group, UInt8.toNat_zero]
        omega
  | case4 a b c rest ih =>
      obtain ⟨ns, pads, hpadded⟩ := ih
      exact ⟨_, pads, hpadded.group rfl (places_lt (group a b c))⟩

/-- Four digits are the places of three bytes. -/
theorem exists_group {p q r s : Nat} (hp : p < 64) (hq : q < 64) (hr : r < 64) (hs : s < 64) :
    ∃ a b c, places (group a b c) = [p, q, r, s] ∧ (r % 4 = 0 → s = 0 → c = 0) ∧
      (q % 16 = 0 → r = 0 → b = 0) := by
  have htoNat : ∀ n, n < 256 → (UInt8.ofNat n).toNat = n := by
    intro n hn
    rw [UInt8.toNat_ofNat']
    omega
  refine ⟨UInt8.ofNat (p * 4 + q / 16), UInt8.ofNat (q % 16 * 16 + r / 4),
    UInt8.ofNat (r % 4 * 64 + s), ?_, ?_, ?_⟩
  · have ha := htoNat (p * 4 + q / 16) (by omega)
    have hb := htoNat (q % 16 * 16 + r / 4) (by omega)
    have hc := htoNat (r % 4 * 64 + s) (by omega)
    simp only [places, group, ha, hb, hc, List.cons.injEq, and_true]
    omega
  · intro hr hs
    rw [hr, hs]
    rfl
  · intro hq hr
    rw [hq, hr]
    rfl

/-- **What is canonical is an encoding.** -/
theorem exists_encode {ns : List Nat} {pads : Nat} :
    ∀ {t : Str}, Padded ns pads t → ∃ s, encode s = t := by
  induction hn : ns.length using Nat.strong_induction_on generalizing ns with
  | _ n ih =>
      intro t h
      have hgroups := h.groups
      have htwo := h.atMostTwo
      rw [h.text, List.length_append, List.length_map, List.length_replicate] at hgroups
      match ns, h with
      | [], h =>
          obtain rfl := h.pads_eq_zero
          exact ⟨[], by rw [h.text]; rfl⟩
      | [p], h =>
          simp only [List.length_singleton] at hgroups
          omega
      | [p, q], h =>
          obtain rfl : pads = 2 := by
            simp only [List.length_cons, List.length_nil] at hgroups
            omega
          have hq : q % 16 = 0 := h.unused q rfl
          obtain ⟨a, b, c, hplaces, hc, hb⟩ := exists_group (h.digits p (by simp))
            (h.digits q (by simp)) (r := 0) (s := 0) (by omega) (by omega)
          obtain rfl := hc rfl rfl
          obtain rfl := hb hq rfl
          exact ⟨[a], by rw [h.text, encode, hplaces]; rfl⟩
      | [p, q, r], h =>
          obtain rfl : pads = 1 := by
            simp only [List.length_cons, List.length_nil] at hgroups
            omega
          have hr : r % 4 = 0 := h.unused r rfl
          obtain ⟨a, b, c, hplaces, hc, -⟩ := exists_group (h.digits p (by simp))
            (h.digits q (by simp)) (h.digits r (by simp)) (s := 0) (by omega)
          obtain rfl := hc hr rfl
          exact ⟨[a, b], by rw [h.text, encode, hplaces]; rfl⟩
      | p :: q :: r :: s :: ns, h =>
          have hrest : Padded ns pads (ns.map digit ++ List.replicate pads (byte '=')) := by
            refine ⟨rfl, fun n hn => h.digits n (by simp [hn]), ?_, htwo, ?_⟩
            · simp only [List.length_cons] at hgroups
              simp only [List.length_append, List.length_map, List.length_replicate]
              omega
            · intro last hlast
              exact h.unused last (by simp [List.getLast?_cons, hlast])
          have hlt : ns.length < n := by
            simp only [List.length_cons] at hn
            omega
          obtain ⟨rest, hencode⟩ := ih ns.length hlt rfl hrest
          obtain ⟨a, b, c, hplaces, -, -⟩ := exists_group (h.digits p (by simp))
            (h.digits q (by simp)) (h.digits r (by simp)) (h.digits s (by simp))
          exact ⟨a :: b :: c :: rest, by rw [h.text, encode, hplaces, hencode]; rfl⟩

/-- **The canonical texts are the encodings.** -/
theorem canonical_iff {t : Str} : Canonical t ↔ ∃ s, encode s = t := by
  constructor
  · rintro ⟨ns, pads, h⟩
    exact exists_encode h
  · rintro ⟨s, rfl⟩
    exact canonical_encode s

end Base64

end JustEnough
