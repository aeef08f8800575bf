/-
The standard-library strings and streams the server is written with.

A `std::string` is a list of bytes.  Positions are natural numbers and `npos` is
`none`, so the two places where C++ lets `npos` take part in arithmetic — `npos + k`
wrapping round to `k - 1`, and a count of `npos - start` running to the end of the
string — are spelled out by `past` and `substr` instead of being hidden in a
modulus.  An input stream over a string is the bytes not yet read together with
its `good()` bit; `getline` and `read` follow the standard at the end of the
input, which is where `split` and `getCRLFLine` get their behaviour from.

Nothing here mentions the server.
-/
import Mathlib

namespace JustEnough

/-- A byte string, `std::string`. -/
abbrev Str := List UInt8

/-- The byte of an ASCII character. -/
def byte (c : Char) : UInt8 := UInt8.ofNat c.toNat

/-- The bytes of a string literal. -/
def lit (s : String) : Str := s.toList.map byte

/-- What a call can end with instead of a value. -/
inductive Fault
  | outOfRange
  | invalidArgument
  | systemError
  /-- The standard gives the step no meaning (a null pointer, an index past the end). -/
  | undefinedBehaviour
  deriving DecidableEq, Repr

section Except

variable {ε α β : Type}

@[simp] theorem ok_bind (a : α) (f : α → Except ε β) : (Except.ok a >>= f) = f a := rfl

@[simp] theorem error_bind (e : ε) (f : α → Except ε β) :
    ((Except.error e : Except ε α) >>= f) = .error e := rfl

end Except

/-- `s.c_str()`, read as a C string. -/
def cString (s : Str) : Str := s.takeWhile (· ≠ 0)

theorem cString_of_not_mem {s : Str} (h : 0 ∉ s) : cString s = s :=
  List.takeWhile_eq_self_iff.mpr fun c hc => by simpa using ne_of_mem_of_not_mem hc h

/-- What follows the first NUL byte is not seen. -/
theorem cString_append_of_mem {s : Str} (h : 0 ∈ s) (t : Str) : cString (s ++ t) = cString s := by
  obtain ⟨before, after, rfl, hnot⟩ := List.eq_append_cons_of_mem h
  have hbefore : ∀ c ∈ before, decide (c ≠ 0) = true := fun c hc => by
    simpa using ne_of_mem_of_not_mem hc hnot
  rw [cString, cString, List.append_assoc, List.takeWhile_append_of_pos hbefore,
    List.takeWhile_append_of_pos hbefore]
  rfl

theorem cString_append {s : Str} (h : 0 ∉ s) (t : Str) : cString (s ++ t) = s ++ cString t :=
  List.takeWhile_append_of_pos fun c hc => by simpa using ne_of_mem_of_not_mem hc h

/-! ### Searching and cutting -/

/-- The first position of `pat` in `s`, `s.find(pat)`. -/
def findFrom (pat : Str) : Str → Option Nat
  | [] => if pat = [] then some 0 else none
  | c :: cs => if pat.isPrefixOf (c :: cs) then some 0 else (findFrom pat cs).map (· + 1)

/-- `s.find(pat, pos)`. -/
def find (s pat : Str) (pos : Nat) : Option Nat :=
  if pos ≤ s.length then (findFrom pat (s.drop pos)).map (· + pos) else none

/-- `pos + k` for a position that may be `npos`; `npos` is the largest `size_t`, so it wraps. -/
def past (pos : Option Nat) (k : Nat) : Nat :=
  match pos with
  | some p => p + k
  | none => k - 1

/--
`s.substr(pos, stop - pos)`.  A `stop` of `npos`, or one before `pos`, makes the
unsigned count larger than any string, and `substr` cuts such a count at the end.
-/
def substr (s : Str) (pos : Nat) (stop : Option Nat) : Except Fault Str :=
  if pos ≤ s.length then
    match stop with
    | some e => .ok (if pos ≤ e then (s.drop pos).take (e - pos) else s.drop pos)
    | none => .ok (s.drop pos)
  else .error .outOfRange

/-- `s[i]`, which has a meaning only inside the string. -/
def charAt (s : Str) (i : Nat) : Except Fault UInt8 :=
  match s[i]? with
  | some c => .ok c
  | none => .error .undefinedBehaviour

/-- `s[i]` where `i` may be the end: a zero byte can be read there. -/
def charOrEnd (s : Str) (i : Nat) : Except Fault UInt8 :=
  if i = s.length then .ok 0 else charAt s i

/-- `s.size() - 1` in `size_t`, which wraps for an empty string. -/
def lastIndex (s : Str) : Nat := if s = [] then 2 ^ 64 - 1 else s.length - 1

/-- `s.resize(n)` to no more than it has; a caller that only cuts off does not ask for more. -/
def shrink (s : Str) (n : Nat) : Except Fault Str :=
  if n ≤ s.length then .ok (s.take n) else .error .outOfRange

/-- The last character can be read where there is one. -/
theorem charAt_lastIndex {s : Str} {c : UInt8} (h : s.getLast? = some c) :
    charAt s (lastIndex s) = .ok c := by
  have hne : s ≠ [] := by
    rintro rfl
    cases h
  rw [List.getLast?_eq_getElem?] at h
  rw [charAt, lastIndex, if_neg hne, h]

theorem charAt_lastIndex_nil : charAt [] (lastIndex []) = .error .undefinedBehaviour := rfl

theorem shrink_lastIndex {s : Str} (h : s ≠ []) : shrink s (lastIndex s) = .ok s.dropLast := by
  have hle : s.length - 1 ≤ s.length := Nat.sub_le _ _
  rw [lastIndex, if_neg h, shrink, if_pos hle, List.dropLast_eq_take]

/-- Only the position matters for whether `substr` throws. -/
theorem exists_substr {s : Str} {pos : Nat} (h : pos ≤ s.length) (stop : Option Nat) :
    ∃ t, substr s pos stop = .ok t := by
  unfold substr
  rw [if_pos h]
  split <;> exact ⟨_, rfl⟩

@[simp] theorem past_some (p k : Nat) : past (some p) k = p + k := rfl

@[simp] theorem past_none (k : Nat) : past none k = k - 1 := rfl

theorem findFrom_append {c : UInt8} {ps : Str} :
    ∀ {a : Str}, c ∉ a → ∀ b, findFrom (c :: ps) (a ++ (c :: ps ++ b)) = some a.length := by
  intro a
  induction a with
  | nil => intro _ b; simp [findFrom]
  | cons x rest ih =>
      intro hc b
      have hx : c ≠ x := fun h => hc (by simp [h])
      have hrest : c ∉ rest := fun h => hc (by simp [h])
      simp only [List.cons_append, findFrom]
      rw [if_neg (by simp [hx]), ← List.cons_append, ih hrest b]
      simp

/-- A delimiter of two different bytes may share either of them with the text before it. -/
theorem findFrom_pair {c d : UInt8} (hcd : c ≠ d) {line : Str} (hline : ¬[c, d] <:+: line)
    (rest : Str) : findFrom [c, d] (line ++ ([c, d] ++ rest)) = some line.length := by
  induction line with
  | nil => simp [findFrom]
  | cons x line ih =>
      have hlater : ¬[c, d] <:+: line :=
        fun h => hline (h.trans (List.suffix_cons x line).isInfix)
      have hhere : ¬[c, d].isPrefixOf (x :: (line ++ ([c, d] ++ rest))) = true := by
        rw [List.isPrefixOf_iff_prefix]
        intro h
        obtain ⟨rfl, hnext⟩ := List.cons_prefix_cons.mp h
        cases line with
        | nil => exact hcd (List.cons_prefix_cons.mp hnext).1.symm
        | cons y line =>
            obtain ⟨rfl, -⟩ := List.cons_prefix_cons.mp hnext
            exact hline (List.prefix_append [c, d] line).isInfix
      rw [List.cons_append, findFrom, if_neg hhere, ih hlater]
      rfl

/-- A position found is a position where the pattern stands. -/
theorem findFrom_spec {pat : Str} :
    ∀ {s : Str} {n : Nat}, findFrom pat s = some n → ∃ b, s.drop n = pat ++ b ∧ n ≤ s.length := by
  intro s
  induction s with
  | nil =>
      intro n h
      simp only [findFrom] at h
      split at h
      · rename_i hp
        cases h
        exact ⟨[], by simp [hp], by simp⟩
      · cases h
  | cons c cs ih =>
      intro n h
      simp only [findFrom] at h
      split at h
      · rename_i hp
        cases h
        obtain ⟨b, hb⟩ := List.isPrefixOf_iff_prefix.mp hp
        exact ⟨b, by simp [hb], by simp⟩
      · cases hf : findFrom pat cs with
        | none => simp [hf] at h
        | some m =>
            obtain ⟨b, hb, hm⟩ := ih hf
            simp only [hf, Option.map_some, Option.some.injEq] at h
            subst h
            exact ⟨b, by simpa using hb, by simpa using hm⟩

theorem findFrom_length {pat s : Str} {n : Nat} (h : findFrom pat s = some n) :
    n + pat.length ≤ s.length := by
  obtain ⟨b, hb, hn⟩ := findFrom_spec h
  have hlen := congrArg List.length hb
  rw [List.length_drop, List.length_append] at hlen
  omega

/-- A pattern that is there is found. -/
theorem findFrom_of_infix {pat s : Str} (h : pat <:+: s) : ∃ n, findFrom pat s = some n := by
  induction s with
  | nil => exact ⟨0, by simp [findFrom, List.infix_nil.mp h]⟩
  | cons c cs ih =>
      by_cases hhere : pat.isPrefixOf (c :: cs) = true
      · exact ⟨0, by rw [findFrom, if_pos hhere]⟩
      · rcases List.infix_cons_iff.mp h with hhead | hlater
        · exact absurd (List.isPrefixOf_iff_prefix.mpr hhead) hhere
        · obtain ⟨n, hn⟩ := ih hlater
          exact ⟨n + 1, by rw [findFrom, if_neg hhere, hn]; rfl⟩

/-- What is found in the front of a string is what is found in the whole. -/
theorem findFrom_front {pat : Str} :
    ∀ {s : Str} {n : Nat}, findFrom pat s = some n → ∀ t, findFrom pat (s ++ t) = some n := by
  intro s
  induction s with
  | nil =>
      intro n h t
      by_cases hpat : pat = []
      · obtain rfl : 0 = n := by simpa [findFrom, hpat] using h
        subst hpat
        cases t <;> rfl
      · simp [findFrom, hpat] at h
  | cons c cs ih =>
      intro n h t
      have hlen := findFrom_length h
      simp only [findFrom] at h
      simp only [List.cons_append, findFrom]
      by_cases hhere : pat.isPrefixOf (c :: cs) = true
      · have hmore : pat.isPrefixOf (c :: (cs ++ t)) = true := by
          rw [List.isPrefixOf_iff_prefix] at hhere ⊢
          exact hhere.trans (List.prefix_append (c :: cs) t)
        rw [if_pos hmore]
        rwa [if_pos hhere] at h
      · have hmore : ¬pat.isPrefixOf (c :: (cs ++ t)) = true := by
          rw [List.isPrefixOf_iff_prefix] at hhere ⊢
          intro hlong
          refine hhere (List.prefix_of_prefix_length_le hlong (List.prefix_append (c :: cs) t) ?_)
          omega
        rw [if_neg hhere] at h
        obtain ⟨m, hm, rfl⟩ := Option.map_eq_some_iff.mp h
        rw [if_neg hmore, ih hm t]
        rfl

/-- A byte does not stand before the first position where it is found. -/
theorem findFrom_byte_not_mem {c : UInt8} :
    ∀ {s : Str} {n : Nat}, findFrom [c] s = some n → c ∉ s.take n := by
  intro s
  induction s with
  | nil => intro n h; simp
  | cons x s ih =>
      intro n h
      simp only [findFrom] at h
      by_cases hx : [c].isPrefixOf (x :: s) = true
      · rw [if_pos hx] at h
        cases h
        simp
      · rw [if_neg hx] at h
        obtain ⟨m, hm, rfl⟩ := Option.map_eq_some_iff.mp h
        have hne : c ≠ x := by simpa using hx
        simpa [hne] using ih hm

theorem find_le {s pat : Str} {pos n : Nat} (h : find s pat pos = some n) :
    pos ≤ n ∧ n ≤ s.length := by
  unfold find at h
  split at h
  · rename_i hpos
    cases hf : findFrom pat (s.drop pos) with
    | none => simp [hf] at h
    | some m =>
        obtain ⟨-, -, hm⟩ := findFrom_spec hf
        simp only [hf, Option.map_some, Option.some.injEq] at h
        rw [List.length_drop] at hm
        omega
  · cases h

theorem find_spec {s pat : Str} {pos n : Nat} (h : find s pat pos = some n) :
    ∃ b, s.drop n = pat ++ b := by
  unfold find at h
  split at h
  · cases hf : findFrom pat (s.drop pos) with
    | none => simp [hf] at h
    | some m =>
        obtain ⟨b, hb, -⟩ := findFrom_spec hf
        simp only [hf, Option.map_some, Option.some.injEq] at h
        subst h
        exact ⟨b, by rw [← hb, List.drop_drop, Nat.add_comm]⟩
  · cases h

/-- A delimiter in a string either ends its first piece or stands further on. -/
theorem append_cons_eq_append_cons {c : UInt8} {a b u v : Str} (ha : c ∉ a)
    (h : a ++ c :: b = u ++ c :: v) : u = a ∧ v = b ∨ ∃ t, u = a ++ c :: t ∧ b = t ++ c :: v := by
  rcases List.append_eq_append_iff.mp h with ⟨t, hu, hb⟩ | ⟨t, hau, hv⟩
  · cases t with
    | nil => left; simp_all
    | cons x t =>
        obtain ⟨rfl, rfl⟩ := List.cons.inj hb
        exact Or.inr ⟨t, hu, rfl⟩
  · cases t with
    | nil => left; simp_all
    | cons x t =>
        obtain ⟨rfl, -⟩ := List.cons.inj hv
        exact absurd (by simp [hau]) ha

/-! ### Reading past what has been consumed

Every search the server makes in a long string starts where an earlier one ended.
Written as `done ++ todo` with the position at `done.length`, a search or a cut is
one of `todo` alone.
-/

theorem find_at (done todo pat : Str) :
    find (done ++ todo) pat done.length = (findFrom pat todo).map (· + done.length) := by
  simp [find]

theorem substr_at (done mid tail : Str) :
    substr (done ++ (mid ++ tail)) done.length (some (mid.length + done.length)) = .ok mid := by
  simp [substr]

/-! ### The first place of a pattern -/

/-- `pat` stands at position `n` of `s`. -/
def StandsAt (pat s : Str) (n : Nat) : Prop := pat <+: s.drop n

instance (pat s : Str) (n : Nat) : Decidable (StandsAt pat s n) :=
  inferInstanceAs (Decidable (pat <+: s.drop n))

theorem standsAt_cons_succ {pat s : Str} {c : UInt8} {n : Nat} :
    StandsAt pat (c :: s) (n + 1) ↔ StandsAt pat s n := Iff.rfl

theorem standsAt_byte {s : Str} {c : UInt8} {n : Nat} : StandsAt [c] s n ↔ s[n]? = some c := by
  rw [StandsAt, List.singleton_prefix_iff_head?_eq_some, List.head?_drop]

theorem StandsAt.length_le {pat s : Str} {n : Nat} (h : StandsAt pat s n) (hpat : pat ≠ []) :
    n + pat.length ≤ s.length := by
  have hlen := List.IsPrefix.length_le h
  have hpos := List.length_pos_iff.mpr hpat
  rw [List.length_drop] at hlen
  omega

/-- **`find` gives the first position where the pattern stands.** -/
theorem findFrom_eq_some_iff {pat s : Str} {n : Nat} :
    findFrom pat s = some n ↔
      n ≤ s.length ∧ StandsAt pat s n ∧ ∀ j < n, ¬StandsAt pat s j := by
  induction s generalizing n with
  | nil =>
      by_cases hpat : pat = []
      · cases n <;> simp [findFrom, hpat, StandsAt]
      · simp [findFrom, hpat, StandsAt]
  | cons c s ih =>
      by_cases hhere : pat.isPrefixOf (c :: s) = true
      · have hstands : StandsAt pat (c :: s) 0 := List.isPrefixOf_iff_prefix.mp hhere
        rw [findFrom, if_pos hhere]
        constructor
        · intro h
          cases h
          exact ⟨Nat.zero_le _, hstands, fun j hj => absurd hj (Nat.not_lt_zero j)⟩
        · rintro ⟨-, -, hfirst⟩
          by_cases hn : n = 0
          · rw [hn]
          · exact absurd hstands (hfirst 0 (Nat.pos_of_ne_zero hn))
      · have hnot : ¬StandsAt pat (c :: s) 0 := fun h => hhere (List.isPrefixOf_iff_prefix.mpr h)
        rw [findFrom, if_neg hhere]
        cases n with
        | zero => simp [hnot]
        | succ n =>
            have hbefore : (∀ j < n + 1, ¬StandsAt pat (c :: s) j) ↔ ∀ j < n, ¬StandsAt pat s j := by
              constructor
              · intro h j hj
                exact h (j + 1) (Nat.succ_lt_succ hj)
              · intro h j hj
                cases j with
                | zero => exact hnot
                | succ j => exact h j (Nat.lt_of_succ_lt_succ hj)
            rw [hbefore, standsAt_cons_succ]
            simp [ih]

theorem find_eq_some_iff {pat s : Str} {a n : Nat} :
    find s pat a = some n ↔
      a ≤ n ∧ n ≤ s.length ∧ StandsAt pat s n ∧ ∀ j, a ≤ j → j < n → ¬StandsAt pat s j := by
  have hshift : ∀ k, StandsAt pat (s.drop a) k ↔ StandsAt pat s (a + k) := by
    intro k
    rw [StandsAt, StandsAt, List.drop_drop]
  unfold find
  split
  · rename_i ha
    rw [Option.map_eq_some_iff]
    constructor
    · rintro ⟨k, hk, rfl⟩
      obtain ⟨hle, hstands, hfirst⟩ := findFrom_eq_some_iff.mp hk
      rw [List.length_drop] at hle
      rw [hshift] at hstands
      refine ⟨by omega, by omega, by rwa [Nat.add_comm], fun j haj hj => ?_⟩
      have hnot := hfirst (j - a) (by omega)
      rwa [hshift, Nat.add_sub_cancel' haj] at hnot
    · rintro ⟨han, hle, hstands, hfirst⟩
      refine ⟨n - a, findFrom_eq_some_iff.mpr ⟨?_, ?_, fun j hj => ?_⟩, Nat.sub_add_cancel han⟩
      · rw [List.length_drop]
        omega
      · rwa [hshift, Nat.add_sub_cancel' han]
      · rw [hshift]
        exact hfirst (a + j) (by omega) (by omega)
  · rename_i ha
    constructor
    · intro h
      cases h
    · rintro ⟨han, hle, -⟩
      omega

/-- A pattern that stands somewhere from `a` on is found, there or before. -/
theorem exists_find {pat s : Str} {a n : Nat} (ha : a ≤ n) (hpat : pat ≠ [])
    (h : StandsAt pat s n) : ∃ m, find s pat a = some m ∧ m ≤ n := by
  have hlen := h.length_le hpat
  classical
  have hex : ∃ m, a ≤ m ∧ StandsAt pat s m := ⟨n, ha, h⟩
  obtain ⟨hle, hstands⟩ := Nat.find_spec hex
  have hmin : Nat.find hex ≤ n := Nat.find_min' hex ⟨ha, h⟩
  refine ⟨Nat.find hex, find_eq_some_iff.mpr ⟨hle, by omega, hstands, fun j haj hj => ?_⟩, hmin⟩
  exact fun hj' => Nat.find_min hex hj ⟨haj, hj'⟩

theorem find_eq_none_iff {pat s : Str} {a : Nat} (hpat : pat ≠ []) :
    find s pat a = none ↔ ∀ n, a ≤ n → ¬StandsAt pat s n := by
  constructor
  · intro hnone n ha h
    obtain ⟨m, hm, -⟩ := exists_find ha hpat h
    rw [hnone] at hm
    cases hm
  · intro hno
    cases hfind : find s pat a with
    | none => rfl
    | some n =>
        obtain ⟨ha, -, h, -⟩ := find_eq_some_iff.mp hfind
        exact absurd h (hno n ha)

/-- A search may start later, if the pattern does not stand in between. -/
theorem find_skip {pat s : Str} {a b : Nat} (hpat : pat ≠ []) (hab : a ≤ b)
    (h : ∀ j, a ≤ j → j < b → ¬StandsAt pat s j) : find s pat b = find s pat a := by
  cases hfind : find s pat a with
  | none =>
      rw [find_eq_none_iff hpat] at hfind ⊢
      exact fun n hn => hfind n (Nat.le_trans hab hn)
  | some n =>
      obtain ⟨han, hle, hstands, hfirst⟩ := find_eq_some_iff.mp hfind
      have hbn : b ≤ n := by
        by_contra hlt
        exact h n han (Nat.lt_of_not_le hlt) hstands
      exact find_eq_some_iff.mpr
        ⟨hbn, hle, hstands, fun j hj => hfirst j (Nat.le_trans hab hj)⟩

/-! ### Numbers in text -/

/-- `isspace` in the C locale. -/
def isSpace (c : UInt8) : Bool := c = 32 || (9 ≤ c && c ≤ 13)

def isDigit (c : UInt8) : Bool := 48 ≤ c && c ≤ 57

/-- The value of a run of decimal digits. -/
def digitsValue (ds : Str) : Nat := ds.foldl (fun n d => n * 10 + (d.toNat - 48)) 0

/-- The digits `strtol` converts: the longest run at the front. -/
def unsignedNumeral (s : Str) : Option Int :=
  match s.takeWhile isDigit with
  | [] => none
  | ds => some (digitsValue ds)

/-- A number in decimal. -/
def decimal (n : Nat) : Str := lit (toString n)

/-- `std::to_string` of an `int`. -/
def decimalInt (n : Int) : Str := lit (toString n)

/-- What `strtol` reads in base 10: white space, a sign, then digits; `none` if there are none. -/
def numeral (s : Str) : Option Int :=
  match s.dropWhile isSpace with
  | 45 :: t => (unsignedNumeral t).map (-·)
  | 43 :: t => unsignedNumeral t
  | t => unsignedNumeral t

/-- `std::stoi`. -/
def stoi (s : Str) : Except Fault Int :=
  match numeral s with
  | none => .error .invalidArgument
  | some n => if -2 ^ 31 ≤ n ∧ n < 2 ^ 31 then .ok n else .error .outOfRange

theorem stoi_range {s : Str} {n : Int} (h : stoi s = .ok n) : -2 ^ 31 ≤ n ∧ n < 2 ^ 31 := by
  unfold stoi at h
  split at h
  · cases h
  · split at h
    · cases h
      assumption
    · cases h

theorem isSpace_of_isDigit {c : UInt8} (h : isDigit c = true) : isSpace c = false := by
  simp only [isDigit, isSpace, Bool.and_eq_true, Bool.or_eq_false_iff, Bool.and_eq_false_iff,
    decide_eq_true_eq, decide_eq_false_iff_not, UInt8.le_iff_toNat_le, ← UInt8.toNat_inj] at h ⊢
  simp at h ⊢
  omega

theorem isDigit_of_mem_decimal {n : Nat} {c : UInt8} (h : c ∈ decimal n) : isDigit c = true := by
  obtain ⟨d, hd, rfl⟩ := List.mem_map.mp h
  have hdigit : d.isDigit = true := by
    refine Nat.isDigit_of_mem_toDigits (by decide) (by decide) (b := 10) (n := n) ?_
    simpa using hd
  obtain ⟨hlow, hhigh⟩ : 48 ≤ d.toNat ∧ d.toNat ≤ 57 := by
    simpa [Char.isDigit, UInt32.le_iff_toNat_le] using hdigit
  have hbytes : ∀ k < 58, 48 ≤ k → isDigit (UInt8.ofNat k) = true := by decide
  exact hbytes d.toNat (by omega) hlow

/-- A decimal numeral has digits and at most a sign. -/
theorem isDigit_of_mem_decimalInt {n : Int} {c : UInt8} (h : c ∈ decimalInt n) :
    isDigit c = true ∨ c = byte '-' := by
  cases n with
  | ofNat n => exact Or.inl (isDigit_of_mem_decimal h)
  | negSucc n =>
      have hsign : decimalInt (.negSucc n) = byte '-' :: decimal (n + 1) := by
        show lit ("-" ++ toString (n + 1)) = _
        simp [lit, decimal]
      rw [hsign] at h
      rcases List.mem_cons.mp h with rfl | h
      · exact Or.inr rfl
      · exact Or.inl (isDigit_of_mem_decimal h)

/-- Blanks, a sign or none, digits, and something that is not a digit, or nothing. -/
structure NumeralText (s blanks sign digits rest : Str) : Prop where
  text : s = blanks ++ (sign ++ (digits ++ rest))
  blank : ∀ c ∈ blanks, isSpace c = true
  sign : sign = [] ∨ sign = lit "+" ∨ sign = lit "-"
  nonempty : digits ≠ []
  digit : ∀ c ∈ digits, isDigit c = true
  stops : ∀ c, rest.head? = some c → isDigit c = false

def signedValue (sign digits : Str) : Int :=
  if sign = lit "-" then -digitsValue digits else digitsValue digits

theorem takeWhile_append_stop {p : UInt8 → Bool} {front rest : Str} (hfront : ∀ c ∈ front, p c = true)
    (hrest : ∀ c, rest.head? = some c → p c = false) :
    (front ++ rest).takeWhile p = front ∧ (front ++ rest).dropWhile p = rest := by
  have hnone : rest.takeWhile p = [] ∧ rest.dropWhile p = rest := by
    cases rest with
    | nil => exact ⟨rfl, rfl⟩
    | cons c rest =>
        have hc := hrest c rfl
        simp [hc]
  rw [List.takeWhile_append_of_pos hfront, List.dropWhile_append_of_pos hfront, hnone.1, hnone.2]
  simp

theorem unsignedNumeral_eq_some_iff {s : Str} {n : Int} :
    unsignedNumeral s = some n ↔ ∃ digits rest, s = digits ++ rest ∧ digits ≠ [] ∧
      (∀ c ∈ digits, isDigit c = true) ∧ (∀ c, rest.head? = some c → isDigit c = false) ∧
      n = digitsValue digits := by
  constructor
  · intro h
    refine ⟨s.takeWhile isDigit, s.dropWhile isDigit, List.takeWhile_append_dropWhile.symm, ?_,
      fun c hc => List.mem_takeWhile_imp hc, fun c hc => ?_, ?_⟩
    · intro hnil
      simp [unsignedNumeral, hnil] at h
    · have hnot := List.head?_dropWhile_not isDigit s
      rw [hc] at hnot
      simpa using hnot
    · unfold unsignedNumeral at h
      split at h
      · cases h
      · exact (Option.some.inj h).symm
  · rintro ⟨digits, rest, rfl, hne, hdigits, hstops, rfl⟩
    obtain ⟨d, ds, rfl⟩ := List.exists_cons_of_ne_nil hne
    unfold unsignedNumeral
    rw [(takeWhile_append_stop hdigits hstops).1]

/-- **What `strtol` reads as a number.** -/
theorem numeral_eq_some_iff {s : Str} {n : Int} :
    numeral s = some n ↔ ∃ blanks sign digits rest, NumeralText s blanks sign digits rest ∧
      n = signedValue sign digits := by
  constructor
  · intro h
    have hblank : ∀ c ∈ s.takeWhile isSpace, isSpace c = true := fun c hc => List.mem_takeWhile_imp hc
    have hsplit : s = s.takeWhile isSpace ++ s.dropWhile isSpace :=
      List.takeWhile_append_dropWhile.symm
    unfold numeral at h
    split at h
    · rename_i t ht
      obtain ⟨m, hm, rfl⟩ := Option.map_eq_some_iff.mp h
      obtain ⟨digits, rest, rfl, hne, hdigits, hstops, rfl⟩ := unsignedNumeral_eq_some_iff.mp hm
      rw [ht] at hsplit
      exact ⟨_, lit "-", digits, rest, ⟨hsplit, hblank, Or.inr (Or.inr rfl), hne, hdigits, hstops⟩, rfl⟩
    · rename_i t ht
      obtain ⟨digits, rest, rfl, hne, hdigits, hstops, rfl⟩ := unsignedNumeral_eq_some_iff.mp h
      rw [ht] at hsplit
      exact ⟨_, lit "+", digits, rest, ⟨hsplit, hblank, Or.inr (Or.inl rfl), hne, hdigits, hstops⟩, rfl⟩
    · obtain ⟨digits, rest, ht, hne, hdigits, hstops, rfl⟩ := unsignedNumeral_eq_some_iff.mp h
      rw [ht] at hsplit
      exact ⟨_, [], digits, rest, ⟨hsplit, hblank, Or.inl rfl, hne, hdigits, hstops⟩, rfl⟩
  · rintro ⟨blanks, sign, digits, rest, ⟨rfl, hblank, hsign, hne, hdigits, hstops⟩, rfl⟩
    have hunsigned : unsignedNumeral (digits ++ rest) = some (digitsValue digits : Int) :=
      unsignedNumeral_eq_some_iff.mpr ⟨digits, rest, rfl, hne, hdigits, hstops, rfl⟩
    obtain ⟨d, ds, rfl⟩ := List.exists_cons_of_ne_nil hne
    have hd : isDigit d = true := hdigits d (by simp)
    have hdrop : (blanks ++ (sign ++ (d :: ds ++ rest))).dropWhile isSpace
        = sign ++ (d :: ds ++ rest) := by
      refine (takeWhile_append_stop hblank fun c hc => ?_).2
      rcases hsign with rfl | rfl | rfl
      · obtain rfl : d = c := by simpa using hc
        exact isSpace_of_isDigit hd
      · obtain rfl : byte '+' = c := by simpa [lit] using hc
        rfl
      · obtain rfl : byte '-' = c := by simpa [lit] using hc
        rfl
    unfold numeral
    rw [hdrop]
    rcases hsign with rfl | rfl | rfl
    · have hminus : d ≠ 45 := by
        rintro rfl
        exact absurd hd (by decide)
      have hplus : d ≠ 43 := by
        rintro rfl
        exact absurd hd (by decide)
      split
      · rename_i t ht
        exact absurd (List.cons.inj ht).1 hminus
      · rename_i t ht
        exact absurd (List.cons.inj ht).1 hplus
      · exact hunsigned
    · exact hunsigned
    · show (unsignedNumeral (d :: ds ++ rest)).map (-·) = _
      rw [hunsigned]
      rfl

/-- Digits are read as the number they show, whatever follows them. -/
theorem stoi_front {ds rest : Str} (hne : ds ≠ []) (hdigits : ∀ d ∈ ds, isDigit d = true)
    (hstops : ∀ c, rest.head? = some c → isDigit c = false) (hlt : digitsValue ds < 2 ^ 31) :
    stoi (ds ++ rest) = .ok (digitsValue ds) := by
  have hnumeral : numeral (ds ++ rest) = some (digitsValue ds : Int) :=
    numeral_eq_some_iff.mpr
      ⟨[], [], ds, rest, ⟨rfl, by simp, Or.inl rfl, hne, hdigits, hstops⟩, rfl⟩
  rw [stoi, hnumeral]
  exact if_pos (by omega)

theorem stoi_digits {ds : Str} (hne : ds ≠ []) (hdigits : ∀ d ∈ ds, isDigit d = true)
    (hlt : digitsValue ds < 2 ^ 31) : stoi ds = .ok (digitsValue ds) := by
  have hwhole : stoi (ds ++ []) = .ok (digitsValue ds) := stoi_front hne hdigits (by simp) hlt
  rwa [List.append_nil] at hwhole

/-- `std::strtol(s, nullptr, 10)` for a 64-bit `long`: saturating, and 0 on no conversion. -/
def strtol (s : Str) : Int :=
  match numeral s with
  | none => 0
  | some n => max (-2 ^ 63) (min n (2 ^ 63 - 1))

/-- The conversion of a 64-bit value to `int`. -/
def toInt32 (n : Int) : Int := n.bmod (2 ^ 32)

/-- The conversion to an unsigned type. -/
def toUnsigned (bits : Nat) (n : Int) : Nat := (n % 2 ^ bits).toNat

theorem toUnsigned_of_lt {bits n : Nat} (h : n < 2 ^ bits) : toUnsigned bits n = n := by
  have hint : (n : Int) < 2 ^ bits := by exact_mod_cast h
  rw [toUnsigned, Int.emod_eq_of_lt (Int.natCast_nonneg n) hint, Int.toNat_natCast]

/-! ### Input streams -/

/-- A `std::stringstream` being read: what is left, and whether `good()` still holds. -/
structure IStream where
  rest : Str
  good : Bool := true
  deriving DecidableEq, Repr

/--
`std::getline`.  The delimiter is taken off the stream and not stored.  Running
into the end clears `good()` but still gives the characters read; only a call that
extracts nothing at all, or finds the stream already not good, fails.
-/
def IStream.getline (ss : IStream) (delim : UInt8) : Option Str × IStream :=
  if ss.good = false then (none, ss)
  else if ss.rest = [] then (none, { ss with good := false })
  else
    match ss.rest.dropWhile (· != delim) with
    | [] => (some ss.rest, { rest := [], good := false })
    | _ :: tail => (some (ss.rest.takeWhile (· != delim)), { rest := tail })

/-- `ss.read(buffer, n)`: the bytes that were there to be read. -/
def IStream.read (ss : IStream) (n : Nat) : Str × IStream :=
  if ss.good = false then ([], ss)
  else (ss.rest.take n, { rest := ss.rest.drop n, good := n ≤ ss.rest.length })

theorem IStream.getline_not_good (rest : Str) (delim : UInt8) :
    (IStream.mk rest false).getline delim = (none, ⟨rest, false⟩) := rfl

theorem IStream.getline_nil (delim : UInt8) :
    (IStream.mk [] true).getline delim = (none, ⟨[], false⟩) := rfl

/-- A last line without its delimiter still counts as read. -/
theorem IStream.getline_last {line : Str} {delim : UInt8} (hne : line ≠ []) (hd : delim ∉ line) :
    (IStream.mk line true).getline delim = (some line, ⟨[], false⟩) := by
  have hdrop : line.dropWhile (· != delim) = [] := by
    rw [List.dropWhile_eq_nil_iff]
    intro x hx
    simpa using fun h : x = delim => hd (h ▸ hx)
  simp [IStream.getline, hne, hdrop]

theorem IStream.getline_cons {line : Str} {delim : UInt8} (hd : delim ∉ line) (tail : Str) :
    (IStream.mk (line ++ delim :: tail) true).getline delim = (some line, ⟨tail, true⟩) := by
  have hall : ∀ x ∈ line, (x != delim) = true := by
    intro x hx
    simpa using fun h : x = delim => hd (h ▸ hx)
  simp [IStream.getline, List.dropWhile_append_of_pos hall, List.takeWhile_append_of_pos hall]

/-- The delimiter is not part of a line. -/
theorem IStream.getline_not_mem {ss ss' : IStream} {delim : UInt8} {line : Str}
    (h : ss.getline delim = (some line, ss')) : delim ∉ line := by
  unfold IStream.getline at h
  split at h
  · simp at h
  · split at h
    · simp at h
    · intro hmem
      split at h
      · rename_i hdrop
        obtain ⟨hline, -⟩ := Prod.mk.inj h
        obtain rfl := Option.some.inj hline
        have hother := List.dropWhile_eq_nil_iff.mp hdrop delim hmem
        simp at hother
      · obtain ⟨hline, -⟩ := Prod.mk.inj h
        obtain rfl := Option.some.inj hline
        have hother := List.mem_takeWhile_imp hmem
        simp at hother

/-- Reading a line leaves less of the stream. -/
theorem IStream.getline_lt {ss ss' : IStream} {delim : UInt8} {line : Str}
    (h : ss.getline delim = (some line, ss')) : ss'.rest.length < ss.rest.length := by
  unfold IStream.getline at h
  split at h
  · simp at h
  · split at h
    · simp at h
    · rename_i hne
      split at h
      · obtain ⟨-, rfl⟩ := Prod.mk.inj h
        exact List.length_pos_iff.mpr hne
      · rename_i tail hdrop
        obtain ⟨-, rfl⟩ := Prod.mk.inj h
        have hlen : (ss.rest.dropWhile (· != delim)).length ≤ ss.rest.length :=
          (List.dropWhile_sublist _).length_le
        rw [hdrop] at hlen
        simpa using hlen

end JustEnough
