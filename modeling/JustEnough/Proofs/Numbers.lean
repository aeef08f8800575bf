/-
The numbers in a config.

`addPort` and `addThread` take the second token of their statement through `stoi`.  So
the token is read as a number if it has one at its front, behind white space and a sign
perhaps; what follows the number is not looked at, and where there is none, or one too
large for an `int`, `stoi` throws.  The loader is right about a token exactly where
`stoi` does not throw and a number within the bounds is the whole token
(`number_right_iff`).
-/
import JustEnough.Proofs.Options

namespace JustEnough

/-- Digits and nothing else, of that value. -/
def DecimalNumeral (token : Str) (n : Nat) : Prop :=
  token ≠ [] ∧ (∀ c ∈ token, isDigit c = true) ∧ digitsValue token = n

/-- A numeral within the bounds is accepted and its value set; every other token is refused. -/
structure NumberRight {R : Type} (lo hi : Nat) (token : Str) (set : Nat → R)
    (result : Except Fault (Option R)) : Prop where
  accepted : ∀ n, DecimalNumeral token n → lo ≤ n → n ≤ hi → result = .ok (some (set n))
  refused : (∀ n, DecimalNumeral token n → ¬(lo ≤ n ∧ n ≤ hi)) → result = .ok none

/--
The token has a number at its front, which fits in an `int`, and is that number if it lies
within the bounds.
-/
def ReadsWhole (lo hi : Nat) (token : Str) : Prop :=
  ∃ blanks sign digits rest, NumeralText token blanks sign digits rest ∧
    -2 ^ 31 ≤ signedValue sign digits ∧ signedValue sign digits < 2 ^ 31 ∧
    (lo ≤ signedValue sign digits → signedValue sign digits ≤ hi →
      blanks = [] ∧ sign = [] ∧ rest = [])

/-- In a token of digits there is nothing before or after the number. -/
theorem NumeralText.of_digits {s blanks sign digits rest : Str}
    (h : NumeralText s blanks sign digits rest) (hall : ∀ c ∈ s, isDigit c = true) :
    blanks = [] ∧ sign = [] ∧ rest = [] := by
  have hmem : ∀ c, c ∈ blanks ∨ c ∈ sign ∨ c ∈ rest → isDigit c = true := by
    intro c hc
    refine hall c ?_
    rw [h.text]
    simp only [List.mem_append]
    tauto
  refine ⟨List.eq_nil_iff_forall_not_mem.mpr fun c hc => ?_, ?_, ?_⟩
  · have hspace := isSpace_of_isDigit (hmem c (Or.inl hc))
    rw [h.blank c hc] at hspace
    cases hspace
  · rcases h.sign with hsign | rfl | rfl
    · exact hsign
    · exact absurd (hmem (byte '+') (Or.inr (Or.inl (by decide)))) (by decide)
    · exact absurd (hmem (byte '-') (Or.inr (Or.inl (by decide)))) (by decide)
  · cases hrest : rest with
    | nil => rfl
    | cons c rest' =>
        have hstops := h.stops c (by rw [hrest]; rfl)
        rw [hmem c (Or.inr (Or.inr (by simp [hrest])))] at hstops
        cases hstops

theorem stoi_eq_ok_iff {s : Str} {n : Int} :
    stoi s = .ok n ↔ numeral s = some n ∧ -2 ^ 31 ≤ n ∧ n < 2 ^ 31 := by
  unfold stoi
  cases hnumeral : numeral s with
  | none => simp
  | some m =>
      by_cases hrange : -2 ^ 31 ≤ m ∧ m < 2 ^ 31
      · simp only [if_pos hrange, Except.ok.injEq, Option.some.injEq]
        constructor
        · rintro rfl
          exact ⟨rfl, hrange⟩
        · exact fun h => h.1
      · simp only [if_neg hrange, Option.some.injEq]
        constructor
        · intro h
          cases h
        · rintro ⟨rfl, h⟩
          exact absurd h hrange

namespace LoadedOptions

section Bounds

variable {R : Type} {lo hi : Nat} {statement : NginxConfigStatement} {key token : Str} {set : Nat → R}
  {store : Int → R}

/-- Where it does not throw, there is a number, and it is refused unless it is the whole token. -/
theorem readsWhole_of_numberRight (hhi : hi < 2 ^ 31) (htokens : statement.tokens = [key, token])
    (h : NumberRight lo hi token set
      ((boundedValue lo hi statement).map fun value => value.map store)) :
    ReadsWhole lo hi token := by
  rw [boundedValue_eq hhi htokens] at h
  obtain ⟨n, hn⟩ : ∃ n, stoi token = .ok n := by
    cases hstoi : stoi token with
    | ok n => exact ⟨n, rfl⟩
    | error e =>
        rw [hstoi] at h
        by_cases hdec : ∃ n, DecimalNumeral token n ∧ lo ≤ n ∧ n ≤ hi
        · obtain ⟨n, hn, hlo, hhi'⟩ := hdec
          cases h.accepted n hn hlo hhi'
        · cases h.refused fun n hn hbounds => hdec ⟨n, hn, hbounds⟩
  obtain ⟨hnumeral, hrange⟩ := stoi_eq_ok_iff.mp hn
  obtain ⟨blanks, sign, digits, rest, htext, rfl⟩ := numeral_eq_some_iff.mp hnumeral
  refine ⟨blanks, sign, digits, rest, htext, hrange.1, hrange.2, fun hlo hhi' => ?_⟩
  by_contra hmore
  have hnot : ∀ n, DecimalNumeral token n → ¬(lo ≤ n ∧ n ≤ hi) :=
    fun n hn _ => hmore (htext.of_digits hn.2.1)
  have hrefused := h.refused hnot
  rw [hn] at hrefused
  simp [Except.map, hlo, hhi'] at hrefused

theorem numberRight_of_readsWhole (hhi : hi < 2 ^ 31) (htokens : statement.tokens = [key, token])
    (hstore : ∀ n : Nat, n ≤ hi → store n = set n) (h : ReadsWhole lo hi token) :
    NumberRight lo hi token set
      ((boundedValue lo hi statement).map fun value => value.map store) := by
  obtain ⟨blanks, sign, digits, rest, htext, hmin, hmax, hwhole⟩ := h
  have hstoi : stoi token = .ok (signedValue sign digits) :=
    stoi_eq_ok_iff.mpr
      ⟨numeral_eq_some_iff.mpr ⟨blanks, sign, digits, rest, htext, rfl⟩, hmin, hmax⟩
  rw [boundedValue_eq hhi htokens, hstoi]
  constructor
  · intro n hn hlo hhi'
    obtain ⟨rfl, rfl, rfl⟩ := htext.of_digits hn.2.1
    obtain rfl : token = digits := by simpa using htext.text
    obtain rfl := hn.2.2
    have hvalue : signedValue [] token = digitsValue token := rfl
    simp [Except.map, hvalue, hlo, hhi', hstore _ hhi']
  · intro hnot
    by_cases hin : lo ≤ signedValue sign digits ∧ signedValue sign digits ≤ hi
    · obtain ⟨rfl, rfl, rfl⟩ := hwhole hin.1 hin.2
      obtain rfl : token = digits := by simpa using htext.text
      have hvalue : signedValue [] token = digitsValue token := rfl
      rw [hvalue] at hin
      exact absurd (by omega) (hnot _ ⟨htext.nonempty, htext.digit, rfl⟩)
    · simp [Except.map, hin]

/-- **The loader is right about a number** where it is the whole token. -/
theorem number_right_iff (hhi : hi < 2 ^ 31) (htokens : statement.tokens = [key, token])
    (hstore : ∀ n : Nat, n ≤ hi → store n = set n) :
    NumberRight lo hi token set
        ((boundedValue lo hi statement).map fun value => value.map store) ↔
      ReadsWhole lo hi token :=
  ⟨readsWhole_of_numberRight hhi htokens, numberRight_of_readsWhole hhi htokens hstore⟩

end Bounds

variable {H : Type}

/-- `addPort` does with the statement what its token says. -/
def PortRight (opt : LoadedOptions H) (statement : NginxConfigStatement) (token : Str) : Prop :=
  NumberRight minPort maxPort token (fun n => { opt with port := n }) (opt.addPort statement)

/-- `addThread` does. -/
def ThreadRight (opt : LoadedOptions H) (statement : NginxConfigStatement) (token : Str) : Prop :=
  NumberRight 1 maxThreads token (fun n => { opt with thread := n }) (opt.addThread statement)

/--
**Ports and thread numbers** are read right exactly where the token has a number at its front
that fits in an `int`, and is that number if it lies within the bounds.
-/
theorem port_thread_right_iff {statement : NginxConfigStatement} {key token : Str}
    (htokens : statement.tokens = [key, token]) (opt : LoadedOptions H) :
    (opt.PortRight statement token ↔ ReadsWhole minPort maxPort token) ∧
      (opt.ThreadRight statement token ↔ ReadsWhole 1 maxThreads token) := by
  constructor
  · refine number_right_iff (by decide) htokens fun n hn => ?_
    have hlt : n < 2 ^ 16 := Nat.lt_of_le_of_lt hn (by decide)
    rw [toUnsigned_of_lt hlt]
  · refine number_right_iff (by decide) htokens fun n hn => ?_
    have hlt : n < 2 ^ 32 := Nat.lt_of_le_of_lt hn (by decide)
    rw [toUnsigned_of_lt hlt]

/-- Letters behind the number are accepted with it, and letters alone throw. -/
theorem port_not_right :
    ¬(fresh : LoadedOptions Unit).PortRight (.mk [lit "port", lit "8080abc"] none)
        (lit "8080abc") ∧
      ¬(fresh : LoadedOptions Unit).PortRight (.mk [lit "port", lit "abc"] none) (lit "abc") := by
  have hnumeral : ∀ token : Str, byte 'a' ∈ token → ∀ n, ¬DecimalNumeral token n := by
    intro token hmem n hn
    exact absurd (hn.2.1 _ hmem) (by decide)
  constructor
  · intro h
    cases h.refused fun n hn => absurd hn (hnumeral _ (by decide) n)
  · intro h
    cases h.refused fun n hn => absurd hn (hnumeral _ (by decide) n)

theorem port_thread_right_example :
    ((fresh : LoadedOptions Unit).PortRight (.mk [lit "port", lit "8080"] none) (lit "8080") ↔
        ReadsWhole minPort maxPort (lit "8080")) ∧
      ((fresh : LoadedOptions Unit).ThreadRight (.mk [lit "port", lit "8080"] none) (lit "8080") ↔
        ReadsWhole 1 maxThreads (lit "8080")) :=
  port_thread_right_iff (by rfl) fresh

end LoadedOptions

end JustEnough
