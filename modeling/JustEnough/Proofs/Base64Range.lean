/-
Where the accumulator of the codec overflows.

Both loops of `base64.h` keep every digit they have read in `val` and never mask it.  So
after the whole run it should hold the number that all bytes, or all characters, of the
text write, and an `int` has no room for that after a few of them.  The shift counts are
another matter: `valb` is below 0 between two turns, so no count is above 8.

The runs that stay in range are exactly those with a small enough number, and they
compute what `Server/Authenticate.lean` says (`Checked.base64Encode_eq`,
`Checked.base64Decode_eq`).  Which texts these are can be seen from their last
characters, and from the ones in front of them, which have to write zeros
(`EncodeFits`, `DecodeFits`).
-/
import JustEnough.Proofs.Base64
import JustEnough.Server.Base64Range

namespace JustEnough

/-! ### The texts whose number is small enough -/

/--
At most the last four bytes write more than zeros, and the first of four is below 128.  If
bits are left over at the end they are shifted once more, and it is the last three.
-/
def EncodeFits (s : Str) : Prop := Below 128 (if s.length % 3 = 0 then 3 else 2) (s.map UInt8.toNat)

instance (s : Str) : Decidable (EncodeFits s) := inferInstanceAs (Decidable (Below ..))

/-- The places of the characters up to the first that is not in the alphabet. -/
def alphabetDigits : Str → List Nat
  | [] => []
  | c :: cs => if base64Table c = -1 then [] else (base64Table c).toNat :: alphabetDigits cs

/-- At most the last six of these write more than zeros, and the first of six is `A` or `B`. -/
def DecodeFits (s : Str) : Prop := Below 2 5 (alphabetDigits s)

instance (s : Str) : Decidable (DecodeFits s) := inferInstanceAs (Decidable (Below ..))

theorem encodeFits_iff (s : Str) :
    EncodeFits s ↔ number 8 0 (s.map UInt8.toNat) < 2 ^ 31 ∧
      (s.length % 3 ≠ 0 → number 8 0 (s.map UInt8.toNat) * 2 ^ 8 < 2 ^ 31) := by
  have hdigits : ∀ d ∈ s.map UInt8.toNat, d < 2 ^ 8 := by
    intro d hd
    obtain ⟨c, -, rfl⟩ := List.mem_map.mp hd
    exact c.toNat_lt
  unfold EncodeFits
  by_cases hlen : s.length % 3 = 0
  · rw [if_pos hlen, ← number_lt_iff (by omega) (by omega) 3 hdigits]
    omega
  · rw [if_neg hlen, ← number_lt_iff (by omega) (by omega) 2 hdigits]
    omega

/-- The place of a character takes six bits. -/
theorem base64Table_eq {c : UInt8} (h : base64Table c ≠ -1) :
    ∃ n, base64Table c = (n : Nat) ∧ n < 64 := by
  unfold base64Table at h ⊢
  cases hindex : base64Alphabet.idxOf? c with
  | none => simp [hindex] at h
  | some n =>
      have hlt : n < base64Alphabet.length := by
        rw [List.idxOf?_eq_some_iff] at hindex
        exact hindex.1
      exact ⟨n, rfl, hlt⟩

theorem decodeFits_iff (s : Str) : DecodeFits s ↔ number 6 0 (alphabetDigits s) < 2 ^ 31 := by
  have hdigits : ∀ d ∈ alphabetDigits s, d < 2 ^ 6 := by
    induction s with
    | nil => simp [alphabetDigits]
    | cons c cs ih =>
        intro d hd
        by_cases htable : base64Table c = -1
        · simp [alphabetDigits, htable] at hd
        · obtain ⟨n, hn, hlt⟩ := base64Table_eq htable
          rw [alphabetDigits, if_neg htable, hn] at hd
          rcases List.mem_cons.mp hd with hd | hd
          · rw [hd]
            exact hlt
          · exact ih d hd
  unfold DecodeFits
  rw [← number_lt_iff (by omega) (by omega) 5 hdigits]
  omega

/-! ### What is read off the accumulator -/

section Chars

variable {val valb : Nat} {bits : BitVec 32}

theorem Checked.base64Char_eq (hbits : bits.toNat = val) (hvalb : valb + 6 ≤ 32) :
    Checked.base64Char val valb = .ok (JustEnough.base64Char bits valb) := by
  have hlow := toNat_sshiftRight_and bits hvalb
  rw [hbits] at hlow
  rw [Checked.base64Char, CInt.shiftRight_natCast (by omega), ok_bind]
  show Except.ok (base64Alphabet.getD ((val / 2 ^ valb : Nat) % 64 : Int).toNat 0) = _
  have hindex : ((val / 2 ^ valb : Nat) % 64 : Int).toNat = val / 2 ^ valb % 64 := by omega
  rw [hindex]
  exact congrArg (fun i => Except.ok (base64Alphabet.getD i 0)) hlow.symm

/-- The byte the decoder takes. -/
theorem ofNat_eq_takeByte (hbits : bits.toNat = val) (hvalb : valb + 8 ≤ 32) :
    UInt8.ofNat ((val / 2 ^ valb : Nat) % 256 : Int).toNat = takeByte bits valb := by
  have hindex : ((val / 2 ^ valb : Nat) % 256 : Int).toNat = val / 2 ^ valb % 256 := by omega
  refine (takeByte_eq hvalb ?_).symm
  rw [hbits, hindex, UInt8.toNat_ofNat']
  omega

end Chars

/-- The characters are the same, and every count on the way is in range. -/
theorem Checked.base64Emit_eq {val : Nat} {bits : BitVec 32} (hbits : bits.toNat = val) {valb : Int}
    (hvalb : valb ≤ 26) (out : Str) :
    Checked.base64Emit val valb out = .ok (JustEnough.base64Emit bits valb out) := by
  fun_induction JustEnough.base64Emit bits valb out with
  | case1 valb out h ih =>
      obtain ⟨n, rfl⟩ := Int.eq_ofNat_of_zero_le h
      rw [Int.toNat_natCast] at ih
      rw [Checked.base64Emit, if_pos h, Checked.base64Char_eq hbits (by omega), ok_bind,
        ih (by omega)]
      rfl
  | case2 valb out h =>
      rw [Checked.base64Emit, if_neg h]
      rfl

/-! ### Encoding -/

/-- After `r` bytes of a group `2 * r` bits are left. -/
theorem base64Emit_fst {r : Nat} (hr : r < 3) (bits : BitVec 32) (out : Str) :
    (base64Emit bits (2 * r - 6 + 8) out).1 = 2 * ((r + 1) % 3 : Nat) - 6 := by
  have hcases : r = 0 ∨ r = 1 ∨ r = 2 := by omega
  rcases hcases with rfl | rfl | rfl
  · exact congrArg Prod.fst (base64Emit_two bits out)
  · exact congrArg Prod.fst (base64Emit_four bits out)
  · exact congrArg Prod.fst (base64Emit_six bits out)

theorem base64EncodeLoop_valb (cs : Str) {r : Nat} (hr : r < 3) (bits : BitVec 32) (out : Str) :
    (base64EncodeLoop cs bits (2 * r - 6) out).2.1 = 2 * ((r + cs.length) % 3 : Nat) - 6 := by
  induction cs generalizing r bits out with
  | nil =>
      show (2 * r - 6 : Int) = _
      rw [List.length_nil]
      omega
  | cons c cs ih =>
      rw [base64EncodeLoop_cons, base64Emit_fst hr, ih (by omega), List.length_cons]
      omega

/-- **The loop stays in range exactly while the number does.** -/
theorem Checked.base64EncodeLoop_eq (cs : Str) {r val : Nat} {bits : BitVec 32} (hr : r < 3)
    (hbits : bits.toNat = val) (hval : val < 2 ^ 31) (out : Str) :
    Checked.base64EncodeLoop cs val (2 * r - 6) out =
      if number 8 val (cs.map UInt8.toNat) < 2 ^ 31 then
        .ok (number 8 val (cs.map UInt8.toNat), (JustEnough.base64EncodeLoop cs bits (2 * r - 6) out).2)
      else .error .range := by
  induction cs generalizing r val bits out with
  | nil =>
      rw [List.map_nil, number_nil, if_pos hval]
      rfl
  | cons c cs ih =>
      have hpush : CInt.push val 8 c.toNat = _ := @CInt.push_natCast val 8 (by omega) c.toNat
      rw [Checked.base64EncodeLoop, hpush, List.map_cons, number_cons]
      by_cases hnext : val * 2 ^ 8 + c.toNat < 2 ^ 31
      · have hbits' : (pushByte bits c).toNat = val * 2 ^ 8 + c.toNat := by
          rw [toNat_pushByte, hbits]
          omega
        rw [if_pos hnext, ok_bind, Checked.base64Emit_eq hbits' (by omega), ok_bind,
          base64EncodeLoop_cons, base64Emit_fst hr]
        exact ih (by omega) hbits' hnext _
      · have hmore := le_number 8 (val * 2 ^ 8 + c.toNat) (cs.map UInt8.toNat)
        rw [if_neg hnext, error_bind, if_neg (by omega)]

/-- In range the wrapping accumulator holds the number too. -/
theorem base64EncodeLoop_fst (cs : Str) {bits : BitVec 32} (valb : Int) (out : Str)
    (h : number 8 bits.toNat (cs.map UInt8.toNat) < 2 ^ 31) :
    (base64EncodeLoop cs bits valb out).1.toNat = number 8 bits.toNat (cs.map UInt8.toNat) := by
  induction cs generalizing bits valb out with
  | nil => rfl
  | cons c cs ih =>
      rw [List.map_cons, number_cons] at h ⊢
      have hmore := le_number 8 (bits.toNat * 2 ^ 8 + c.toNat) (cs.map UInt8.toNat)
      have hbits : (pushByte bits c).toNat = bits.toNat * 2 ^ 8 + c.toNat := by
        rw [toNat_pushByte]
        omega
      rw [base64EncodeLoop_cons, ← hbits]
      rw [← hbits] at h
      exact ih _ _ h

theorem Checked.base64Rest_eq {val : Nat} {bits : BitVec 32} (hbits : bits.toNat = val) {valb : Int}
    (hvalb : valb < 0) (out : Str) :
    Checked.base64Rest val valb out =
      if valb > -6 → val * 2 ^ 8 < 2 ^ 31 then .ok (flushed (bits, valb, out))
      else .error .range := by
  unfold Checked.base64Rest flushed
  by_cases hleft : valb > -6
  · have hshift : CInt.shiftLeft val 8 = _ := @CInt.shiftLeft_natCast val 8 (by omega)
    rw [if_pos hleft, if_pos hleft, hshift]
    by_cases hrange : val * 2 ^ 8 < 2 ^ 31
    · have hbits' : (bits <<< 8).toNat = val * 2 ^ 8 := by
        rw [BitVec.toNat_shiftLeft, Nat.shiftLeft_eq, hbits]
        omega
      obtain ⟨k, hk⟩ := Int.eq_ofNat_of_zero_le (show 0 ≤ valb + 8 by omega)
      rw [if_pos hrange, ok_bind, if_pos fun _ => hrange, hk,
        Checked.base64Char_eq hbits' (by omega)]
      rfl
    · rw [if_neg hrange, error_bind, if_neg fun h => hrange (h hleft)]
  · rw [if_neg hleft, if_neg hleft, if_pos fun h => absurd h hleft]
    rfl

/-- **Encoding stays in range exactly for the texts that fit**, and computes the same there. -/
theorem Checked.base64Encode_eq (s : Str) :
    Checked.base64Encode s =
      if EncodeFits s then .ok (JustEnough.base64Encode s) else .error .range := by
  have hloop := @Checked.base64EncodeLoop_eq s 0 0 0 (by omega) rfl (by omega) []
  have hvalb := @base64EncodeLoop_valb s 0 (by omega) 0 []
  have hfits := encodeFits_iff s
  rw [show (2 * (0 : Nat) - 6 : Int) = -6 from rfl] at hloop hvalb
  rw [Nat.zero_add] at hvalb
  unfold Checked.base64Encode
  rw [show (0 : Int) = (0 : Nat) from rfl, hloop]
  by_cases hrange : number 8 0 (s.map UInt8.toNat) < 2 ^ 31
  · have hbits : (JustEnough.base64EncodeLoop s 0 (-6) []).1.toNat = number 8 0 (s.map UInt8.toNat) :=
      base64EncodeLoop_fst s (-6) [] hrange
    have hrest := @Checked.base64Rest_eq _ _ hbits (JustEnough.base64EncodeLoop s 0 (-6) []).2.1
      (by omega) (JustEnough.base64EncodeLoop s 0 (-6) []).2.2
    rw [if_pos hrange, ok_bind]
    show (Checked.base64Rest _ _ _ >>= fun out => .ok (base64Pad out)) = _
    rw [hrest]
    by_cases hmore : s.length % 3 ≠ 0 → number 8 0 (s.map UInt8.toNat) * 2 ^ 8 < 2 ^ 31
    · rw [if_pos (hfits.mpr ⟨hrange, hmore⟩), if_pos (by omega), ok_bind]
      rfl
    · rw [if_neg fun h => hmore (hfits.mp h).2, if_neg (by omega), error_bind]
  · rw [if_neg hrange, error_bind, if_neg fun h => hrange (hfits.mp h).1]

/-! ### Decoding -/

/-- **The loop stays in range exactly while the number does**, here too. -/
theorem Checked.base64DecodeLoop_eq (cs : Str) {val : Nat} {bits : BitVec 32}
    (hbits : bits.toNat = val) (hval : val < 2 ^ 31) {valb : Int} (hlow : -8 ≤ valb)
    (hhigh : valb < 0) (out : Str) :
    Checked.base64DecodeLoop cs val valb out =
      if number 6 val (alphabetDigits cs) < 2 ^ 31 then
        .ok (JustEnough.base64DecodeLoop cs bits valb out)
      else .error .range := by
  induction cs generalizing val bits valb out with
  | nil =>
      rw [alphabetDigits, number_nil, if_pos hval]
      rfl
  | cons c cs ih =>
      rw [Checked.base64DecodeLoop, JustEnough.base64DecodeLoop, alphabetDigits]
      by_cases htable : base64Table c = -1
      · rw [if_pos htable, if_pos htable, if_pos htable, number_nil, if_pos hval]
        rfl
      · obtain ⟨n, hn, hlt⟩ := base64Table_eq htable
        have hpush : CInt.push val 6 n = _ := @CInt.push_natCast val 6 (by omega) n
        rw [if_neg htable, if_neg htable, if_neg htable, number_cons, hn, Int.toNat_natCast, hpush]
        by_cases hnext : val * 2 ^ 6 + n < 2 ^ 31
        · have hbits' : (bits <<< 6 + BitVec.ofInt 32 n).toNat = val * 2 ^ 6 + n := by
            rw [BitVec.ofInt_natCast, toNat_shiftLeft_add, hbits]
            omega
          rw [if_pos hnext, ok_bind]
          by_cases hfull : 0 ≤ valb + 6
          · obtain ⟨k, hk⟩ := Int.eq_ofNat_of_zero_le hfull
            simp only [if_pos hfull]
            rw [hk, CInt.shiftRight_natCast (by omega), ok_bind, ofNat_eq_takeByte hbits' (by omega)]
            exact ih hbits' hnext (by omega) (by omega) _
          · simp only [if_neg hfull]
            exact ih hbits' hnext (by omega) (by omega) _
        · have hmore := le_number 6 (val * 2 ^ 6 + n) (alphabetDigits cs)
          rw [if_neg hnext, error_bind, if_neg (by omega)]

/-- **Decoding stays in range exactly for the texts that fit.** -/
theorem Checked.base64Decode_eq (s : Str) :
    Checked.base64Decode s =
      if DecodeFits s then .ok (JustEnough.base64Decode s) else .error .range := by
  have hloop := @Checked.base64DecodeLoop_eq s 0 0 rfl (by omega) (-8) (by omega) (by omega) []
  rw [Checked.base64Decode, JustEnough.base64Decode]
  simp only [decodeFits_iff]
  exact hloop

/-! ### Both functions -/

/--
**Where the arithmetic of the codec has a meaning.**  No shift or sum leaves the range of
an `int` exactly for the texts that fit.  A shift count is never what is wrong.
-/
theorem base64_in_range_iff (s : Str) :
    ((∃ out, Checked.base64Encode s = .ok out) ↔ EncodeFits s) ∧
      ((∃ out, Checked.base64Decode s = .ok out) ↔ DecodeFits s) ∧
      Checked.base64Encode s ≠ .error .shiftCount ∧
      Checked.base64Decode s ≠ .error .shiftCount := by
  rw [Checked.base64Encode_eq, Checked.base64Decode_eq]
  refine ⟨?_, ?_, ?_, ?_⟩
  · by_cases h : EncodeFits s
    · simp [h]
    · simp [h]
  · by_cases h : DecodeFits s
    · simp [h]
    · simp [h]
  · split <;> simp
  · split <;> simp

/-- Thirteen bytes, and their encoding. -/
theorem base64_overflows :
    (¬∃ out, Checked.base64Encode (lit "Hello, World!") = .ok out) ∧
      ¬∃ out, Checked.base64Decode (lit "SGVsbG8sIFdvcmxkIQ==") = .ok out := by
  have hencode : ¬EncodeFits (lit "Hello, World!") := by decide
  have hdecode : ¬DecodeFits (lit "SGVsbG8sIFdvcmxkIQ==") := by decide
  rw [Checked.base64Encode_eq, Checked.base64Decode_eq, if_neg hencode, if_neg hdecode]
  simp

/-- Leading zeros take no room, and neither do the padding and what follows it. -/
example : EncodeFits (List.replicate 12 0 ++ lit "abc") ∧
    DecodeFits (lit "AAAAAAAAAYWJj===abcdefgh") := by
  decide

end JustEnough
