/-
Decoding undoes encoding.

Both loops of `base64.h` push bits through an `int`: the encoder takes eight at a time
and gives six, the decoder the other way round.  What they give depends on the lowest
bits of the accumulator only, so it does not matter that older ones are shifted out of
it.  After three bytes, or four characters, no bits are left over and the accumulator
counts as empty again.

So the encoder writes each group of three bytes by itself, as the standard has it
(`base64Encode_standard`), and its texts are the canonical ones: on these the decoder is
undone by the encoder as well (`base64_bijective`).
-/
import JustEnough.Lib.Base64
import JustEnough.Server.Authenticate

namespace JustEnough

/-! ### The accumulator -/

/-- Low bits of a shifted `int`, whatever its sign shifts in from above. -/
theorem toNat_sshiftRight_and (x : BitVec 32) {n k : Nat} (h : n + k ≤ 32) :
    (x.sshiftRight n &&& BitVec.ofNat 32 (2 ^ k - 1)).toNat = x.toNat / 2 ^ n % 2 ^ k := by
  have hk : 2 ^ k ≤ 2 ^ 32 := Nat.pow_le_pow_right (by decide) (by omega)
  have hpos := Nat.two_pow_pos k
  have hunsigned : x.sshiftRight n &&& BitVec.ofNat 32 (2 ^ k - 1)
      = x >>> n &&& BitVec.ofNat 32 (2 ^ k - 1) := by
    apply BitVec.eq_of_getLsbD_eq
    intro i hi
    by_cases hik : i < k
    · have hin : n + i < 32 := by omega
      rw [BitVec.getLsbD_and, BitVec.getLsbD_and, BitVec.getLsbD_sshiftRight,
        BitVec.getLsbD_ushiftRight, if_pos hin]
      have hge : ¬32 ≤ i := by omega
      simp [hi, hge]
    · have hlt : 2 ^ k - 1 < 2 ^ i := by
        have hle : 2 ^ k ≤ 2 ^ i := Nat.pow_le_pow_right (by decide) (Nat.le_of_not_lt hik)
        omega
      simp [BitVec.getLsbD_ofNat, Nat.testBit_lt_two_pow hlt]
  rw [hunsigned, BitVec.toNat_and, BitVec.toNat_ushiftRight, BitVec.toNat_ofNat,
    Nat.mod_eq_of_lt (by omega), Nat.and_two_pow_sub_one_eq_mod, Nat.shiftRight_eq_div_pow]

/-- More bits from below. -/
theorem toNat_shiftLeft_add (x : BitVec 32) (k n : Nat) :
    (x <<< k + BitVec.ofNat 32 n).toNat = (x.toNat * 2 ^ k + n) % 2 ^ 32 := by
  rw [BitVec.toNat_add, BitVec.toNat_shiftLeft, BitVec.toNat_ofNat, Nat.shiftLeft_eq,
    ← Nat.add_mod]

/-! ### Characters -/

/-- The character of the lowest six bits. -/
def sextet (n : Nat) : UInt8 := base64Alphabet.getD (n % 64) 0

theorem base64Char_eq {val : BitVec 32} {valb n : Nat} (h : valb + 6 ≤ 32)
    (hn : val.toNat / 2 ^ valb % 64 = n % 64) : base64Char val valb = sextet n := by
  have hbits := toNat_sshiftRight_and val h
  rw [sextet, ← hn]
  exact congrArg (fun i => base64Alphabet.getD i 0) hbits

/-- The table has the place of each character of the alphabet, and none of them is a space. -/
theorem base64Table_sextet (n : Nat) :
    base64Table (sextet n) = (n % 64 : Nat) ∧ sextet n ≠ byte ' ' := by
  have key : ∀ i < 64, base64Table (base64Alphabet.getD i 0) = (i : Nat) ∧
      base64Alphabet.getD i 0 ≠ byte ' ' := by decide +kernel
  exact key (n % 64) (Nat.mod_lt n (by decide))

/-- The characters of a text, without the padding. -/
def sextets : Str → Str
  | [] => []
  | [a] => [sextet (a.toNat / 4), sextet (a.toNat * 16)]
  | [a, b] => [sextet (a.toNat / 4), sextet (a.toNat * 16 + b.toNat / 16), sextet (b.toNat * 4)]
  | a :: b :: c :: rest =>
    sextet (a.toNat / 4) :: sextet (a.toNat * 16 + b.toNat / 16) ::
      sextet (b.toNat * 4 + c.toNat / 64) :: sextet c.toNat :: sextets rest

theorem space_not_mem_sextets (s : Str) : byte ' ' ∉ sextets s := by
  have hne : ∀ n, byte ' ' ≠ sextet n := fun n => (base64Table_sextet n).2.symm
  induction s using sextets.induct with
  | case1 => simp [sextets]
  | case2 a => simp [sextets, hne]
  | case3 a b => simp [sextets, hne]
  | case4 a b c rest ih => simp [sextets, hne, ih]

/-! ### Encoding -/

theorem base64Emit_two (val : BitVec 32) (out : Str) :
    base64Emit val 2 out = (-4, out ++ [base64Char val 2]) := by
  rw [base64Emit, if_pos (by decide), base64Emit, if_neg (by decide)]
  rfl

theorem base64Emit_four (val : BitVec 32) (out : Str) :
    base64Emit val 4 out = (-2, out ++ [base64Char val 4]) := by
  rw [base64Emit, if_pos (by decide), base64Emit, if_neg (by decide)]
  rfl

/-- The third byte completes two characters. -/
theorem base64Emit_six (val : BitVec 32) (out : Str) :
    base64Emit val 6 out = (-6, out ++ [base64Char val 6, base64Char val 0]) := by
  rw [base64Emit, if_pos (by decide), base64Emit, if_pos (by decide), base64Emit,
    if_neg (by decide), List.append_assoc]
  rfl

/-- The accumulator after one more byte. -/
def pushByte (val : BitVec 32) (c : UInt8) : BitVec 32 := val <<< 8 + BitVec.ofNat 32 c.toNat

theorem toNat_pushByte (val : BitVec 32) (c : UInt8) :
    (pushByte val c).toNat = (val.toNat * 256 + c.toNat) % 2 ^ 32 :=
  toNat_shiftLeft_add val 8 c.toNat

theorem base64Char_first (val : BitVec 32) (a : UInt8) :
    base64Char (pushByte val a) 2 = sextet (a.toNat / 4) := by
  have ha := a.toNat_lt
  refine base64Char_eq (by decide) ?_
  rw [toNat_pushByte]
  omega

theorem base64Char_second (val : BitVec 32) (a b : UInt8) :
    base64Char (pushByte (pushByte val a) b) 4 = sextet (a.toNat * 16 + b.toNat / 16) := by
  have hb := b.toNat_lt
  refine base64Char_eq (by decide) ?_
  rw [toNat_pushByte, toNat_pushByte]
  omega

theorem base64EncodeLoop_cons (c : UInt8) (cs : Str) (val : BitVec 32) (valb : Int) (out : Str) :
    base64EncodeLoop (c :: cs) val valb out
      = base64EncodeLoop cs (pushByte val c) (base64Emit (pushByte val c) (valb + 8) out).1
        (base64Emit (pushByte val c) (valb + 8) out).2 := rfl

/-- One byte into an empty accumulator leaves two bits in it. -/
theorem base64EncodeLoop_first (a : UInt8) (cs : Str) (val : BitVec 32) (out : Str) :
    base64EncodeLoop (a :: cs) val (-6) out
      = base64EncodeLoop cs (pushByte val a) (-4) (out ++ [sextet (a.toNat / 4)]) := by
  have hemit := base64Emit_two (pushByte val a) out
  rw [base64Char_first] at hemit
  rw [base64EncodeLoop_cons, show (-6 + 8 : Int) = 2 from rfl, hemit]

/-- Two bytes leave four. -/
theorem base64EncodeLoop_second (a b : UInt8) (cs : Str) (val : BitVec 32) (out : Str) :
    base64EncodeLoop (a :: b :: cs) val (-6) out
      = base64EncodeLoop cs (pushByte (pushByte val a) b) (-2)
        (out ++ [sextet (a.toNat / 4), sextet (a.toNat * 16 + b.toNat / 16)]) := by
  have hemit := base64Emit_four (pushByte (pushByte val a) b) (out ++ [sextet (a.toNat / 4)])
  rw [base64Char_second, List.append_assoc] at hemit
  rw [base64EncodeLoop_first, base64EncodeLoop_cons, show (-4 + 8 : Int) = 4 from rfl, hemit]
  rfl

/-- Three bytes leave none. -/
theorem base64EncodeLoop_third (a b c : UInt8) (cs : Str) (val : BitVec 32) (out : Str) :
    base64EncodeLoop (a :: b :: c :: cs) val (-6) out
      = base64EncodeLoop cs (pushByte (pushByte (pushByte val a) b) c) (-6)
        (out ++ [sextet (a.toNat / 4), sextet (a.toNat * 16 + b.toNat / 16),
          sextet (b.toNat * 4 + c.toNat / 64), sextet c.toNat]) := by
  have hc := c.toNat_lt
  have hthird : base64Char (pushByte (pushByte (pushByte val a) b) c) 6
      = sextet (b.toNat * 4 + c.toNat / 64) := by
    refine base64Char_eq (by decide) ?_
    rw [toNat_pushByte, toNat_pushByte]
    omega
  have hfourth : base64Char (pushByte (pushByte (pushByte val a) b) c) 0 = sextet c.toNat := by
    refine base64Char_eq (by decide) ?_
    rw [toNat_pushByte]
    omega
  have hemit := base64Emit_six (pushByte (pushByte (pushByte val a) b) c)
    (out ++ [sextet (a.toNat / 4), sextet (a.toNat * 16 + b.toNat / 16)])
  rw [hthird, hfourth, List.append_assoc] at hemit
  rw [base64EncodeLoop_second, base64EncodeLoop_cons, show (-2 + 8 : Int) = 6 from rfl, hemit]
  rfl

/-- What the encoder has written, with a character for the bits that are left. -/
def flushed (r : BitVec 32 × Int × Str) : Str :=
  if r.2.1 > -6 then r.2.2 ++ [base64Char (r.1 <<< 8) (r.2.1 + 8).toNat] else r.2.2

/-- **The encoder writes six bits after six bits.** -/
theorem flushed_base64EncodeLoop (s : Str) : ∀ (val : BitVec 32) (out : Str),
    flushed (base64EncodeLoop s val (-6) out) = out ++ sextets s := by
  induction s using sextets.induct with
  | case1 =>
      intro val out
      simp [base64EncodeLoop, flushed, sextets]
  | case2 a =>
      intro val out
      have ha := a.toNat_lt
      have hleft : base64Char (pushByte val a <<< 8) 4 = sextet (a.toNat * 16) := by
        refine base64Char_eq (by decide) ?_
        rw [BitVec.toNat_shiftLeft, toNat_pushByte, Nat.shiftLeft_eq]
        omega
      rw [base64EncodeLoop_first]
      simp [base64EncodeLoop, flushed, sextets, hleft]
  | case3 a b =>
      intro val out
      have hb := b.toNat_lt
      have hleft : base64Char (pushByte (pushByte val a) b <<< 8) 6 = sextet (b.toNat * 4) := by
        refine base64Char_eq (by decide) ?_
        rw [BitVec.toNat_shiftLeft, toNat_pushByte, Nat.shiftLeft_eq]
        omega
      rw [base64EncodeLoop_second]
      simp [base64EncodeLoop, flushed, sextets, hleft]
  | case4 a b c rest ih =>
      intro val out
      rw [base64EncodeLoop_third, ih]
      simp [sextets]

/-- The padding is `=` signs. -/
theorem base64Pad_eq (out : Str) : ∃ pads, base64Pad out = out ++ pads ∧ ∀ c ∈ pads, c = byte '=' := by
  induction out using base64Pad.induct with
  | case1 out h => exact ⟨[], by rw [base64Pad, if_pos h, List.append_nil], by simp⟩
  | case2 out h ih =>
      obtain ⟨pads, hpad, hall⟩ := ih
      refine ⟨byte '=' :: pads, ?_, by simpa using hall⟩
      rw [base64Pad, if_neg h, hpad]
      simp

theorem base64Encode_eq_pad (s : Str) : base64Encode s = base64Pad (sextets s) := by
  have hloop := flushed_base64EncodeLoop s 0 []
  rw [List.nil_append] at hloop
  rw [← hloop]
  rfl

theorem base64Encode_eq (s : Str) :
    ∃ pads, base64Encode s = sextets s ++ pads ∧ ∀ c ∈ pads, c = byte '=' := by
  obtain ⟨pads, hpad, hall⟩ := base64Pad_eq (sextets s)
  exact ⟨pads, by rw [base64Encode_eq_pad, hpad], hall⟩

/-! ### Decoding -/

/-- The accumulator after one more character. -/
def pushSextet (val : BitVec 32) (n : Nat) : BitVec 32 := val <<< 6 + BitVec.ofNat 32 (n % 64)

/-- The byte that is taken from the accumulator. -/
def takeByte (val : BitVec 32) (valb : Nat) : UInt8 :=
  UInt8.ofBitVec ((val.sshiftRight valb).truncate 8)

theorem base64DecodeLoop_sextet (n : Nat) (cs : Str) (val : BitVec 32) (valb : Int) (out : Str) :
    base64DecodeLoop (sextet n :: cs) val valb out =
      if 0 ≤ valb + 6 then
        base64DecodeLoop cs (pushSextet val n) (valb + 6 - 8)
          (out ++ [takeByte (pushSextet val n) (valb + 6).toNat])
      else base64DecodeLoop cs (pushSextet val n) (valb + 6) out := by
  have hne : ¬((n % 64 : Nat) : Int) = -1 := by omega
  rw [base64DecodeLoop, (base64Table_sextet n).1, if_neg hne]
  rfl

theorem toNat_pushSextet (val : BitVec 32) (n : Nat) :
    (pushSextet val n).toNat = (val.toNat * 64 + n % 64) % 2 ^ 32 :=
  toNat_shiftLeft_add val 6 (n % 64)

theorem takeByte_eq {val : BitVec 32} {valb : Nat} {b : UInt8} (h : valb + 8 ≤ 32)
    (hb : val.toNat / 2 ^ valb % 256 = b.toNat) : takeByte val valb = b := by
  have hbits := toNat_sshiftRight_and val h
  rw [BitVec.toNat_and, BitVec.toNat_ofNat, Nat.mod_eq_of_lt (by decide),
    Nat.and_two_pow_sub_one_eq_mod] at hbits
  rw [← UInt8.toNat_inj, ← hb]
  show ((val.sshiftRight valb).setWidth 8).toNat = _
  rw [BitVec.toNat_setWidth]
  exact hbits

/-- Two characters hold a byte and four bits more. -/
theorem base64DecodeLoop_two (a : UInt8) {m : Nat} (hm : m / 16 % 4 = a.toNat % 4) (cs : Str)
    (val : BitVec 32) (out : Str) :
    base64DecodeLoop (sextet (a.toNat / 4) :: sextet m :: cs) val (-8) out
      = base64DecodeLoop cs (pushSextet (pushSextet val (a.toNat / 4)) m) (-4) (out ++ [a]) := by
  have ha := a.toNat_lt
  have hbyte : takeByte (pushSextet (pushSextet val (a.toNat / 4)) m) 4 = a := by
    refine takeByte_eq (by decide) ?_
    rw [toNat_pushSextet, toNat_pushSextet]
    omega
  rw [base64DecodeLoop_sextet, if_neg (by decide), base64DecodeLoop_sextet, if_pos (by decide)]
  simp [hbyte]

/-- Three hold two bytes and two bits more. -/
theorem base64DecodeLoop_three (a b : UInt8) {m : Nat} (hm : m / 4 % 16 = b.toNat % 16) (cs : Str)
    (val : BitVec 32) (out : Str) :
    ∃ val', base64DecodeLoop (sextet (a.toNat / 4) :: sextet (a.toNat * 16 + b.toNat / 16) ::
        sextet m :: cs) val (-8) out
      = base64DecodeLoop cs (pushSextet val' m) (-6) (out ++ [a, b]) := by
  have hb := b.toNat_lt
  obtain ⟨val', hval'⟩ : ∃ val', val' = pushSextet (pushSextet val (a.toNat / 4))
    (a.toNat * 16 + b.toNat / 16) := ⟨_, rfl⟩
  have hlow : val'.toNat % 16 = b.toNat / 16 := by
    rw [hval', toNat_pushSextet]
    omega
  have hbyte : takeByte (pushSextet val' m) 2 = b := by
    refine takeByte_eq (by decide) ?_
    rw [toNat_pushSextet]
    omega
  refine ⟨val', ?_⟩
  rw [base64DecodeLoop_two a (by omega), base64DecodeLoop_sextet, if_pos (by decide), ← hval']
  simp [hbyte]

/-- Four hold three bytes, and leave nothing over. -/
theorem base64DecodeLoop_four (a b c : UInt8) (cs : Str) (val : BitVec 32) (out : Str) :
    ∃ val', base64DecodeLoop (sextet (a.toNat / 4) :: sextet (a.toNat * 16 + b.toNat / 16) ::
        sextet (b.toNat * 4 + c.toNat / 64) :: sextet c.toNat :: cs) val (-8) out
      = base64DecodeLoop cs val' (-8) (out ++ [a, b, c]) := by
  have hb := b.toNat_lt
  have hc := c.toNat_lt
  obtain ⟨val', hloop⟩ := base64DecodeLoop_three a b (m := b.toNat * 4 + c.toNat / 64) (by omega)
    (sextet c.toNat :: cs) val out
  have hbyte : takeByte (pushSextet (pushSextet val' (b.toNat * 4 + c.toNat / 64)) c.toNat) 0 = c := by
    refine takeByte_eq (by decide) ?_
    rw [toNat_pushSextet, toNat_pushSextet]
    omega
  refine ⟨pushSextet (pushSextet val' (b.toNat * 4 + c.toNat / 64)) c.toNat, ?_⟩
  rw [hloop, base64DecodeLoop_sextet, if_pos (by decide)]
  simp [hbyte]

/-- The decoder gives back what was encoded, whatever its accumulator held. -/
theorem base64DecodeLoop_sextets (s : Str) {pads : Str} (hpads : ∀ c ∈ pads, c = byte '=') :
    ∀ (val : BitVec 32) (out : Str), base64DecodeLoop (sextets s ++ pads) val (-8) out = out ++ s := by
  have hstop : ∀ (val : BitVec 32) (valb : Int) (out : Str),
      base64DecodeLoop pads val valb out = out := by
    intro val valb out
    cases pads with
    | nil => rfl
    | cons c pads =>
        have hpad : base64Table (byte '=') = -1 := by decide
        rw [hpads c (by simp), base64DecodeLoop, if_pos hpad]
  induction s using sextets.induct with
  | case1 =>
      intro val out
      simp [sextets, hstop]
  | case2 a =>
      intro val out
      simp only [sextets, List.cons_append, List.nil_append]
      rw [base64DecodeLoop_two a (by omega), hstop]
  | case3 a b =>
      intro val out
      obtain ⟨val', hloop⟩ := base64DecodeLoop_three a b (m := b.toNat * 4) (by omega) pads val out
      simp only [sextets, List.cons_append, List.nil_append]
      rw [hloop, hstop]
  | case4 a b c rest ih =>
      intro val out
      obtain ⟨val', hloop⟩ := base64DecodeLoop_four a b c (sextets rest ++ pads) val out
      simp only [sextets, List.cons_append]
      rw [hloop, ih, List.append_assoc]
      rfl

/-- **Decoding undoes encoding.** -/
theorem base64Decode_base64Encode (s : Str) : base64Decode (base64Encode s) = s := by
  obtain ⟨pads, hencode, hpads⟩ := base64Encode_eq s
  rw [base64Decode, hencode, base64DecodeLoop_sextets s hpads, List.nil_append]

theorem space_not_mem_base64Encode (s : Str) : byte ' ' ∉ base64Encode s := by
  obtain ⟨pads, hencode, hpads⟩ := base64Encode_eq s
  rw [hencode]
  intro hmem
  rcases List.mem_append.mp hmem with hmem | hmem
  · exact space_not_mem_sextets s hmem
  · exact absurd (hpads _ hmem) (by decide)

/-! ### The standard encoding

Between the bit stream and the groups of three stands `sextets`, which has the groups of
the one and the characters of the other.
-/

theorem sextet_eq_digit (n : Nat) : sextet n = Base64.digit (n % 64) := by
  have key : ∀ i < 64, base64Alphabet.getD i 0 = Base64.digit i := by decide +kernel
  exact key (n % 64) (Nat.mod_lt n (by decide))

/-- A full group needs no padding, and changes none. -/
theorem base64Pad_append {front : Str} (hfront : front.length % 4 = 0) (out : Str) :
    base64Pad (front ++ out) = front ++ base64Pad out := by
  have hlength : (front ++ out).length % 4 = out.length % 4 := by
    rw [List.length_append]
    omega
  induction out using base64Pad.induct with
  | case1 out h => rw [base64Pad, if_pos (hlength.trans h), base64Pad, if_pos h]
  | case2 out h ih =>
      have hlength' : (front ++ (out ++ [byte '='])).length % 4 = (out ++ [byte '=']).length % 4 := by
        simp only [List.length_append]
        omega
      rw [base64Pad, if_neg (by rwa [hlength]), List.append_assoc, ih hlength',
        base64Pad.eq_def out, if_neg h]

/-- The digits of three bytes. -/
theorem map_digit_places (a b c : UInt8) :
    (Base64.places (Base64.group a b c)).map Base64.digit
      = [sextet (a.toNat / 4), sextet (a.toNat * 16 + b.toNat / 16),
          sextet (b.toNat * 4 + c.toNat / 64), sextet c.toNat] := by
  have hb := b.toNat_lt
  have hc := c.toNat_lt
  have hfirst : Base64.group a b c / 2 ^ 18 % 64 = a.toNat / 4 % 64 := by
    simp only [Base64.group]
    omega
  have hsecond : Base64.group a b c / 2 ^ 12 % 64 = (a.toNat * 16 + b.toNat / 16) % 64 := by
    simp only [Base64.group]
    omega
  have hthird : Base64.group a b c / 2 ^ 6 % 64 = (b.toNat * 4 + c.toNat / 64) % 64 := by
    simp only [Base64.group]
    omega
  have hfourth : Base64.group a b c % 64 = c.toNat % 64 := by
    simp only [Base64.group]
    omega
  simp only [Base64.places, List.map_cons, List.map_nil, sextet_eq_digit, hfirst, hsecond, hthird,
    hfourth]

/-- **The padded characters are those of the groups.** -/
theorem base64Pad_sextets (s : Str) : base64Pad (sextets s) = Base64.encode s := by
  induction s using sextets.induct with
  | case1 => rw [sextets, base64Pad, if_pos (by rfl), Base64.encode]
  | case2 a =>
      rw [Base64.encode, List.map_take, map_digit_places]
      simp [sextets, base64Pad]
  | case3 a b =>
      rw [Base64.encode, List.map_take, map_digit_places]
      simp [sextets, base64Pad]
  | case4 a b c rest ih =>
      rw [Base64.encode, map_digit_places, ← ih, ← base64Pad_append (by simp)]
      rfl

/-- **The encoder is the standard one**, however often its accumulator has overflowed. -/
theorem base64Encode_standard (s : Str) : base64Encode s = Base64.encode s := by
  rw [base64Encode_eq_pad, base64Pad_sextets]

/-- **Base64 is a bijection** between the byte strings and the canonical texts. -/
theorem base64_bijective :
    (∀ s, base64Decode (base64Encode s) = s) ∧ (∀ s, Base64.Canonical (base64Encode s)) ∧
      ∀ t, Base64.Canonical t → base64Encode (base64Decode t) = t := by
  refine ⟨base64Decode_base64Encode, fun s => ?_, fun t ht => ?_⟩
  · rw [base64Encode_eq_pad, base64Pad_sextets]
    exact Base64.canonical_encode s
  · obtain ⟨s, rfl⟩ := Base64.canonical_iff.mp ht
    rw [← base64Pad_sextets, ← base64Encode_eq_pad, base64Decode_base64Encode]

end JustEnough
