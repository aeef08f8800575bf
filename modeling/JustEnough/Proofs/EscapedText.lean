/-
References in a text read back.

Before a text is cut at its marks, a character after a backslash and every code span, link and
tag is replaced by a reference, and afterwards the references are replaced by tokens.  What
stands in between is an encoding with a terminator: a reference begins and ends with the byte
1, which the rest of the text does not have.

A text without that byte is read over until the first reference (`encodeProcessedItems_append`),
a reference is read as the one token that it is to (`encodeProcessedItems_placeholder`), and an
escaped character as itself.  So the tokens of a text are those that one reading of it gives,
and nothing stops the reader on its way (`references_read_back`).
-/
import JustEnough.Server.MarkdownTokens

namespace JustEnough

/-! ### Results -/

section Results

variable {ε α β : Type} {x : Except ε α} {b : β}

theorem exists_of_map_ok {f : α → β} (h : x.map f = .ok b) : ∃ a, x = .ok a ∧ b = f a := by
  cases x with
  | error e => cases h
  | ok a => exact ⟨a, rfl, (Except.ok.inj h).symm⟩

theorem exists_of_bind_ok {f : α → Except ε β} (h : x.bind f = .ok b) : ∃ a, x = .ok a ∧ f a = .ok b := by
  cases x with
  | error e => cases h
  | ok a => exact ⟨a, rfl, h⟩

end Results

/-! ### Numbers -/

theorem foldl_digits {ds : List Char} (h : ∀ d ∈ ds, d.isDigit = true) (n : Nat) :
    (ds.map byte).foldl (fun n d => n * 10 + (d.toNat - 48)) n = Nat.ofDigitChars 10 ds n := by
  induction ds generalizing n with
  | nil => rfl
  | cons d ds ih =>
      have hdigit : d.isDigit = true := h d List.mem_cons_self
      have hlt : d.toNat < 256 := by
        have hhigh : d.toNat ≤ 57 := by
          simp only [Char.isDigit, Bool.and_eq_true, decide_eq_true_eq, UInt32.le_iff_toNat_le] at hdigit
          exact hdigit.2
        omega
      have hbyte : (byte d).toNat = d.toNat := by
        rw [byte, UInt8.toNat_ofNat']
        exact Nat.mod_eq_of_lt hlt
      rw [List.map_cons, List.foldl_cons, ih fun d' hd' => h d' (List.mem_cons_of_mem _ hd'), hbyte,
        Nat.ofDigitChars_cons, Nat.mul_comm]
      rfl

/-- A number that is printed is read again. -/
theorem digitsValue_decimal (n : Nat) : digitsValue (decimal n) = n := by
  have hdigits : ∀ d ∈ Nat.toDigits 10 n, d.isDigit = true := by
    intro d hd
    exact Nat.isDigit_of_mem_toDigits (by decide) (by decide) hd
  have hdecimal : decimal n = (Nat.toDigits 10 n).map byte := by
    simp [decimal, lit]
  rw [hdecimal, digitsValue, foldl_digits hdigits, Nat.ofDigitChars_ten_toDigits]

theorem decimal_ne_nil (n : Nat) : decimal n ≠ [] := by
  intro h
  simp [decimal, lit] at h

theorem castSize_decimal {n : Nat} (h : n < 2 ^ 64) : castSize (decimal n) = .ok n := by
  have hfits : ¬(decimal n = [] ∨ 2 ^ 64 ≤ digitsValue (decimal n)) := by
    rw [digitsValue_decimal]
    intro hor
    obtain hnil | hle := hor
    · exact decimal_ne_nil n hnil
    · omega
  rw [castSize, if_neg hfits, digitsValue_decimal]

/-! ### One reference -/

section Reference

variable {replacements : List MarkdownToken} {ref name rest : Str}

/-- A reference to a token or to a character. -/
def IsRef (ref : Str) : Prop := ∃ n, ref = decimal n ∨ ref = byte '#' :: decimal n

theorem takeWhile_decimal (n : Nat) (s : Str) :
    (decimal n ++ byte '@' :: s).takeWhile isDigit = decimal n ∧
      (decimal n ++ byte '@' :: s).dropWhile isDigit = byte '@' :: s := by
  have hdigits : ∀ c ∈ decimal n, isDigit c = true := fun c hc => isDigit_of_mem_decimal hc
  rw [List.takeWhile_append_of_pos hdigits, List.dropWhile_append_of_pos hdigits]
  exact ⟨List.append_nil _, rfl⟩

theorem splitRef_ref (h : IsRef ref) (s : Str) : splitRef (ref ++ byte '@' :: s) = (ref, byte '@' :: s) := by
  obtain ⟨n, rfl | rfl⟩ := h
  · have hwhole := takeWhile_decimal n s
    cases hdecimal : decimal n with
    | nil => exact absurd hdecimal (decimal_ne_nil n)
    | cons c ds =>
        have hdigit : isDigit c = true := by
          apply isDigit_of_mem_decimal (n := n)
          rw [hdecimal]
          exact List.mem_cons_self
        have hsign : c ≠ byte '#' := by
          intro heq
          rw [heq] at hdigit
          exact absurd hdigit (by decide)
        rw [hdecimal] at hwhole
        rw [List.cons_append, splitRef, if_neg hsign, ← List.cons_append, hwhole.1, hwhole.2]
  · have hwhole := takeWhile_decimal n s
    rw [List.cons_append, splitRef, if_pos rfl, hwhole.1, hwhole.2]

/-- What is in a reference beside the bytes at its ends. -/
structure IsName (name : Str) : Prop where
  nonempty : name ≠ []
  plain : 1 ∉ name
  unescaped : byte '\\' ∉ name

theorem readReplaced_placeholder (href : IsRef ref) (hname : IsName name) :
    readReplaced (placeholder ref name ++ rest) = some (ref, rest) := by
  have hwhole : placeholder ref name ++ rest = 1 :: byte '@' :: (ref ++ byte '@' :: (name ++ 1 :: rest)) := by
    simp [placeholder]
  obtain ⟨c, name', rfl⟩ := List.exists_cons_of_ne_nil hname.nonempty
  have hlast : (name' ++ 1 :: rest).dropWhile (fun c => decide (c ≠ 1)) = 1 :: rest := by
    have hplain : ∀ c ∈ name', decide (c ≠ 1) = true := by
      intro d hd
      apply decide_eq_true
      intro heq
      exact hname.plain (heq ▸ List.mem_cons_of_mem _ hd)
    rw [List.dropWhile_append_of_pos hplain]
    rfl
  rw [hwhole, readReplaced]
  simp only [List.drop_succ_cons, List.drop_zero, splitRef_ref href, List.cons_append, hlast]
  exact if_pos ⟨rfl, rfl, List.cons_ne_nil _ _⟩

end Reference

/-! ### The reader -/

section Reader

variable {replacements : List MarkdownToken} {text rest : Str}

theorem encodeProcessedItems_none {src : Str} (h : findReplaced src = none) :
    encodeProcessedItems replacements src = .ok (textTokens src) := by
  rw [encodeProcessedItems]
  split
  · rfl
  · rename_i hfind
    rw [h] at hfind
    cases hfind

theorem encodeProcessedItems_some {src pre ref after : Str}
    (h : findReplaced src = some (pre, ref, after)) :
    encodeProcessedItems replacements src = (replacedItem replacements ref).bind fun item =>
      (encodeProcessedItems replacements after).map (textTokens pre ++ item ++ ·) := by
  rw [encodeProcessedItems]
  split
  · rename_i hfind
    rw [h] at hfind
    cases hfind
  · rename_i hfind
    rw [h] at hfind
    obtain ⟨rfl, hrest⟩ := Prod.mk.inj (Option.some.inj hfind)
    obtain ⟨rfl, rfl⟩ := Prod.mk.inj hrest
    cases replacedItem replacements ref with
    | error e => rfl
    | ok item => rfl

/-- Where no text stands before the first reference. -/
def Begins (rest : Str) : Prop := rest = [] ∨ ∃ ref after, findReplaced rest = some ([], ref, after)

theorem readReplaced_of_ne {c : UInt8} (h : c ≠ 1) (s : Str) : readReplaced (c :: s) = none := by
  rw [readReplaced]
  apply if_neg
  intro hall
  have hprefix := List.isPrefixOf_iff_prefix.mp hall.1
  exact h (List.cons_prefix_cons.mp hprefix).1.symm

theorem findReplaced_append (h : 1 ∉ text) :
    findReplaced (text ++ rest) = (findReplaced rest).map fun found => (text ++ found.1, found.2) := by
  induction text with
  | nil => simp
  | cons c text ih =>
      obtain ⟨hc, htext⟩ : 1 ≠ c ∧ 1 ∉ text := by simpa using h
      rw [List.cons_append, findReplaced, readReplaced_of_ne hc.symm, ih htext, Option.map_map]
      rfl

/-- A text is read over until the first reference. -/
theorem encodeProcessedItems_append (h : 1 ∉ text) (hrest : Begins rest) :
    encodeProcessedItems replacements (text ++ rest)
      = (encodeProcessedItems replacements rest).map (textTokens text ++ ·) := by
  have hfind := @findReplaced_append text rest h
  obtain rfl | ⟨ref, after, hbegins⟩ := hrest
  · rw [encodeProcessedItems_none hfind, encodeProcessedItems_none (show findReplaced [] = none from rfl),
      List.append_nil]
    show _ = Except.ok (textTokens text ++ [])
    rw [List.append_nil]
  · rw [hbegins] at hfind
    rw [encodeProcessedItems_some hfind, encodeProcessedItems_some hbegins, List.append_nil]
    cases replacedItem replacements ref with
    | error e => rfl
    | ok item =>
        show Except.map _ _ = Except.map _ (Except.map _ _)
        cases encodeProcessedItems replacements after with
        | error e => rfl
        | ok items =>
            show Except.ok (textTokens text ++ item ++ items)
              = Except.ok (textTokens text ++ ([] ++ item ++ items))
            rw [List.nil_append, List.append_assoc]

theorem begins_placeholder {ref name : Str} (href : IsRef ref) (hname : IsName name) (rest : Str) :
    findReplaced (placeholder ref name ++ rest) = some ([], ref, rest) := by
  have hread := @readReplaced_placeholder ref name rest href hname
  rw [placeholder, List.cons_append] at hread ⊢
  rw [findReplaced, hread]

/-- A reference is read as what it is to. -/
theorem encodeProcessedItems_placeholder {ref name : Str} (href : IsRef ref) (hname : IsName name)
    {item : List MarkdownToken} (hitem : replacedItem replacements ref = .ok item) :
    encodeProcessedItems replacements (placeholder ref name ++ rest)
      = (encodeProcessedItems replacements rest).map (item ++ ·) := by
  rw [encodeProcessedItems_some (begins_placeholder href hname rest), hitem]
  rfl

end Reader

/-! ### Escaped characters -/

/-- What a text says: each character after a backslash, where it is one that can be escaped, is a
token, and the texts between are tokens. -/
def escapedItems (pre : Str) : Str → List MarkdownToken
  | [] => textTokens pre
  | [c] => textTokens (pre ++ [c])
  | c :: d :: s =>
    if c = byte '\\' then
      if d ∈ cEscapedCharacters then textTokens pre ++ .escapedCharacter d :: escapedItems [] s
      else escapedItems (pre ++ [c, d]) s
    else escapedItems (pre ++ [c]) (d :: s)

theorem isName_escaped : IsName (lit "escaped") where
  nonempty := by decide +kernel
  plain := by decide +kernel
  unescaped := by decide +kernel

section Escapes

variable {replacements : List MarkdownToken}

theorem isEscapedCharacter_some {d : UInt8} (h : d ∈ cEscapedCharacters) :
    isEscapedCharacter d = some (cEscapedCharacters.idxOf d) := if_pos h

/-- The reference to a character is read as the character. -/
theorem replacedItem_escaped {d : UInt8} (h : d ∈ cEscapedCharacters) :
    replacedItem replacements (byte '#' :: decimal (cEscapedCharacters.idxOf d))
      = .ok [.escapedCharacter d] := by
  have hlt := List.idxOf_lt_length_of_mem h
  have hlength : cEscapedCharacters.length = 16 := by decide +kernel
  have hchar : escapedCharacter (cEscapedCharacters.idxOf d) = some d := by
    rw [escapedCharacter, List.getElem?_append_left hlt, List.getElem?_idxOf h]
  rw [replacedItem, List.head?_cons, if_pos rfl, List.drop_succ_cons, List.drop_zero,
    castSize_decimal (by omega)]
  simp only [hchar]

/-- The text before a reference, or before the end, is read as what it says. -/
theorem encodeProcessedItems_escaped {pre text rest : Str} (hpre : 1 ∉ pre) (htext : 1 ∉ text)
    (hrest : Begins rest) :
    encodeProcessedItems replacements (pre ++ (processEscapedCharacters text ++ rest))
      = (encodeProcessedItems replacements rest).map (escapedItems pre text ++ ·) := by
  induction text using processEscapedCharacters.induct generalizing pre with
  | case1 => exact encodeProcessedItems_append hpre hrest
  | case2 c =>
      have hline : 1 ∉ pre ++ [c] := by
        simp only [List.mem_append, not_or]
        exact ⟨hpre, htext⟩
      rw [processEscapedCharacters, ← List.append_assoc]
      exact encodeProcessedItems_append hline hrest
  | case3 d text ih =>
      obtain ⟨_, hd, htext⟩ : 1 ≠ byte '\\' ∧ 1 ≠ d ∧ 1 ∉ text := by simpa using htext
      rw [processEscapedCharacters, if_pos rfl, escapedItems, if_pos rfl]
      by_cases hescaped : d ∈ cEscapedCharacters
      · have hsign : lit "#" ++ decimal (cEscapedCharacters.idxOf d)
            = byte '#' :: decimal (cEscapedCharacters.idxOf d) := rfl
        have href : IsRef (byte '#' :: decimal (cEscapedCharacters.idxOf d)) := ⟨_, .inr rfl⟩
        rw [isEscapedCharacter_some hescaped, if_pos hescaped]
        simp only [hsign]
        rw [List.append_assoc, encodeProcessedItems_append hpre
            (.inr ⟨_, _, begins_placeholder href isName_escaped _⟩),
          encodeProcessedItems_placeholder href isName_escaped (replacedItem_escaped hescaped)]
        have hrec := @ih [] List.not_mem_nil htext
        rw [List.nil_append] at hrec
        rw [hrec]
        cases encodeProcessedItems replacements rest with
        | error e => rfl
        | ok items =>
            show Except.ok (textTokens pre ++ ([.escapedCharacter d] ++ (escapedItems [] text ++ items)))
              = Except.ok (textTokens pre ++ .escapedCharacter d :: escapedItems [] text ++ items)
            rw [List.append_assoc]
            rfl
      · have hline : 1 ∉ pre ++ [byte '\\', d] := by
          simp only [List.mem_append, List.mem_cons, List.not_mem_nil, or_false, not_or]
          exact ⟨hpre, by decide, hd⟩
        rw [show isEscapedCharacter d = none from if_neg hescaped, if_neg hescaped]
        simp only [List.append_assoc]
        rw [← List.append_assoc]
        exact ih hline htext
  | case4 c d text hc ih =>
      obtain ⟨hfirst, htext⟩ : 1 ≠ c ∧ 1 ∉ d :: text := by
        simpa only [List.mem_cons, not_or] using htext
      have hline : 1 ∉ pre ++ [c] := by
        simp only [List.mem_append, List.mem_singleton, not_or]
        exact ⟨hpre, hfirst⟩
      rw [processEscapedCharacters, if_neg hc, escapedItems, if_neg hc]
      have hrec := ih hline htext
      rwa [List.append_assoc] at hrec

/-- Without a backslash nothing is escaped. -/
theorem processEscapedCharacters_append {text : Str} (h : byte '\\' ∉ text) (rest : Str) :
    processEscapedCharacters (text ++ rest) = text ++ processEscapedCharacters rest := by
  induction text with
  | nil => rfl
  | cons c text ih =>
      obtain ⟨hc, htext⟩ : byte '\\' ≠ c ∧ byte '\\' ∉ text := by
        simpa only [List.mem_cons, not_or] using h
      have hrest := ih htext
      cases hwhole : text ++ rest with
      | nil =>
          obtain ⟨rfl, rfl⟩ := List.append_eq_nil_iff.mp hwhole
          rfl
      | cons d s =>
          rw [hwhole] at hrest
          rw [List.cons_append, hwhole, processEscapedCharacters, if_neg hc.symm, hrest, List.cons_append]

/-- Nothing is escaped across the byte that begins a reference. -/
theorem processEscapedCharacters_split (text rest : Str) :
    processEscapedCharacters (text ++ 1 :: rest)
      = processEscapedCharacters text ++ processEscapedCharacters (1 :: rest) := by
  induction text using processEscapedCharacters.induct with
  | case1 => rfl
  | case2 c =>
      by_cases hc : c = byte '\\'
      · have hnot : (1 : UInt8) ∉ cEscapedCharacters := by decide +kernel
        have hrest := @processEscapedCharacters_append [1] (by decide) rest
        rw [List.singleton_append] at hrest
        rw [hrest, List.singleton_append, processEscapedCharacters, processEscapedCharacters, if_pos hc,
          show isEscapedCharacter 1 = none from if_neg hnot]
        rfl
      · have hplain : byte '\\' ∉ [c] := by
          rw [List.mem_singleton]
          exact Ne.symm hc
        exact processEscapedCharacters_append hplain (1 :: rest)
  | case3 d text ih =>
      rw [List.cons_append, List.cons_append, processEscapedCharacters, if_pos rfl, ih,
        processEscapedCharacters, if_pos rfl, List.append_assoc]
  | case4 c d text hc ih =>
      rw [List.cons_append] at ih
      rw [List.cons_append, List.cons_append, processEscapedCharacters, if_neg hc, ih,
        processEscapedCharacters, if_neg hc, List.cons_append]

end Escapes

/-! ### A whole text -/

/-- A reference to a token of the table, and the text after it. -/
structure Reference (replacements : List MarkdownToken) where
  index : Fin replacements.length
  name : Str
  named : IsName name
  text : Str
  plain : 1 ∉ text

namespace Reference

variable {replacements : List MarkdownToken}

/-- How it stands in the text. -/
def source (r : Reference replacements) : Str := placeholder (decimal r.index) r.name ++ r.text

/-- What it says. -/
def items (r : Reference replacements) : List MarkdownToken :=
  replacements.get r.index :: escapedItems [] r.text

theorem isRef_decimal (n : Nat) : IsRef (decimal n) := ⟨n, .inl rfl⟩

/-- It is left as it is when the text around it is escaped. -/
theorem processEscapedCharacters_source (r : Reference replacements) (rest : Str) :
    processEscapedCharacters (placeholder (decimal r.index) r.name ++ rest)
      = placeholder (decimal r.index) r.name ++ processEscapedCharacters rest := by
  apply processEscapedCharacters_append
  have hdigits : byte '\\' ∉ decimal r.index := by
    intro hmem
    exact absurd (isDigit_of_mem_decimal hmem) (by decide)
  simp only [placeholder, List.mem_cons, List.mem_append, List.not_mem_nil, or_false, not_or]
  exact ⟨by decide, by decide, hdigits, by decide, r.named.unescaped, by decide⟩

theorem replacedItem_index (hsize : replacements.length ≤ 2 ^ 64) (r : Reference replacements) :
    replacedItem replacements (decimal r.index) = .ok [replacements.get r.index] := by
  have hlt := r.index.isLt
  have hsign : ¬(decimal r.index).head? = some (byte '#') := by
    intro hhead
    exact absurd (isDigit_of_mem_decimal (List.mem_of_head? hhead)) (by decide)
  rw [replacedItem, if_neg hsign, if_pos (decimal_ne_nil _), castSize_decimal (by omega)]
  simp only [List.getElem?_eq_getElem hlt]
  rfl

end Reference

/-- **A text reads back** from its references and escapes: for every table and every text that has
references to tokens of the table in it, the reader gives these tokens, the characters that are
escaped, and the texts between them, in their order, and nothing stops it. -/
theorem references_read_back {replacements : List MarkdownToken}
    (hsize : replacements.length ≤ 2 ^ 64) {text : Str} (htext : 1 ∉ text)
    (references : List (Reference replacements)) :
    encodeProcessedItems replacements (processEscapedCharacters (text ++ references.flatMap Reference.source))
      = .ok (escapedItems [] text ++ references.flatMap Reference.items) := by
  induction references generalizing text with
  | nil =>
      have hwhole := @encodeProcessedItems_escaped replacements [] text [] List.not_mem_nil htext (.inl rfl)
      rw [List.nil_append, List.append_nil, encodeProcessedItems_none (show findReplaced [] = none from rfl)]
        at hwhole
      rw [List.flatMap_nil, List.append_nil, hwhole]
      rfl
  | cons r references ih =>
      have hsource : (r :: references).flatMap Reference.source
          = placeholder (decimal r.index) r.name ++ (r.text ++ references.flatMap Reference.source) := by
        rw [List.flatMap_cons, Reference.source, List.append_assoc]
      have hbegins := begins_placeholder (Reference.isRef_decimal r.index) r.named
        (processEscapedCharacters (r.text ++ references.flatMap Reference.source))
      have hread := @encodeProcessedItems_escaped replacements [] text _ List.not_mem_nil htext
        (.inr ⟨_, _, hbegins⟩)
      rw [List.nil_append, encodeProcessedItems_placeholder (Reference.isRef_decimal r.index) r.named
        (r.replacedItem_index hsize), ih r.plain] at hread
      have hsplit : processEscapedCharacters (text ++ (r :: references).flatMap Reference.source)
          = processEscapedCharacters text ++ (placeholder (decimal r.index) r.name ++
            processEscapedCharacters (r.text ++ references.flatMap Reference.source)) := by
        rw [← r.processEscapedCharacters_source, hsource]
        exact processEscapedCharacters_split text _
      rw [hsplit, hread]
      rfl

/-- `a\*b\c` and code, and then `\_d`. -/
def exampleReference : Reference [.text .codeSpan (lit "x")] where
  index := 0
  name := lit "codeSpan"
  named := ⟨by decide +kernel, by decide +kernel, by decide +kernel⟩
  text := lit "\\_d"
  plain := by decide +kernel

theorem references_read_back_example :
    encodeProcessedItems [.text .codeSpan (lit "x")]
        (processEscapedCharacters (lit "a\\*b\\c" ++ [exampleReference].flatMap Reference.source))
      = .ok [.text (.rawText true) (lit "a"), .escapedCharacter (byte '*'),
          .text (.rawText true) (lit "b\\c"), .text .codeSpan (lit "x"), .escapedCharacter (byte '_'),
          .text (.rawText true) (lit "d")] := by
  have hread := references_read_back
    (show [MarkdownToken.text .codeSpan (lit "x")].length ≤ 2 ^ 64 by decide)
    (show 1 ∉ lit "a\\*b\\c" by decide +kernel) [exampleReference]
  exact hread

end JustEnough
