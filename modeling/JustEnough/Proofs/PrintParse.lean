/-
What the printer prints, the parser reads back.

A tree the parser has built contains words of the lexical grammar only, and at least
one in every statement.  The printer puts a space or a delimiter after each word and
otherwise only blanks between tokens, so the tokens of a tree are again the tokens of
its printed text, at every depth of indentation; and the tokens decide what the parser
makes of a text (`parse_of_lexes`).
-/
import JustEnough.Proofs.Grammar

namespace JustEnough

variable {stop : Str → Prop}

/-! ### Words -/

def ValidWord (w : Str) : Prop := QuotedWord w ∨ BareWord w

/-- Every word of a text is a word of the lexical grammar. -/
theorem LexesUpTo.validWord {s : Str} {ts : List Token} (h : LexesUpTo stop s ts) :
    ∀ w, .word w ∈ ts → ValidWord w := by
  induction h with
  | stop hs => simp
  | blank _ _ ih => exact ih
  | comment _ _ _ ih => exact ih
  | quoted hw _ ih =>
      intro w hmem
      rcases List.mem_cons.mp hmem with heq | hmem
      · obtain rfl := Token.word.inj heq
        exact Or.inl hw
      · exact ih w hmem
  | bare hw _ _ ih =>
      intro w hmem
      rcases List.mem_cons.mp hmem with heq | hmem
      · obtain rfl := Token.word.inj heq
        exact Or.inr hw
      · exact ih w hmem
  | semicolon _ ih => simpa using ih
  | openBrace _ ih => simpa using ih
  | closeBrace _ ih => simpa using ih

theorem lexes_word {w s : Str} {c : UInt8} {ts : List Token} (hw : ValidWord w)
    (hc : c ∈ delimiters) (h : LexesUpTo stop (c :: s) ts) :
    LexesUpTo stop (w ++ c :: s) (.word w :: ts) := by
  rcases hw with hw | hw
  · exact .quoted hw h
  · exact .bare hw hc h

theorem lexes_blanks {b s : Str} {ts : List Token} (hb : ∀ c ∈ b, c ∈ blanks)
    (h : LexesUpTo stop s ts) : LexesUpTo stop (b ++ s) ts := by
  induction b with
  | nil => exact h
  | cons c b ih => exact .blank (hb c (by simp)) (ih fun x hx => hb x (by simp [hx]))

theorem mem_indent (depth : Nat) : ∀ c ∈ indent depth, c ∈ blanks := by
  intro c hc
  obtain ⟨l, hl, hcl⟩ := List.mem_flatten.mp hc
  obtain rfl := List.eq_of_mem_replicate hl
  obtain rfl : c = byte ' ' := by simpa [lit] using hcl
  decide

/-- The words of a statement, with the spaces the printer puts between them. -/
theorem lexes_words {words : List Str} {s : Str} {c : UInt8} {ts : List Token}
    (hne : words ≠ []) (hwords : ∀ w ∈ words, ValidWord w) (hc : c ∈ delimiters)
    (h : LexesUpTo stop (c :: s) ts) :
    LexesUpTo stop (List.intercalate (lit " ") words ++ c :: s) (words.map .word ++ ts) := by
  induction words with
  | nil => exact absurd rfl hne
  | cons w words ih =>
      cases words with
      | nil => simpa [List.intercalate] using lexes_word (hwords w (by simp)) hc h
      | cons w' words =>
          have hrest := ih (by simp) fun x hx => hwords x (by simp [hx])
          have hspace := LexesUpTo.blank (c := byte ' ') (by decide) hrest
          have hword := lexes_word (hwords w (by simp)) (by decide) hspace
          simpa [List.intercalate, List.intersperse, lit] using hword

/-! ### Trees -/

mutual

theorem lexes_statement {ts us : List Token} {statement : NginxConfigStatement} {s : Str}
    (h : IsStatement ts statement) (hvalid : ∀ w, .word w ∈ ts → ValidWord w)
    (hs : LexesUpTo stop s us) (depth : Nat) :
    LexesUpTo stop (NginxConfigStatement.toString depth statement ++ s) (ts ++ us) := by
  cases h with
  | @simple words hwords =>
      have hend : LexesUpTo stop (byte ';' :: (lit "\n" ++ s)) (.semicolon :: us) :=
        .semicolon (.blank (by decide) hs)
      have hline := lexes_words hwords (fun w hw => hvalid w (by simp [hw])) (by decide) hend
      simpa [NginxConfigStatement.toString, childBlockToString, lit] using
        lexes_blanks (mem_indent depth) hline
  | @block words ts child hwords hchild =>
      have hclose : LexesUpTo stop (byte '\x7d' :: (lit "\n" ++ s)) (.closeBrace :: us) :=
        .closeBrace (.blank (by decide) hs)
      have hbody := lexes_block hchild (fun w hw => hvalid w (by simp [hw]))
        (lexes_blanks (mem_indent depth) hclose) (depth + 1)
      have hopen := LexesUpTo.blank (c := byte ' ') (by decide)
        (.openBrace (.blank (c := byte '\n') (by decide) hbody))
      have hline := lexes_words hwords (fun w hw => hvalid w (by simp [hw])) (by decide) hopen
      simpa [NginxConfigStatement.toString, childBlockToString, lit] using
        lexes_blanks (mem_indent depth) hline

theorem lexes_block {ts us : List Token} {c : List NginxConfigStatement} {s : Str}
    (h : IsBlock ts c) (hvalid : ∀ w, .word w ∈ ts → ValidWord w)
    (hs : LexesUpTo stop s us) (depth : Nat) :
    LexesUpTo stop (NginxConfig.toString depth c ++ s) (ts ++ us) := by
  cases h with
  | nil => exact hs
  | cons hstatement hrest =>
      have htail := lexes_block hrest (fun w hw => hvalid w (by simp [hw])) hs depth
      simpa [NginxConfig.toString] using
        lexes_statement hstatement (fun w hw => hvalid w (by simp [hw])) htail depth

end

/-- **A tree the parser has built is printed to a text the parser builds it from.** -/
theorem parse_toString {s : Str} {c : NginxConfig} (h : parse s = .ok (true, c)) (depth : Nat) :
    parse (NginxConfig.toString depth c) = .ok (true, c) := by
  obtain ⟨ts, hlex, hconfig⟩ := parse_eq_true_iff.mp h
  have hend : LexesUpTo Dangling [] [] := .stop (Or.inl rfl)
  have hprinted : LexesUpTo Dangling (NginxConfig.toString depth c) ts := by
    simpa using lexes_block hconfig.1 hlex.validWord hend depth
  exact (parse_of_lexes hprinted).mpr hconfig

theorem parse_toString_example :
    parse (NginxConfig.toString 1 [.mk [lit "a"] (some [.mk [lit "b", lit "'c'"] none])])
      = .ok (true, [.mk [lit "a"] (some [.mk [lit "b", lit "'c'"] none])]) := by
  have hlex : LexesUpTo Dangling (lit "a\x7bb'c';\x7d") [.word (lit "a"), .openBrace,
      .word (lit "b"), .word (lit "'c'"), .semicolon, .closeBrace] := by
    refine .bare (w := lit "a") (by unfold BareWord; decide +kernel) (by decide) (.openBrace ?_)
    refine .bare (w := lit "b") (by unfold BareWord; decide +kernel) (by decide) ?_
    refine .quoted (w := lit "'c'") ⟨quote, lit "c", Or.inr rfl, by decide, rfl⟩ ?_
    exact .semicolon (.closeBrace (.stop (Or.inl rfl)))
  have hconfig := (Partial.isConfig_iff [.word (lit "a"), .openBrace, .word (lit "b"),
    .word (lit "'c'"), .semicolon, .closeBrace] _).mpr ⟨_, rfl, ⟨rfl, rfl, by simp⟩, rfl⟩
  exact parse_toString ((parse_of_lexes hlex).mpr hconfig) 1

end JustEnough
