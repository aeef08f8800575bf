/-
What the tokenizer recognises.

`LexesUpTo stop` reads a text as blanks, comments, words and punctuation, until the
text that is left satisfies `stop`.  A bare word has to be followed by a delimiter, so
no text is cut in the middle of one.  With nothing left at the end (`Lexes`) this is
the lexical grammar of config files; the tokenizer itself is more generous, and drops
a word or a comment the text ends in (`Dangling`), while a quote that is never closed
(`Unterminated`) is an error.

Every text lexes up to one of these two ends (`exists_lexes`), and the loop of `Parse`
is then a run over its tokens (`parseFrom_eq_feed`).
-/
import JustEnough.Server.ConfigParser

namespace JustEnough

/-! ### The lexical grammar -/

/-- A token that is not a comment. -/
inductive Token
  | word (text : Str)
  | semicolon
  | openBrace
  | closeBrace
  deriving DecidableEq, Repr

/-- The characters no bare word contains. -/
def delimiters : Str := lit " \t\n;\x7b\x7d\"'"

def blanks : Str := lit " \t\n\r"

/-- A quote, anything but that quote, and the same quote again. -/
def QuotedWord (w : Str) : Prop :=
  ∃ q body, (q = byte '"' ∨ q = quote) ∧ q ∉ body ∧ w = q :: body ++ [q]

/-- A run of other characters, where `#` and CR may stand anywhere but in front. -/
def BareWord (w : Str) : Prop :=
  w ≠ [] ∧ w.head? ≠ some (byte '#') ∧ w.head? ≠ some (byte '\r') ∧ ∀ c ∈ w, c ∉ delimiters

/-- A `#` and the rest of its line, without the end of the line. -/
def Comment (w : Str) : Prop :=
  ∃ body, w = byte '#' :: body ∧ byte '\n' ∉ body ∧ byte '\r' ∉ body

inductive LexesUpTo (stop : Str → Prop) : Str → List Token → Prop
  | stop {s : Str} (h : stop s) : LexesUpTo stop s []
  | blank {c : UInt8} {s : Str} {ts : List Token} (hc : c ∈ blanks) (h : LexesUpTo stop s ts) :
      LexesUpTo stop (c :: s) ts
  | comment {w : Str} {c : UInt8} {s : Str} {ts : List Token} (hw : Comment w)
      (hc : c = byte '\n' ∨ c = byte '\r') (h : LexesUpTo stop s ts) :
      LexesUpTo stop (w ++ c :: s) ts
  | quoted {w s : Str} {ts : List Token} (hw : QuotedWord w) (h : LexesUpTo stop s ts) :
      LexesUpTo stop (w ++ s) (.word w :: ts)
  | bare {w : Str} {c : UInt8} {s : Str} {ts : List Token} (hw : BareWord w)
      (hc : c ∈ delimiters) (h : LexesUpTo stop (c :: s) ts) :
      LexesUpTo stop (w ++ c :: s) (.word w :: ts)
  | semicolon {s : Str} {ts : List Token} (h : LexesUpTo stop s ts) :
      LexesUpTo stop (byte ';' :: s) (.semicolon :: ts)
  | openBrace {s : Str} {ts : List Token} (h : LexesUpTo stop s ts) :
      LexesUpTo stop (byte '\x7b' :: s) (.openBrace :: ts)
  | closeBrace {s : Str} {ts : List Token} (h : LexesUpTo stop s ts) :
      LexesUpTo stop (byte '\x7d' :: s) (.closeBrace :: ts)

/-- The whole text lexes. -/
def Lexes (s : Str) (ts : List Token) : Prop := LexesUpTo (· = []) s ts

/-- What the tokenizer drops at the end of a text. -/
def Dangling (s : Str) : Prop := s = [] ∨ BareWord s ∨ Comment s

/-- A quote that is never closed. -/
def Unterminated (s : Str) : Prop :=
  ∃ q body, (q = byte '"' ∨ q = quote) ∧ q ∉ body ∧ s = q :: body

/-! ### Texts that end in a newline -/

private theorem getLast?_of_append {a s : Str} {c : UInt8} (h : (a ++ s).getLast? = some c) :
    s = [] ∨ s.getLast? = some c := by
  by_cases hs : s = []
  · exact Or.inl hs
  · rw [List.getLast?_append_of_ne_nil _ hs] at h
    exact Or.inr h

private theorem not_dangling_newline {s : Str} (h : Dangling s)
    (hlast : s.getLast? = some (byte '\n')) : False := by
  have hmem := List.mem_of_getLast? hlast
  rcases h with rfl | ⟨-, -, -, hall⟩ | ⟨body, rfl, hbody, -⟩
  · cases hlast
  · exact hall _ hmem (by decide)
  · rcases List.mem_cons.mp hmem with h' | h'
    · exact absurd h' (by decide)
    · exact hbody h'

/-- **Nothing is dropped from a text that ends in a newline.** -/
theorem lexes_of_newline {s : Str} {ts : List Token} (h : LexesUpTo Dangling s ts)
    (hlast : s = [] ∨ s.getLast? = some (byte '\n')) : Lexes s ts := by
  induction h with
  | stop hs =>
      rcases hlast with rfl | hlast
      · exact .stop rfl
      · exact (not_dangling_newline hs hlast).elim
  | @blank c s _ hc _ ih =>
      exact .blank hc (ih (getLast?_of_append (a := [c]) (by simpa using hlast)))
  | @comment w c s _ hw hc _ ih =>
      exact .comment hw hc (ih (getLast?_of_append (a := w ++ [c]) (by simpa using hlast)))
  | @quoted w s _ hw _ ih =>
      refine .quoted hw (ih (getLast?_of_append (a := w) ?_))
      obtain ⟨q, body, -, -, rfl⟩ := hw
      simpa using hlast
  | @bare w c s _ hw hc _ ih =>
      refine .bare hw hc (ih (getLast?_of_append (a := w) ?_))
      simpa using hlast
  | @semicolon s _ _ ih =>
      exact .semicolon (ih (getLast?_of_append (a := [byte ';']) (by simpa using hlast)))
  | @openBrace s _ _ ih =>
      exact .openBrace (ih (getLast?_of_append (a := [byte '\x7b']) (by simpa using hlast)))
  | @closeBrace s _ _ ih =>
      exact .closeBrace (ih (getLast?_of_append (a := [byte '\x7d']) (by simpa using hlast)))

theorem LexesUpTo.mono {stop stop' : Str → Prop} {s : Str} {ts : List Token}
    (h : LexesUpTo stop s ts) (hstop : ∀ s, stop s → stop' s) : LexesUpTo stop' s ts := by
  induction h with
  | stop hs => exact .stop (hstop _ hs)
  | blank hc _ ih => exact .blank hc ih
  | comment hw hc _ ih => exact .comment hw hc ih
  | quoted hw _ ih => exact .quoted hw ih
  | bare hw hc _ ih => exact .bare hw hc ih
  | semicolon _ ih => exact .semicolon ih
  | openBrace _ ih => exact .openBrace ih
  | closeBrace _ ih => exact .closeBrace ih

/-- Lexing goes on with the text left, and with more text behind it. -/
theorem LexesUpTo.append {stop : Str → Prop} {s t : Str} {ts us : List Token} (u : Str)
    (h : LexesUpTo (· = t) s ts) (h' : LexesUpTo stop (t ++ u) us) :
    LexesUpTo stop (s ++ u) (ts ++ us) := by
  induction h with
  | stop hs =>
      subst hs
      exact h'
  | blank hc _ ih => exact .blank hc ih
  | comment hw hc _ ih =>
      rw [List.append_assoc]
      exact .comment hw hc ih
  | quoted hw _ ih =>
      rw [List.append_assoc]
      exact .quoted hw ih
  | bare hw hc _ ih =>
      rw [List.append_assoc]
      exact .bare hw hc ih
  | semicolon _ ih => exact .semicolon ih
  | openBrace _ ih => exact .openBrace ih
  | closeBrace _ ih => exact .closeBrace ih

/-- Where the lexing of a text stops, there is some text left. -/
theorem LexesUpTo.exists_tail {stop : Str → Prop} {s : Str} {ts : List Token}
    (h : LexesUpTo stop s ts) : ∃ t, stop t ∧ t <:+ s ∧ LexesUpTo (· = t) s ts := by
  induction h with
  | @stop s hs => exact ⟨s, hs, List.suffix_rfl, .stop rfl⟩
  | blank hc _ ih =>
      obtain ⟨t, ht, hsuffix, ih⟩ := ih
      exact ⟨t, ht, hsuffix.trans (List.suffix_cons ..), .blank hc ih⟩
  | @comment w c s _ hw hc _ ih =>
      obtain ⟨t, ht, hsuffix, ih⟩ := ih
      exact ⟨t, ht, hsuffix.trans ⟨w ++ [c], by simp⟩, .comment hw hc ih⟩
  | @quoted w s _ hw _ ih =>
      obtain ⟨t, ht, hsuffix, ih⟩ := ih
      exact ⟨t, ht, hsuffix.trans (List.suffix_append w s), .quoted hw ih⟩
  | @bare w c s _ hw hc _ ih =>
      obtain ⟨t, ht, hsuffix, ih⟩ := ih
      exact ⟨t, ht, hsuffix.trans (List.suffix_append w (c :: s)), .bare hw hc ih⟩
  | semicolon _ ih =>
      obtain ⟨t, ht, hsuffix, ih⟩ := ih
      exact ⟨t, ht, hsuffix.trans (List.suffix_cons ..), .semicolon ih⟩
  | openBrace _ ih =>
      obtain ⟨t, ht, hsuffix, ih⟩ := ih
      exact ⟨t, ht, hsuffix.trans (List.suffix_cons ..), .openBrace ih⟩
  | closeBrace _ ih =>
      obtain ⟨t, ht, hsuffix, ih⟩ := ih
      exact ⟨t, ht, hsuffix.trans (List.suffix_cons ..), .closeBrace ih⟩

/-! ### What one call of the tokenizer returns

Each state of the tokenizer goes on until its own kind of character comes; it either
comes or the text ends first.
-/

theorem endsNormal_iff {c : UInt8} : endsNormal c = true ↔ c ∈ delimiters := by
  simp only [endsNormal, delimiters, lit, Bool.or_eq_true, decide_eq_true_eq]
  simp [quote, byte]
  tauto

theorem endsNormal_eq_false {c : UInt8} (h : c ∉ delimiters) : endsNormal c = false := by
  rwa [← endsNormal_iff, Bool.not_eq_true] at h

/-- A text up to the first character of some kind, if there is one. -/
private theorem exists_first (p : UInt8 → Bool) (s : Str) :
    (∀ c ∈ s, p c = false) ∨
      ∃ w c t, s = w ++ c :: t ∧ (∀ x ∈ w, p x = false) ∧ p c = true := by
  induction s with
  | nil => exact Or.inl (by simp)
  | cons x s ih =>
      cases hx : p x with
      | true => exact Or.inr ⟨[], x, s, rfl, by simp, hx⟩
      | false =>
          rcases ih with hall | ⟨w, c, t, rfl, hw, hc⟩
          · exact Or.inl (by simpa [hx] using hall)
          · exact Or.inr ⟨x :: w, c, t, rfl, by simpa [hx] using hw, hc⟩

theorem parseTokenFrom_normal {w : Str} {c : UInt8} (hw : ∀ x ∈ w, x ∉ delimiters)
    (hc : c ∈ delimiters) (value s : Str) :
    parseTokenFrom .tokenTypeNormal value (w ++ c :: s) = (.normal, value ++ w, c :: s) := by
  induction w generalizing value with
  | nil => simp [parseTokenFrom, endsNormal_iff.mpr hc]
  | cons x w ih =>
      have hx := endsNormal_eq_false (hw x (by simp))
      simp only [List.cons_append, parseTokenFrom, hx]
      rw [if_neg (by simp), ih fun y hy => hw y (by simp [hy])]
      simp

theorem parseTokenFrom_normal_eof {w : Str} (hw : ∀ x ∈ w, x ∉ delimiters) (value : Str) :
    parseTokenFrom .tokenTypeNormal value w = (.eof, value ++ w, []) := by
  induction w generalizing value with
  | nil => simp [parseTokenFrom]
  | cons x w ih =>
      have hx := endsNormal_eq_false (hw x (by simp))
      simp only [parseTokenFrom, hx]
      rw [if_neg (by simp), ih fun y hy => hw y (by simp [hy])]
      simp

theorem parseTokenFrom_comment {w : Str} {c : UInt8} (hlf : byte '\n' ∉ w) (hcr : byte '\r' ∉ w)
    (hc : c = byte '\n' ∨ c = byte '\r') (value s : Str) :
    parseTokenFrom .tokenTypeComment value (w ++ c :: s) = (.comment, value ++ w, s) := by
  induction w generalizing value with
  | nil => simp [parseTokenFrom, hc]
  | cons x w ih =>
      simp only [List.mem_cons, not_or] at hlf hcr
      simp only [List.cons_append, parseTokenFrom]
      rw [if_neg (by simp [Ne.symm hlf.1, Ne.symm hcr.1]), ih hlf.2 hcr.2]
      simp

theorem parseTokenFrom_comment_eof {w : Str} (hlf : byte '\n' ∉ w) (hcr : byte '\r' ∉ w)
    (value : Str) : parseTokenFrom .tokenTypeComment value w = (.eof, value ++ w, []) := by
  induction w generalizing value with
  | nil => simp [parseTokenFrom]
  | cons x w ih =>
      simp only [List.mem_cons, not_or] at hlf hcr
      simp only [parseTokenFrom]
      rw [if_neg (by simp [Ne.symm hlf.1, Ne.symm hcr.1]), ih hlf.2 hcr.2]
      simp

/-- The state a quote puts the tokenizer in. -/
def quoteState (q : UInt8) : TokenParserState := if q = quote then .singleQuote else .doubleQuote

theorem quoteState_nil {q : UInt8} (hq : q = byte '"' ∨ q = quote) (value : Str) :
    parseTokenFrom (quoteState q) value [] = (.error, value, []) := by
  rcases hq with rfl | rfl <;> rfl

theorem quoteState_cons {q : UInt8} (hq : q = byte '"' ∨ q = quote) (value : Str) (c : UInt8)
    (s : Str) :
    parseTokenFrom (quoteState q) value (c :: s) =
      if c = q then (.normal, value ++ [c], s)
      else parseTokenFrom (quoteState q) (value ++ [c]) s := by
  rcases hq with rfl | rfl <;> rfl

theorem parseTokenFrom_quote {q : UInt8} {w : Str} (hq : q = byte '"' ∨ q = quote) (hw : q ∉ w)
    (value s : Str) :
    parseTokenFrom (quoteState q) value (w ++ q :: s) = (.normal, value ++ w ++ [q], s) := by
  induction w generalizing value with
  | nil => simp [quoteState_cons hq]
  | cons x w ih =>
      simp only [List.mem_cons, not_or] at hw
      rw [List.cons_append, quoteState_cons hq, if_neg (Ne.symm hw.1), ih hw.2]
      simp

theorem parseTokenFrom_quote_eof {q : UInt8} {w : Str} (hq : q = byte '"' ∨ q = quote)
    (hw : q ∉ w) (value : Str) :
    parseTokenFrom (quoteState q) value w = (.error, value ++ w, []) := by
  induction w generalizing value with
  | nil => simp [quoteState_nil hq]
  | cons x w ih =>
      simp only [List.mem_cons, not_or] at hw
      rw [quoteState_cons hq, if_neg (Ne.symm hw.1), ih hw.2]
      simp

/-! Between tokens, the next character decides. -/

theorem parseToken_blank {c : UInt8} (hc : c ∈ blanks) (s : Str) :
    parseToken (c :: s) = parseToken s := by
  have hcases : c = byte ' ' ∨ c = byte '\t' ∨ c = byte '\n' ∨ c = byte '\r' := by
    simpa [blanks, lit] using hc
  rcases hcases with rfl | rfl | rfl | rfl <;> rfl

theorem parseToken_quote {q : UInt8} (hq : q = byte '"' ∨ q = quote) (s : Str) :
    parseToken (q :: s) = parseTokenFrom (quoteState q) [q] s := by
  rcases hq with rfl | rfl <;> rfl

theorem parseToken_word {c : UInt8} (hhash : c ≠ byte '#') (hcr : c ≠ byte '\r')
    (hc : c ∉ delimiters) (s : Str) :
    parseToken (c :: s) = parseTokenFrom .tokenTypeNormal [c] s := by
  simp only [← endsNormal_iff, endsNormal, Bool.or_eq_true, decide_eq_true_eq, not_or] at hc
  simp_all [parseToken, parseTokenFrom, quote, byte]

theorem parseToken_bareWord {w : Str} {c : UInt8} (hw : BareWord w) (hc : c ∈ delimiters)
    (s : Str) : parseToken (w ++ c :: s) = (.normal, w, c :: s) := by
  obtain ⟨hne, hhash, hcr, hall⟩ := hw
  obtain ⟨x, w, rfl⟩ := List.exists_cons_of_ne_nil hne
  rw [List.cons_append, parseToken_word (by simpa using hhash) (by simpa using hcr)
    (hall x (by simp)), parseTokenFrom_normal (fun y hy => hall y (by simp [hy])) hc]
  rfl

theorem parseToken_comment {w : Str} {c : UInt8} (hw : Comment w)
    (hc : c = byte '\n' ∨ c = byte '\r') (s : Str) :
    parseToken (w ++ c :: s) = (.comment, w, s) := by
  obtain ⟨body, rfl, hlf, hcr⟩ := hw
  exact parseTokenFrom_comment hlf hcr hc [byte '#'] s

theorem parseToken_quotedWord {w : Str} (hw : QuotedWord w) (s : Str) :
    parseToken (w ++ s) = (.normal, w, s) := by
  obtain ⟨q, body, hq, hbody, rfl⟩ := hw
  have := parseTokenFrom_quote hq hbody [q] s
  rw [List.cons_append, List.cons_append, parseToken_quote hq, List.append_assoc,
    List.singleton_append, this]
  rfl

theorem parseToken_dangling {s : Str} (h : Dangling s) : ∃ value, parseToken s = (.eof, value, []) := by
  rcases h with rfl | ⟨hne, hhash, hcr, hall⟩ | ⟨body, rfl, hlf, hcr⟩
  · exact ⟨[], rfl⟩
  · obtain ⟨x, w, rfl⟩ := List.exists_cons_of_ne_nil hne
    rw [parseToken_word (by simpa using hhash) (by simpa using hcr) (hall x (by simp)),
      parseTokenFrom_normal_eof fun y hy => hall y (by simp [hy])]
    exact ⟨_, rfl⟩
  · exact ⟨_, parseTokenFrom_comment_eof hlf hcr [byte '#']⟩

theorem parseToken_unterminated {s : Str} (h : Unterminated s) :
    ∃ value, parseToken s = (.error, value, []) := by
  obtain ⟨q, body, hq, hbody, rfl⟩ := h
  exact ⟨_, by rw [parseToken_quote hq, parseTokenFrom_quote_eof hq hbody]⟩

/-! ### Every text lexes, up to its end -/

/-- Lexing `s` is over, or comes down to lexing something shorter. -/
def Peels (s : Str) : Prop :=
  Dangling s ∨ Unterminated s ∨
    ∃ (t : Str) (f : List Token → List Token), t.length < s.length ∧
      ∀ {stop : Str → Prop} {ts : List Token}, LexesUpTo stop t ts → LexesUpTo stop s (f ts)

private theorem peels_hash (s : Str) : Peels (byte '#' :: s) := by
  rcases exists_first (fun x => x = byte '\n' || x = byte '\r') s with
    hnone | ⟨w, x, t, rfl, hw, hx⟩
  · have hlf : byte '\n' ∉ s := fun h => by simpa using hnone _ h
    have hcr : byte '\r' ∉ s := fun h => by simpa using hnone _ h
    exact Or.inl (Or.inr (Or.inr ⟨s, rfl, hlf, hcr⟩))
  · have hlf : byte '\n' ∉ w := fun h => by simpa using hw _ h
    have hcr : byte '\r' ∉ w := fun h => by simpa using hw _ h
    refine Or.inr (Or.inr ⟨t, id, by simp; omega, fun h => ?_⟩)
    exact .comment (w := byte '#' :: w) ⟨w, rfl, hlf, hcr⟩ (by simpa using hx) h

private theorem peels_quote {q : UInt8} (hq : q = byte '"' ∨ q = quote) (s : Str) :
    Peels (q :: s) := by
  rcases exists_first (fun x => x = q) s with hnone | ⟨w, x, t, rfl, hw, hx⟩
  · have hfree : q ∉ s := fun h => by simpa using hnone _ h
    exact Or.inr (Or.inl ⟨q, s, hq, hfree, rfl⟩)
  · obtain rfl : x = q := by simpa using hx
    have hfree : x ∉ w := fun h => by simpa using hw _ h
    refine Or.inr (Or.inr ⟨t, (.word (x :: w ++ [x]) :: ·), by simp; omega, fun h => ?_⟩)
    simpa using h.quoted ⟨x, w, hq, hfree, rfl⟩

private theorem bareWord_cons {c : UInt8} {w : Str} (hhash : c ≠ byte '#') (hcr : c ≠ byte '\r')
    (hc : c ∉ delimiters) (hw : ∀ x ∈ w, x ∉ delimiters) : BareWord (c :: w) := by
  refine ⟨by simp, by simpa using hhash, by simpa using hcr, fun x hx => ?_⟩
  rcases List.mem_cons.mp hx with rfl | hx
  · exact hc
  · exact hw x hx

private theorem peels_word {c : UInt8} (hhash : c ≠ byte '#') (hcr : c ≠ byte '\r')
    (hc : c ∉ delimiters) (s : Str) : Peels (c :: s) := by
  rcases exists_first (fun x => x ∈ delimiters) s with hnone | ⟨w, x, t, rfl, hw, hx⟩
  · have hbare := bareWord_cons hhash hcr hc fun y hy => by simpa using hnone y hy
    exact Or.inl (Or.inr (Or.inl hbare))
  · have hbare := bareWord_cons hhash hcr hc fun y hy => by simpa using hw y hy
    exact Or.inr (Or.inr ⟨x :: t, (.word (c :: w) :: ·), by simp,
      fun h => h.bare hbare (by simpa using hx)⟩)

private theorem peels_delimiter {c : UInt8} (hc : c ∈ delimiters) (hblank : c ∉ blanks)
    (hquote : ¬(c = byte '"' ∨ c = quote)) (s : Str) : Peels (c :: s) := by
  have hpunct : c = byte ';' ∨ c = byte '\x7b' ∨ c = byte '\x7d' := by
    rw [← endsNormal_iff] at hc
    simp_all [endsNormal, blanks, lit]
    tauto
  rcases hpunct with rfl | rfl | rfl
  · exact Or.inr (Or.inr ⟨s, (.semicolon :: ·), by simp, .semicolon⟩)
  · exact Or.inr (Or.inr ⟨s, (.openBrace :: ·), by simp, .openBrace⟩)
  · exact Or.inr (Or.inr ⟨s, (.closeBrace :: ·), by simp, .closeBrace⟩)

theorem peels (s : Str) : Peels s := by
  cases s with
  | nil => exact Or.inl (Or.inl rfl)
  | cons c s =>
      by_cases hblank : c ∈ blanks
      · exact Or.inr (Or.inr ⟨s, id, by simp, .blank hblank⟩)
      by_cases hhash : c = byte '#'
      · subst hhash
        exact peels_hash s
      by_cases hquote : c = byte '"' ∨ c = quote
      · exact peels_quote hquote s
      by_cases hdelim : c ∈ delimiters
      · exact peels_delimiter hdelim hblank hquote s
      · have hcr : c ≠ byte '\r' := by
          rintro rfl
          exact hblank (by decide)
        exact peels_word hhash hcr hdelim s

/-- **A text lexes until it leaves a tail to drop or an open quote.** -/
theorem exists_lexes (s : Str) :
    ∃ ts, LexesUpTo Dangling s ts ∨ LexesUpTo Unterminated s ts := by
  induction hn : s.length using Nat.strong_induction_on generalizing s with
  | _ n ih =>
      subst hn
      rcases peels s with hend | hend | ⟨t, f, hlt, hstep⟩
      · exact ⟨[], Or.inl (.stop hend)⟩
      · exact ⟨[], Or.inr (.stop hend)⟩
      · obtain ⟨ts, h | h⟩ := ih t.length hlt t rfl
        · exact ⟨f ts, Or.inl (hstep h)⟩
        · exact ⟨f ts, Or.inr (hstep h)⟩

/-! ### The parser as a run over tokens -/

def Token.type : Token → TokenType
  | .word _ => .normal
  | .semicolon => .statementEnd
  | .openBrace => .startBlock
  | .closeBrace => .endBlock

def Token.value : Token → Str
  | .word text => text
  | .semicolon => lit ";"
  | .openBrace => lit "\x7b"
  | .closeBrace => lit "\x7d"

/-- What `Parse` does after one turn: return, or go on. -/
def afterTurn (st : ParserState) (turn : Except Fault Turn)
    (goOn : ParserState → Except Fault (Bool × NginxConfig)) : Except Fault (Bool × NginxConfig) :=
  match turn with
  | .ok (.next st') => goOn st'
  | .ok .accept => .ok (true, st.config)
  | .ok .bad => .ok (false, st.config)
  | .error e => .error e

/-- What `Parse` returns at the end of the input. -/
def atEof (st : ParserState) : Except Fault (Bool × NginxConfig) :=
  .ok (st.lastTokenType ∈ [.statementEnd, .endBlock] ∧ st.bracketParity = 0, st.config)

/-- Turn after turn for each token, and then `finish`. -/
def feed (finish : ParserState → Except Fault (Bool × NginxConfig)) :
    ParserState → List Token → Except Fault (Bool × NginxConfig)
  | st, [] => finish st
  | st, t :: ts => afterTurn st (parseTurn st t.type t.value) fun st' => feed finish st' ts

theorem parseFrom_congr {st : ParserState} {s t : Str} (h : parseToken s = parseToken t) :
    parseFrom st s = parseFrom st t := by
  rw [parseFrom, parseFrom, h]

theorem parseFrom_error {st : ParserState} {s value rest : Str}
    (h : parseToken s = (.error, value, rest)) : parseFrom st s = .ok (false, st.config) := by
  rw [parseFrom, h]
  simp

theorem parseFrom_comment {st : ParserState} {s value rest : Str}
    (h : parseToken s = (.comment, value, rest)) : parseFrom st s = parseFrom st rest := by
  rw [parseFrom, h]
  simp

theorem parseFrom_turn {st : ParserState} {s value rest : Str} {tokenType : TokenType}
    (h : parseToken s = (tokenType, value, rest)) (herror : tokenType ≠ .error)
    (hcomment : tokenType ≠ .comment) :
    parseFrom st s
      = afterTurn st (parseTurn st tokenType value) fun st' => parseFrom st' rest := by
  rw [parseFrom, h]
  simp only [herror, if_false, hcomment, dif_neg, not_false_eq_true]
  unfold afterTurn
  split <;> simp_all

theorem parseFrom_eof {st : ParserState} {s value rest : Str}
    (h : parseToken s = (.eof, value, rest)) : parseFrom st s = atEof st := by
  rw [parseFrom_turn h (by simp) (by simp)]
  simp only [parseTurn, atEof]
  split_ifs <;> simp_all [afterTurn]

theorem parseFrom_token {st : ParserState} {s rest : Str} {t : Token}
    (h : parseToken s = (t.type, t.value, rest)) :
    parseFrom st s
      = afterTurn st (parseTurn st t.type t.value) fun st' => parseFrom st' rest := by
  cases t <;> exact parseFrom_turn h (by simp [Token.type]) (by simp [Token.type])

/-- **`Parse` is a run over the tokens of its text**, whatever the text ends in. -/
theorem parseFrom_eq_feed {stop : Str → Prop}
    {finish : ParserState → Except Fault (Bool × NginxConfig)}
    (hstop : ∀ s, stop s → ∀ st, parseFrom st s = finish st) {s : Str} {ts : List Token}
    (h : LexesUpTo stop s ts) (st : ParserState) : parseFrom st s = feed finish st ts := by
  induction h generalizing st with
  | stop hs => exact hstop _ hs st
  | blank hc _ ih => rw [parseFrom_congr (parseToken_blank hc _), ih]
  | comment hw hc _ ih => rw [parseFrom_comment (parseToken_comment hw hc _), ih]
  | @quoted w _ _ hw _ ih =>
      rw [parseFrom_token (t := .word w) (parseToken_quotedWord hw _)]
      simp only [ih]
      rfl
  | @bare w _ _ _ hw hc _ ih =>
      rw [parseFrom_token (t := .word w) (parseToken_bareWord hw hc _)]
      simp only [ih]
      rfl
  | semicolon _ ih =>
      rw [parseFrom_token (t := .semicolon) rfl]
      simp only [ih]
      rfl
  | openBrace _ ih =>
      rw [parseFrom_token (t := .openBrace) rfl]
      simp only [ih]
      rfl
  | closeBrace _ ih =>
      rw [parseFrom_token (t := .closeBrace) rfl]
      simp only [ih]
      rfl

end JustEnough
