/-
The ends of lines, and of the text, in a config.

Two changes to a text should not matter to the parser: a newline behind it, and CR LF
in place of LF.  The first only matters where the text ends in a word: the tokenizer
drops that word at the end of the text, and a newline makes it a token, which no config
ends in (`sameAnswer_newline_iff`).

The second leaves the tokens of a text as they are, but for the words that a line ends
in: a carriage return does not end a word, so it becomes part of it
(`LexesUpTo.crlf`).  Whether a text is a config depends on the types of its tokens alone
(`isConfig_of_types`), so the answer is the same, but the tree has other words in it
(`sameAnswer_crlf_iff`).
-/
import JustEnough.Proofs.Grammar

namespace JustEnough

/-- Both texts are accepted or both are not, and the trees of accepted ones are equal. -/
def SameAnswer (r r' : Except Fault (Bool × NginxConfig)) : Prop :=
  ∃ valid c c', r = .ok (valid, c) ∧ r' = .ok (valid, c') ∧ (valid = true → c = c')

/-! ### The answer depends on the tokens -/

section Answers

variable {s t : Str} {ts us : List Token}

theorem parse_of_not_config (h : LexesUpTo Dangling s ts) (hnot : ¬∃ c, IsConfig ts c) :
    ∃ c, parse s = .ok (false, c) := by
  obtain ⟨valid, c, hparse⟩ := parse_total s
  cases valid with
  | false => exact ⟨c, hparse⟩
  | true => exact absurd ⟨c, (parse_of_lexes h).mp hparse⟩ hnot

theorem sameAnswer_of_false {c c' : NginxConfig} (h : parse s = .ok (false, c))
    (h' : parse t = .ok (false, c')) : SameAnswer (parse s) (parse t) :=
  ⟨false, c, c', h, h', by simp⟩

/-- Texts with the same tokens get the same answer. -/
theorem sameAnswer_of_tokens (h : LexesUpTo Dangling s ts) (h' : LexesUpTo Dangling t ts) :
    SameAnswer (parse s) (parse t) := by
  by_cases hconfig : ∃ c, IsConfig ts c
  · obtain ⟨c, hc⟩ := hconfig
    exact ⟨true, c, c, (parse_of_lexes h).mpr hc, (parse_of_lexes h').mpr hc, fun _ => rfl⟩
  · obtain ⟨c, hc⟩ := parse_of_not_config h hconfig
    obtain ⟨c', hc'⟩ := parse_of_not_config h' hconfig
    exact sameAnswer_of_false hc hc'

end Answers

/-! ### A newline at the end -/

/-- A config does not end in a word. -/
theorem not_isConfig_word {ts : List Token} {w : Str} {c : NginxConfig} :
    ¬IsConfig (ts ++ [.word w]) c := by
  rw [Partial.isConfig_iff]
  rintro ⟨p, hrun, ⟨-, hwords, -⟩, -⟩
  rw [Partial.run_append, Option.bind_eq_some_iff] at hrun
  obtain ⟨q, -, hq⟩ := hrun
  obtain rfl : { q with words := q.words ++ [w] } = p := by
    simpa [Partial.run_cons, Partial.next] using hq
  simp at hwords

theorem unterminated_append {s u : Str} (h : Unterminated s) (hdouble : byte '"' ∉ u)
    (hsingle : quote ∉ u) : Unterminated (s ++ u) := by
  obtain ⟨q, body, hq, hbody, rfl⟩ := h
  have hu : q ∉ u := by
    rcases hq with rfl | rfl
    · exact hdouble
    · exact hsingle
  exact ⟨q, body ++ u, hq, by simp [hbody, hu], rfl⟩

/--
**A final newline** changes the answer exactly where what stands before a last bare word, which
ends the text, is a config of its own.
-/
theorem sameAnswer_newline_iff (s : Str) :
    SameAnswer (parse s) (parse (s ++ lit "\n")) ↔
      ¬∃ ts c, LexesUpTo BareWord s ts ∧ IsConfig ts c := by
  have hnil : LexesUpTo Dangling [] [] := .stop (Or.inl rfl)
  have hnl : LexesUpTo Dangling (lit "\n") [] := .blank (by decide) hnil
  constructor
  · rintro ⟨valid, c, c', hparse, hparse', hsame⟩ ⟨ts, d, hlex, hconfig⟩
    have htrue := (parse_of_lexes (hlex.mono fun s hs => Or.inr (Or.inl hs))).mpr hconfig
    rw [hparse] at htrue
    obtain ⟨rfl, -⟩ : valid = true ∧ c = d := by simpa using htrue
    -- with the newline, the last word is a token
    obtain ⟨w, hw, -, hlex⟩ := hlex.exists_tail
    have hword : LexesUpTo Dangling (s ++ lit "\n") (ts ++ [.word w]) :=
      hlex.append (lit "\n") (.bare hw (by decide) hnl)
    exact not_isConfig_word ((parse_of_lexes hword).mp hparse')
  · intro hnot
    obtain ⟨ts, hlex | hlex⟩ := exists_lexes s
    · obtain ⟨t, ht, -, htail⟩ := hlex.exists_tail
      rcases ht with rfl | hword | hcomment
      · have hlex' := htail.append (lit "\n") hnl
        rw [List.append_nil] at hlex'
        exact sameAnswer_of_tokens hlex hlex'
      · have hconfig : ¬∃ c, IsConfig ts c := by
          rintro ⟨c, hc⟩
          exact hnot ⟨ts, c, htail.mono fun s hs => by rwa [hs], hc⟩
        obtain ⟨c, hc⟩ := parse_of_not_config hlex hconfig
        have hlex' : LexesUpTo Dangling (s ++ lit "\n") (ts ++ [.word t]) :=
          htail.append (lit "\n") (.bare hword (by decide) hnl)
        obtain ⟨c', hc'⟩ := parse_of_not_config hlex' fun h => not_isConfig_word h.choose_spec
        exact sameAnswer_of_false hc hc'
      · have hlex' := htail.append (lit "\n") (.comment hcomment (Or.inl rfl) hnil)
        rw [List.append_nil] at hlex'
        exact sameAnswer_of_tokens hlex hlex'
    · obtain ⟨c, hc⟩ := parse_unterminated hlex
      obtain ⟨t, ht, -, htail⟩ := hlex.exists_tail
      have hlex' := htail.append (lit "\n")
        (.stop (unterminated_append ht (by decide) (by decide)))
      obtain ⟨c', hc'⟩ := parse_unterminated hlex'
      exact sameAnswer_of_false hc hc'

/-- The last statement has been cut off in its first word. -/
theorem newline_changes_answer :
    ¬SameAnswer (parse (lit "port 80; x")) (parse (lit "port 80; x" ++ lit "\n")) := by
  have hcut : (parse (lit "port 80; x")).toOption.map (·.1) = some true := by decide +kernel
  have hwhole : (parse (lit "port 80; x" ++ lit "\n")).toOption.map (·.1) = some false := by
    decide +kernel
  rintro ⟨valid, c, c', hparse, hparse', -⟩
  rw [hparse] at hcut
  rw [hparse'] at hwhole
  exact absurd (hcut.symm.trans hwhole) (by decide)

/-! ### The types of the tokens decide -/

namespace Partial

/-- Two machines that differ in the words they hold. -/
structure Alike (p q : Partial) : Prop where
  frames : p.frames.length = q.frames.length
  words : p.words = [] ↔ q.words = []
  done : p.done = [] ↔ q.done = []

/-- A move both refuse, or both make. -/
theorem rel_move {a b : Prop} [Decidable a] [Decidable b] {p q : Partial} (hab : a ↔ b)
    (h : Alike p q) :
    Option.Rel Alike (if a then none else some p) (if b then none else some q) := by
  by_cases ha : a
  · rw [if_pos ha, if_pos (hab.mp ha)]
    exact .none
  · rw [if_neg ha, if_neg fun hb => ha (hab.mpr hb)]
    exact .some h

theorem Alike.next {p q : Partial} (h : Alike p q) {t u : Token} (htype : t.type = u.type) :
    Option.Rel Alike (p.next t) (q.next u) := by
  cases t with
  | word w =>
      cases u with
      | word w' => exact .some ⟨h.frames, by simp, h.done⟩
      | _ => cases htype
  | semicolon =>
      obtain rfl : u = .semicolon := by cases u <;> simp_all [Token.type]
      exact rel_move h.words ⟨h.frames, by simp, by simp⟩
  | openBrace =>
      obtain rfl : u = .openBrace := by cases u <;> simp_all [Token.type]
      exact rel_move h.words ⟨by simp [h.frames], by simp, by simp⟩
  | closeBrace =>
      obtain rfl : u = .closeBrace := by cases u <;> simp_all [Token.type]
      have hlen := h.frames
      simp only [Partial.next]
      cases hp : p.frames with
      | nil =>
          rw [hp] at hlen
          rw [List.length_eq_zero_iff.mp hlen.symm]
          exact .none
      | cons frame frames =>
          cases hq : q.frames with
          | nil => simp [hp, hq] at hlen
          | cons frame' frames' =>
              have hrest : frames.length = frames'.length := by simpa [hp, hq] using hlen
              by_cases hnil : p.words = []
              · simp only [if_pos hnil, if_pos (h.words.mp hnil)]
                exact .some ⟨hrest, by simp, by simp⟩
              · simp only [if_neg hnil, if_neg fun hq => hnil (h.words.mpr hq)]
                exact .none

/-- **Token by token**, both go on or both get stuck. -/
theorem Alike.run {p q p' : Partial} (h : Alike p q) {ts us : List Token}
    (htypes : ts.map Token.type = us.map Token.type) (hrun : p.run ts = some p') :
    ∃ q', q.run us = some q' ∧ Alike p' q' := by
  induction ts generalizing p q us with
  | nil =>
      obtain rfl : us = [] := by simpa using htypes.symm
      obtain rfl : p = p' := by simpa using hrun
      exact ⟨q, rfl, h⟩
  | cons t ts ih =>
      cases us with
      | nil => simp at htypes
      | cons u us =>
          obtain ⟨htype, htypes⟩ := List.cons.inj htypes
          rw [run_cons, Option.bind_eq_some_iff] at hrun
          obtain ⟨p₁, hp₁, hrun⟩ := hrun
          have hrel := h.next htype
          rw [hp₁] at hrel
          cases hq₁ : q.next u with
          | none =>
              rw [hq₁] at hrel
              cases hrel
          | some q₁ =>
              rw [hq₁] at hrel
              cases hrel with
              | some halike =>
                  obtain ⟨q', hq', h'⟩ := ih halike htypes hrun
                  exact ⟨q', by rw [run_cons, hq₁]; exact hq', h'⟩

end Partial

theorem isConfig_of_types {ts us : List Token} (htypes : ts.map Token.type = us.map Token.type)
    {c : NginxConfig} (h : IsConfig ts c) : ∃ d, IsConfig us d := by
  obtain ⟨p, hrun, ⟨hframes, hwords, hdone⟩, -⟩ := (Partial.isConfig_iff ts c).mp h
  have hstart : Partial.Alike .start .start := ⟨rfl, Iff.rfl, Iff.rfl⟩
  obtain ⟨q, hq, halike⟩ := hstart.run htypes hrun
  refine ⟨q.done, (Partial.isConfig_iff us _).mpr ⟨q, hq, ⟨?_, ?_, ?_⟩, rfl⟩⟩
  · exact List.length_eq_zero_iff.mp (by rw [← halike.frames, hframes]; rfl)
  · exact halike.words.mp hwords
  · exact fun hnil => hdone (halike.done.mpr hnil)

mutual

/-- A tree has one list of tokens. -/
theorem IsStatement.unique {ts us : List Token} {s : NginxConfigStatement} (h : IsStatement ts s)
    (h' : IsStatement us s) : ts = us := by
  cases h with
  | simple hwords =>
      cases h' with
      | simple hwords' => rfl
  | block hwords h =>
      cases h' with
      | block hwords' h' => rw [IsBlock.unique h h']

theorem IsBlock.unique {ts us : List Token} {c : List NginxConfigStatement} (h : IsBlock ts c)
    (h' : IsBlock us c) : ts = us := by
  cases h with
  | nil =>
      cases h' with
      | nil => rfl
  | cons h hrest =>
      cases h' with
      | cons h' hrest' => rw [IsStatement.unique h h', IsBlock.unique hrest hrest']

end

/-! ### CR LF -/

/-- Every LF becomes CR LF. -/
def crlf (s : Str) : Str := s.flatMap fun c => if c = byte '\n' then lit "\r\n" else [c]

@[simp] theorem crlf_nil : crlf [] = [] := rfl

theorem crlf_append (s t : Str) : crlf (s ++ t) = crlf s ++ crlf t := List.flatMap_append

theorem crlf_cons_newline (s : Str) : crlf (byte '\n' :: s) = byte '\r' :: byte '\n' :: crlf s := rfl

theorem crlf_cons {c : UInt8} (hc : c ≠ byte '\n') (s : Str) : crlf (c :: s) = c :: crlf s := by
  simp [crlf, hc]

theorem crlf_of_not_mem {s : Str} (h : byte '\n' ∉ s) : crlf s = s := by
  induction s with
  | nil => rfl
  | cons c s ih =>
      simp only [List.mem_cons, not_or] at h
      rw [crlf_cons (Ne.symm h.1), ih h.2]

theorem newline_not_mem_word {w : Str} (h : BareWord w) : byte '\n' ∉ w :=
  fun hmem => h.2.2.2 _ hmem (by decide)

theorem newline_not_mem_comment {w : Str} (h : Comment w) : byte '\n' ∉ w := by
  obtain ⟨body, rfl, hlf, -⟩ := h
  rw [List.mem_cons, not_or]
  exact ⟨by decide, hlf⟩

/-- A text without carriage returns and quotes. -/
structure Plain (s : Str) : Prop where
  cr : byte '\r' ∉ s
  double : byte '"' ∉ s
  single : quote ∉ s

theorem Plain.suffix {s t : Str} (h : Plain s) (ht : t <:+ s) : Plain t :=
  ⟨fun hmem => h.cr (ht.subset hmem), fun hmem => h.double (ht.subset hmem),
    fun hmem => h.single (ht.subset hmem)⟩

/-- A line that ends in a word. -/
def WordLine (s : Str) : Prop := ∃ w v, BareWord w ∧ s = w ++ byte '\n' :: v

/-- Some line ends in a word that is a token. -/
def EndsInWord (s : Str) : Prop := ∃ ts, LexesUpTo WordLine s ts

/-- A carriage return in front of a token is a blank. -/
theorem LexesUpTo.of_cr {stop : Str → Prop} {s : Str} {ts : List Token}
    (h : LexesUpTo stop (byte '\r' :: s) ts) (hstop : ¬stop (byte '\r' :: s)) :
    LexesUpTo stop s ts := by
  generalize htext : byte '\r' :: s = text at h hstop
  cases h with
  | stop hs => exact absurd hs hstop
  | blank _ h =>
      obtain ⟨-, rfl⟩ := List.cons.inj htext
      exact h
  | comment hw =>
      obtain ⟨body, rfl, -⟩ := hw
      exact absurd (List.cons.inj htext).1 (by decide)
  | quoted hw =>
      obtain ⟨q, body, rfl | rfl, -, rfl⟩ := hw
      · exact absurd (List.cons.inj htext).1 (by decide)
      · exact absurd (List.cons.inj htext).1 (by decide)
  | @bare w c rest _ hw =>
      obtain ⟨hne, -, hcr, -⟩ := hw
      obtain ⟨x, w, rfl⟩ := List.exists_cons_of_ne_nil hne
      obtain ⟨rfl, -⟩ := List.cons.inj htext
      exact absurd rfl hcr
  | semicolon => exact absurd (List.cons.inj htext).1 (by decide)
  | openBrace => exact absurd (List.cons.inj htext).1 (by decide)
  | closeBrace => exact absurd (List.cons.inj htext).1 (by decide)

/-- A word that takes in a carriage return. -/
theorem BareWord.concat_cr {w : Str} (h : BareWord w) : BareWord (w ++ [byte '\r']) := by
  obtain ⟨hne, hhash, hcr, hall⟩ := h
  refine ⟨by simp, ?_, ?_, ?_⟩
  · rwa [List.head?_append_of_ne_nil _ hne]
  · rwa [List.head?_append_of_ne_nil _ hne]
  · intro c hc
    rcases List.mem_append.mp hc with hc | hc
    · exact hall c hc
    · obtain rfl := List.mem_singleton.mp hc
      decide

/-- The tokens of a text with CR LF, against those of the text itself. -/
structure CrlfTokens (s : Str) (ts us : List Token) : Prop where
  types : ts.map Token.type = us.map Token.type
  same : us = ts ∨ EndsInWord s

theorem CrlfTokens.cons {s s' : Str} {ts us : List Token} (h : CrlfTokens s ts us) (t : Token)
    (hends : EndsInWord s → EndsInWord s') : CrlfTokens s' (t :: ts) (t :: us) where
  types := by simpa using h.types
  same := h.same.imp (fun hsame => by rw [hsame]) hends

/--
**CR LF in place of LF**: the tokens have the same types, and they are the same unless a line
ends in a word.
-/
theorem LexesUpTo.crlf {stop stop' : Str → Prop} {s : Str} {ts : List Token}
    (h : LexesUpTo stop s ts) (hplain : Plain s)
    (hstop : ∀ t, stop t → stop' (crlf t) ∧ t.head? ≠ some (byte '\n'))
    (hstop' : ∀ t, ¬stop' (byte '\r' :: t)) :
    ∃ us, LexesUpTo stop' (JustEnough.crlf s) us ∧ CrlfTokens s ts us := by
  induction h with
  | stop hs => exact ⟨[], .stop (hstop _ hs).1, rfl, Or.inl rfl⟩
  | @blank c s ts hc _ ih =>
      obtain ⟨us, hlex, htypes, hsame⟩ := ih (hplain.suffix (List.suffix_cons c s))
      have hends : EndsInWord s → EndsInWord (c :: s) := fun h => ⟨_, .blank hc h.choose_spec⟩
      refine ⟨us, ?_, htypes, hsame.imp_right hends⟩
      by_cases hnl : c = byte '\n'
      · subst hnl
        rw [crlf_cons_newline]
        exact .blank (by decide) (.blank (by decide) hlex)
      · rw [crlf_cons hnl]
        exact .blank hc hlex
  | @comment w c s ts hw hc _ ih =>
      have hsuffix : s <:+ w ++ c :: s := ⟨w ++ [c], by simp⟩
      obtain ⟨us, hlex, htypes, hsame⟩ := ih (hplain.suffix hsuffix)
      have hends : EndsInWord s → EndsInWord (w ++ c :: s) :=
        fun h => ⟨_, .comment hw hc h.choose_spec⟩
      refine ⟨us, ?_, htypes, hsame.imp_right hends⟩
      have hc' : c = byte '\n' := by
        rcases hc with hc | rfl
        · exact hc
        · exact absurd (by simp) hplain.cr
      subst hc'
      rw [crlf_append, crlf_of_not_mem (newline_not_mem_comment hw), crlf_cons_newline]
      exact .comment hw (Or.inr rfl) (.blank (by decide) hlex)
  | quoted hw =>
      obtain ⟨q, body, rfl | rfl, -, rfl⟩ := hw
      · exact absurd (by simp) hplain.double
      · exact absurd (by simp) hplain.single
  | @bare w c s ts hw hc _ ih =>
      obtain ⟨us, hlex, htokens⟩ := ih (hplain.suffix (List.suffix_append w (c :: s)))
      have hends : EndsInWord (c :: s) → EndsInWord (w ++ c :: s) :=
        fun h => ⟨_, .bare hw hc h.choose_spec⟩
      rw [crlf_append, crlf_of_not_mem (newline_not_mem_word hw)]
      by_cases hnl : c = byte '\n'
      · -- the carriage return becomes part of the word
        subst hnl
        rw [crlf_cons_newline] at hlex ⊢
        refine ⟨.word (w ++ [byte '\r']) :: us, ?_, by simpa [Token.type] using htokens.types,
          Or.inr ⟨[], .stop ⟨w, s, hw, rfl⟩⟩⟩
        have hword := LexesUpTo.bare hw.concat_cr hc (hlex.of_cr (hstop' _))
        simpa using hword
      · rw [crlf_cons hnl] at hlex ⊢
        exact ⟨.word w :: us, .bare hw hc hlex, htokens.cons _ hends⟩
  | semicolon _ ih =>
      obtain ⟨us, hlex, htokens⟩ := ih (hplain.suffix (List.suffix_cons ..))
      exact ⟨.semicolon :: us, .semicolon hlex,
        htokens.cons _ fun h => ⟨_, .semicolon h.choose_spec⟩⟩
  | openBrace _ ih =>
      obtain ⟨us, hlex, htokens⟩ := ih (hplain.suffix (List.suffix_cons ..))
      exact ⟨.openBrace :: us, .openBrace hlex,
        htokens.cons _ fun h => ⟨_, .openBrace h.choose_spec⟩⟩
  | closeBrace _ ih =>
      obtain ⟨us, hlex, htokens⟩ := ih (hplain.suffix (List.suffix_cons ..))
      exact ⟨.closeBrace :: us, .closeBrace hlex,
        htokens.cons _ fun h => ⟨_, .closeBrace h.choose_spec⟩⟩

theorem Plain.exists_lexes {s : Str} (h : Plain s) : ∃ ts, LexesUpTo Dangling s ts := by
  obtain ⟨ts, hlex | hlex⟩ := JustEnough.exists_lexes s
  · exact ⟨ts, hlex⟩
  · obtain ⟨t, ⟨q, body, rfl | rfl, -, rfl⟩, hsuffix, -⟩ := hlex.exists_tail
    · exact absurd (hsuffix.subset (by simp)) h.double
    · exact absurd (hsuffix.subset (by simp)) h.single

/-- What is dropped at the end stays as it is. -/
theorem dangling_crlf {t : Str} (h : Dangling t) :
    Dangling (crlf t) ∧ t.head? ≠ some (byte '\n') := by
  have hfree : byte '\n' ∉ t := by
    rcases h with rfl | hw | hw
    · simp
    · exact newline_not_mem_word hw
    · exact newline_not_mem_comment hw
  rw [crlf_of_not_mem hfree]
  exact ⟨h, fun hhead => hfree (List.mem_of_head? hhead)⟩

theorem not_dangling_cr (t : Str) : ¬Dangling (byte '\r' :: t) := by
  rintro (hnil | ⟨-, -, hcr, -⟩ | ⟨body, hbody, -⟩)
  · cases hnil
  · exact hcr rfl
  · exact absurd (List.cons.inj hbody).1 (by decide)

theorem Plain.crlf_lexes {s : Str} {ts : List Token} (h : Plain s) (hlex : LexesUpTo Dangling s ts) :
    ∃ us, LexesUpTo Dangling (crlf s) us ∧ CrlfTokens s ts us :=
  hlex.crlf h (fun _ => dangling_crlf) not_dangling_cr

/-- A line that ends in a word, with the tokens before and after that word. -/
theorem Plain.split_word {s : Str} (h : Plain s) (hends : EndsInWord s) :
    ∃ ts us vs ws w, LexesUpTo Dangling s (ts ++ .word w :: us) ∧
      LexesUpTo Dangling (crlf s) (vs ++ .word (w ++ [byte '\r']) :: ws) ∧
      ts.map Token.type = vs.map Token.type ∧ us.map Token.type = ws.map Token.type := by
  obtain ⟨ts, hts⟩ := hends
  obtain ⟨t, ⟨w, v, hw, rfl⟩, hsuffix, hts⟩ := hts.exists_tail
  have hv : Plain v := (h.suffix hsuffix).suffix ⟨w ++ [byte '\n'], by simp⟩
  obtain ⟨us, hus⟩ := hv.exists_lexes
  obtain ⟨ws, hws, hwsTypes, -⟩ := hv.crlf_lexes hus
  have hfree := newline_not_mem_word hw
  obtain ⟨hne, -, hcr, -⟩ := id hw
  have hcrlf : crlf (w ++ byte '\n' :: v) = (w ++ [byte '\r']) ++ byte '\n' :: crlf v := by
    rw [crlf_append, crlf_of_not_mem hfree, crlf_cons_newline]
    simp
  have hbefore : ∃ vs, LexesUpTo (· = crlf (w ++ byte '\n' :: v)) (crlf s) vs ∧
      CrlfTokens s ts vs := by
    refine hts.crlf h (fun t ht => ?_) fun t ht => ?_
    · subst ht
      refine ⟨rfl, fun hhead => hfree ?_⟩
      rw [List.head?_append_of_ne_nil _ hne] at hhead
      exact List.mem_of_head? hhead
    · rw [hcrlf, List.append_assoc] at ht
      have hhead := congrArg List.head? ht
      rw [List.head?_append_of_ne_nil _ hne] at hhead
      exact hcr hhead.symm
  obtain ⟨vs, hvs, hvsTypes, -⟩ := hbefore
  have hleft : LexesUpTo Dangling (s ++ []) (ts ++ .word w :: us) := by
    refine hts.append [] ?_
    rw [List.append_nil]
    exact .bare hw (by decide) (.blank (by decide) hus)
  have hright : LexesUpTo Dangling (crlf s ++ []) (vs ++ .word (w ++ [byte '\r']) :: ws) := by
    refine hvs.append [] ?_
    rw [List.append_nil, hcrlf]
    exact .bare hw.concat_cr (by decide) (.blank (by decide) hws)
  rw [List.append_nil] at hleft hright
  exact ⟨ts, us, vs, ws, w, hleft, hright, hvsTypes, hwsTypes⟩

/--
**CR LF line ends** give another answer exactly where the text is a config and a line of it ends
in a word.
-/
theorem sameAnswer_crlf_iff {s : Str} (hplain : Plain s) :
    SameAnswer (parse s) (parse (crlf s)) ↔
      ¬((∃ ts c, LexesUpTo Dangling s ts ∧ IsConfig ts c) ∧ EndsInWord s) := by
  constructor
  · rintro ⟨valid, c, c', hparse, hparse', hsame⟩ ⟨⟨ts, d, hlex, hconfig⟩, hends⟩
    have htrue := (parse_of_lexes hlex).mpr hconfig
    rw [hparse] at htrue
    obtain ⟨rfl, rfl⟩ : valid = true ∧ c = d := by simpa using htrue
    obtain rfl := hsame rfl
    obtain ⟨ts, us, vs, ws, w, hleft, hright, htypes, -⟩ := hplain.split_word hends
    have hconfig₁ := (parse_of_lexes hleft).mp hparse
    have hconfig₂ := (parse_of_lexes hright).mp hparse'
    -- one tree, but two lists of tokens
    have hsame := hconfig₁.1.unique hconfig₂.1
    have hlen : ts.length = vs.length := by simpa using congrArg List.length htypes
    obtain ⟨-, htail⟩ := List.append_inj hsame hlen
    have hword : w = w ++ [byte '\r'] := Token.word.inj (List.cons.inj htail).1
    simp at hword
  · intro hnot
    obtain ⟨ts, hlex⟩ := hplain.exists_lexes
    obtain ⟨us, hlex', htypes, hsame⟩ := hplain.crlf_lexes hlex
    by_cases hconfig : ∃ c, IsConfig ts c
    · obtain ⟨c, hc⟩ := hconfig
      have hno : ¬EndsInWord s := fun hends => hnot ⟨⟨ts, c, hlex, hc⟩, hends⟩
      rw [hsame.resolve_right hno] at hlex'
      exact sameAnswer_of_tokens hlex hlex'
    · have hconfig' : ¬∃ c, IsConfig us c := by
        rintro ⟨c, hc⟩
        exact hconfig (isConfig_of_types htypes.symm hc)
      obtain ⟨c, hc⟩ := parse_of_not_config hlex hconfig
      obtain ⟨c', hc'⟩ := parse_of_not_config hlex' hconfig'
      exact sameAnswer_of_false hc hc'

/-- The words of the statements at the top, if the text is accepted. -/
def topWords (text : Str) : Option (List (List Str)) :=
  match parse text with
  | .ok (true, c) => some (c.map (·.tokens))
  | _ => none

/-- The key of the statement is no longer `port`. -/
theorem crlf_changes_answer :
    ¬SameAnswer (parse (lit "port\n8080;")) (parse (crlf (lit "port\n8080;"))) := by
  have hlf : topWords (lit "port\n8080;") = some [[lit "port", lit "8080"]] := by decide +kernel
  have hcrlf : topWords (crlf (lit "port\n8080;")) = some [[lit "port\r", lit "8080"]] := by
    decide +kernel
  rintro ⟨valid, c, c', hparse, hparse', hsame⟩
  unfold topWords at hlf hcrlf
  rw [hparse] at hlf
  rw [hparse'] at hcrlf
  cases valid with
  | false => cases hlf
  | true =>
      rw [hsame rfl] at hlf
      exact absurd (hlf.symm.trans hcrlf) (by decide)

theorem sameAnswer_crlf_example :
    SameAnswer (parse (lit "port 8080;\n")) (parse (crlf (lit "port 8080;\n"))) ↔
      ¬((∃ ts c, LexesUpTo Dangling (lit "port 8080;\n") ts ∧ IsConfig ts c) ∧
        EndsInWord (lit "port 8080;\n")) :=
  sameAnswer_crlf_iff ⟨by decide, by decide, by decide⟩

end JustEnough
