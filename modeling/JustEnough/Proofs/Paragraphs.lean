/-
The paragraph pass keeps what the page says.

It goes over the tokens of each container, collects the lines of text, and closes a paragraph
at a token of another kind, at a line break and at the end.  While it does so the words are in
three places: in the tokens that are done, in those of the paragraph and in its text
(`Paragraphs.content`).  Each step adds the words of one token to these (`add_content`), and
closing a paragraph moves them without a change (`flush_content`).  So every word is still
there, none runs into the next, and all is in its order (`paragraphs_kept`).

Where paragraphs are not inhibited no text is left outside of one.
-/
import JustEnough.Server.Markdown

namespace JustEnough

/-! ### The words of a text -/

/-- The words of a text, with the letters of the first one. -/
def wordsFrom (word : Str) : Str → List Str
  | [] => if word = [] then [] else [word]
  | c :: s =>
    if c = byte ' ' then (if word = [] then [] else [word]) ++ wordsFrom [] s else wordsFrom (word ++ [c]) s

def words (s : Str) : List Str := wordsFrom [] s

theorem wordsFrom_append (word first second : Str) :
    wordsFrom word (first ++ byte ' ' :: second) = wordsFrom word first ++ words second := by
  induction first generalizing word with
  | nil => rw [List.nil_append, wordsFrom, wordsFrom, if_pos rfl, words]
  | cons c first ih =>
      rw [List.cons_append, wordsFrom, wordsFrom]
      by_cases h : c = byte ' '
      · rw [if_pos h, if_pos h, ih, List.append_assoc]
      · rw [if_neg h, if_neg h, ih]

/-- A space between two texts keeps their words apart. -/
theorem words_append (first second : Str) :
    words (first ++ byte ' ' :: second) = words first ++ words second := wordsFrom_append [] first second

/-! ### What a tree says -/

/-- A word, a token that is not text, or an end of a container. -/
inductive Leaf
  | word (w : Str)
  | token (t : MarkdownToken)
  | opening (kind : ContainerClass)
  | closing (kind : ContainerClass)

mutual

/-- What is in a tree and in which order, whatever its paragraphs and line breaks are. -/
def MarkdownToken.content : MarkdownToken → List Leaf
  | .text (.rawText true) text => (words text).map .word
  | .text holder text => if holder = .htmlTag ∧ text = lit "br/" then [] else [.token (.text holder text)]
  | .container .paragraph subTokens => allContent subTokens
  | .container .container subTokens => allContent subTokens
  | .container kind subTokens => .opening kind :: (allContent subTokens ++ [.closing kind])
  | token => [.token token]

def allContent : List MarkdownToken → List Leaf
  | [] => []
  | token :: tokens => token.content ++ allContent tokens

end

theorem allContent_append (first second : List MarkdownToken) :
    allContent (first ++ second) = allContent first ++ allContent second := by
  induction first with
  | nil => rfl
  | cons token first ih => rw [List.cons_append, allContent, allContent, ih, List.append_assoc]

theorem allContent_singleton (token : MarkdownToken) : allContent [token] = token.content := by
  rw [allContent, allContent, List.append_nil]

/-- A container says what is in it, between its ends if it has any. -/
theorem content_container_congr (kind : ContainerClass) {first second : List MarkdownToken}
    (h : allContent first = allContent second) :
    (MarkdownToken.container kind first).content = (MarkdownToken.container kind second).content := by
  cases kind <;> simp only [MarkdownToken.content, h]

/-! ### What the loop keeps -/

section Loop

variable {noParagraphs : Bool} {st : Paragraphs} {text : Str}

/-- What the loop has got so far. -/
def Paragraphs.content (st : Paragraphs) : List Leaf :=
  allContent st.processed ++ allContent st.paragraphTokens ++ (words st.paragraphText).map .word

/-- The tokens of a paragraph with its text. -/
theorem allContent_pending :
    allContent (if st.paragraphText = [] then st.paragraphTokens
        else st.paragraphTokens ++ [.text (.rawText true) st.paragraphText])
      = allContent st.paragraphTokens ++ (words st.paragraphText).map .word := by
  by_cases h : st.paragraphText = []
  · rw [if_pos h, h]
    exact (List.append_nil _).symm
  · rw [if_neg h, allContent_append, allContent_singleton]
    rfl

/-- Closing a paragraph moves what it says. -/
theorem flush_content : (flushParagraph noParagraphs st).content = st.content := by
  have hpending := @allContent_pending st
  rw [flushParagraph]
  generalize (if st.paragraphText = [] then st.paragraphTokens
    else st.paragraphTokens ++ [.text (.rawText true) st.paragraphText]) = tokens at hpending ⊢
  cases tokens with
  | nil =>
      rw [Paragraphs.content, Paragraphs.content, List.append_assoc _ (allContent st.paragraphTokens),
        ← hpending]
      exact List.append_nil _
  | cons first others =>
      have htoken : (if noParagraphs then
            (if others = [] then first else .container .container (first :: others))
          else MarkdownToken.container .paragraph (first :: others)).content
            = allContent (first :: others) := by
        by_cases hno : noParagraphs = true
        · rw [if_pos hno]
          by_cases hothers : others = []
          · rw [if_pos hothers, hothers, allContent_singleton]
          · rw [if_neg hothers, MarkdownToken.content]
        · rw [if_neg hno, MarkdownToken.content]
      rw [Paragraphs.content, Paragraphs.content, List.append_assoc _ (allContent st.paragraphTokens),
        ← hpending]
      dsimp only
      rw [allContent_append, allContent_singleton, htoken]
      exact (List.append_nil _).trans (List.append_nil _)

/-- After it nothing is pending. -/
theorem flush_done :
    (flushParagraph noParagraphs st).paragraphText = [] ∧
      (flushParagraph noParagraphs st).paragraphTokens = [] := by
  rw [flushParagraph]
  generalize (if st.paragraphText = [] then st.paragraphTokens
    else st.paragraphTokens ++ [.text (.rawText true) st.paragraphText]) = tokens
  cases tokens with
  | nil => exact ⟨rfl, rfl⟩
  | cons first others => exact ⟨rfl, rfl⟩

theorem content_of_done (htext : st.paragraphText = []) (htokens : st.paragraphTokens = []) :
    st.content = allContent st.processed := by
  rw [Paragraphs.content, htext, htokens]
  exact (List.append_nil _).trans (List.append_nil _)

theorem push_content (token : MarkdownToken) :
    (st.push noParagraphs token).content = st.content ++ token.content := by
  obtain ⟨htext, htokens⟩ := @flush_done noParagraphs st
  have hpushed : (st.push noParagraphs token).content
      = allContent ((flushParagraph noParagraphs st).processed ++ [token]) := content_of_done htext htokens
  rw [hpushed, allContent_append, allContent_singleton, ← content_of_done htext htokens, flush_content]

/-- A line goes to the end of the text, after a space. -/
theorem addLine_content :
    (st.addLine noParagraphs text).content = st.content ++ (words text).map .word := by
  have hjoined : ∀ line, words ((if st.paragraphText = [] then [] else st.paragraphText ++ lit " ") ++ line)
      = words st.paragraphText ++ words line := by
    intro line
    by_cases h : st.paragraphText = []
    · rw [if_pos h, h]
      rfl
    · rw [if_neg h, List.append_assoc]
      exact words_append st.paragraphText line
  rw [Paragraphs.addLine]
  by_cases hbreak : (lit "  ").isSuffixOf text = true
  · obtain ⟨line, rfl⟩ := List.isSuffixOf_iff_suffix.mp hbreak
    have hline : (line ++ lit "  ").take ((line ++ lit "  ").length - 2) = line := by
      rw [List.length_append]
      exact List.take_left
    have hwords : words (line ++ lit "  ") = words line :=
      (words_append line (lit " ")).trans (List.append_nil _)
    have hbr : (MarkdownToken.text .htmlTag (lit "br/")).content = [] := by
      rw [MarkdownToken.content]
      · exact if_pos ⟨rfl, rfl⟩
      · intro h
        cases h
    rw [if_pos hbreak, push_content, hline, hwords, hbr, Paragraphs.content, Paragraphs.content]
    dsimp only
    rw [hjoined, List.map_append, List.append_nil, List.append_assoc, List.append_assoc, List.append_assoc]
  · rw [if_neg hbreak, Paragraphs.content, Paragraphs.content]
    dsimp only
    rw [hjoined, List.map_append, List.append_assoc, List.append_assoc, List.append_assoc]

theorem add_content (token : MarkdownToken) :
    (st.add noParagraphs token).content = st.content ++ token.content := by
  cases token with
  | text holder text =>
      rw [Paragraphs.add]
      by_cases hline : (holder.canContainMarkup && !holder.inhibitParagraphs) = true
      · obtain rfl : holder = .rawText true := by
          cases holder with
          | rawText canContainMarkup =>
              cases canContainMarkup with
              | true => rfl
              | false => cases hline
          | _ => cases hline
        rw [if_pos hline, addLine_content]
        rfl
      · rw [if_neg hline, push_content]
  | _ => exact push_content _

theorem foldl_content (tokens : List MarkdownToken) :
    (tokens.foldl (Paragraphs.add noParagraphs) st).content = st.content ++ allContent tokens := by
  induction tokens generalizing st with
  | nil => exact (List.append_nil _).symm
  | cons token tokens ih => rw [List.foldl_cons, ih, add_content, List.append_assoc, allContent]

theorem paragraphLines_content (tokens : List MarkdownToken) :
    allContent (paragraphLines noParagraphs tokens) = allContent tokens := by
  obtain ⟨htext, htokens⟩ := @flush_done noParagraphs (tokens.foldl (Paragraphs.add noParagraphs) {})
  rw [paragraphLines, ← content_of_done htext htokens, flush_content, foldl_content]
  rfl

end Loop

mutual

theorem MarkdownToken.content_processParagraphLines : (token : MarkdownToken) →
    token.processParagraphLines.content = token.content
  | .container kind subTokens => by
      rw [MarkdownToken.processParagraphLines]
      apply content_container_congr
      rw [paragraphLines_content, content_processAllParagraphLines subTokens]
  | .text _ _ => rfl
  | .escapedCharacter _ => rfl
  | .marker _ => rfl
  | .image _ _ _ => rfl

theorem content_processAllParagraphLines : (tokens : List MarkdownToken) →
    allContent (processAllParagraphLines tokens) = allContent tokens
  | [] => rfl
  | token :: tokens => by
      rw [processAllParagraphLines, allContent, allContent, token.content_processParagraphLines,
        content_processAllParagraphLines tokens]

end

/-! ### Where the text is -/

def MarkdownToken.isLine : MarkdownToken → Bool
  | .text (.rawText true) _ => true
  | _ => false

mutual

/-- Where paragraphs are not inhibited, no text stands outside of one. -/
def MarkdownToken.Placed : MarkdownToken → Prop
  | .container kind subTokens =>
    (kind ≠ .paragraph → kind.inhibitParagraphs = false → ∀ token ∈ subTokens, token.isLine = false) ∧
      AllPlaced subTokens
  | _ => True

def AllPlaced : List MarkdownToken → Prop
  | [] => True
  | token :: tokens => token.Placed ∧ AllPlaced tokens

end

theorem allPlaced_append {first second : List MarkdownToken} (h : AllPlaced first) (h' : AllPlaced second) :
    AllPlaced (first ++ second) := by
  induction first with
  | nil => exact h'
  | cons token first ih => exact ⟨h.1, ih h.2⟩

section Place

variable {noParagraphs : Bool} {st : Paragraphs}

/-- What the loop has done so far is in its place. -/
structure Paragraphs.Tidy (noParagraphs : Bool) (st : Paragraphs) : Prop where
  /-- A paragraph is text and nothing else. -/
  pending : st.paragraphTokens = []
  placed : AllPlaced st.processed
  inside : noParagraphs = false → ∀ token ∈ st.processed, token.isLine = false

theorem Paragraphs.Tidy.snoc (h : st.Tidy noParagraphs) {token : MarkdownToken} (hplaced : token.Placed)
    (hinside : noParagraphs = false → token.isLine = false) :
    ({ st with processed := st.processed ++ [token] } : Paragraphs).Tidy noParagraphs where
  pending := h.pending
  placed := allPlaced_append h.placed ⟨hplaced, trivial⟩
  inside hno t ht := by
    obtain ht | ht := List.mem_append.mp ht
    · exact h.inside hno t ht
    · rw [List.mem_singleton.mp ht]
      exact hinside hno

theorem flush_tidy (h : st.Tidy noParagraphs) : (flushParagraph noParagraphs st).Tidy noParagraphs := by
  rw [flushParagraph, h.pending]
  by_cases htext : st.paragraphText = []
  · rw [if_pos htext]
    exact ⟨rfl, h.placed, h.inside⟩
  · rw [if_neg htext]
    have hdone : ({ st with paragraphText := [], paragraphTokens := [] } : Paragraphs).Tidy noParagraphs :=
      ⟨rfl, h.placed, h.inside⟩
    by_cases hno : noParagraphs = true
    · dsimp only [List.nil_append]
      rw [if_pos hno, if_pos rfl]
      exact hdone.snoc trivial fun hno' => absurd (hno.symm.trans hno') (by decide)
    · dsimp only [List.nil_append]
      rw [if_neg hno]
      exact hdone.snoc ⟨fun hne => absurd rfl hne, trivial, trivial⟩ fun _ => rfl

theorem push_tidy (h : st.Tidy noParagraphs) {token : MarkdownToken} (hplaced : token.Placed)
    (hinside : token.isLine = false) : (st.push noParagraphs token).Tidy noParagraphs :=
  (flush_tidy h).snoc hplaced fun _ => hinside

theorem add_tidy (h : st.Tidy noParagraphs) {token : MarkdownToken} (hplaced : token.Placed) :
    (st.add noParagraphs token).Tidy noParagraphs := by
  cases token with
  | text holder text =>
      rw [Paragraphs.add]
      by_cases hline : (holder.canContainMarkup && !holder.inhibitParagraphs) = true
      · rw [if_pos hline, Paragraphs.addLine]
        by_cases hbreak : (lit "  ").isSuffixOf text = true
        · rw [if_pos hbreak]
          apply push_tidy
          · exact ⟨h.pending, h.placed, h.inside⟩
          · trivial
          · rfl
        · rw [if_neg hbreak]
          exact ⟨h.pending, h.placed, h.inside⟩
      · rw [if_neg hline]
        apply push_tidy h hplaced
        cases holder with
        | rawText canContainMarkup =>
            cases canContainMarkup with
            | true => exact absurd rfl hline
            | false => rfl
        | _ => rfl
  | _ => exact push_tidy h hplaced rfl

theorem paragraphLines_placed {tokens : List MarkdownToken} (h : AllPlaced tokens) :
    AllPlaced (paragraphLines noParagraphs tokens) ∧
      (noParagraphs = false → ∀ token ∈ paragraphLines noParagraphs tokens, token.isLine = false) := by
  have hrun : ∀ st : Paragraphs, st.Tidy noParagraphs →
      (tokens.foldl (Paragraphs.add noParagraphs) st).Tidy noParagraphs := by
    induction tokens with
    | nil =>
        intro st hst
        exact hst
    | cons token tokens ih =>
        intro st hst
        exact ih h.2 _ (add_tidy hst h.1)
  have hstart : ({} : Paragraphs).Tidy noParagraphs := by
    refine ⟨rfl, trivial, fun _ token htoken => ?_⟩
    cases htoken
  have hend := flush_tidy (hrun {} hstart)
  exact ⟨hend.placed, hend.inside⟩

end Place

mutual

theorem MarkdownToken.placed_processParagraphLines : (token : MarkdownToken) →
    token.processParagraphLines.Placed
  | .container kind subTokens => by
      obtain ⟨hplaced, hinside⟩ := @paragraphLines_placed kind.inhibitParagraphs _
        (placed_processAllParagraphLines subTokens)
      exact ⟨fun _ => hinside, hplaced⟩
  | .text _ _ => trivial
  | .escapedCharacter _ => trivial
  | .marker _ => trivial
  | .image _ _ _ => trivial

theorem placed_processAllParagraphLines : (tokens : List MarkdownToken) →
    AllPlaced (processAllParagraphLines tokens)
  | [] => trivial
  | token :: tokens => ⟨token.placed_processParagraphLines, placed_processAllParagraphLines tokens⟩

end

/-- **The paragraph pass keeps what a page says**: for every tree, the words of its texts, the other
tokens and the containers are there after it as before, in the same order, and no text is left
outside of a paragraph unless its container inhibits them. -/
theorem paragraphs_kept (token : MarkdownToken) :
    token.processParagraphLines.content = token.content ∧ token.processParagraphLines.Placed :=
  ⟨token.content_processParagraphLines, token.placed_processParagraphLines⟩

end JustEnough
