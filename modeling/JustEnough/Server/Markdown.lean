/-
A Markdown document (`markdown.cpp`), from its bytes to HTML.

It is read line by line into tokens, and passes turn the tokens into a tree: the block passes
find lists, quotes, headers, code and HTML, the paragraph pass puts together the lines of text
that are left, and the span pass cuts each text into marks, links and the rest.  Then the tree
is written.

The block passes are a parameter (`MarkdownPasses`).
-/
import JustEnough.Server.MarkdownTokens

namespace JustEnough

/-! ### Lines -/

def cSpacesPerInitialTab : Nat := 4

/-- What `convertMarkdownToHtml` leaves `spacesPerTab` at. -/
def cSpacesPerTab : Nat := 4

/-- The rest after a line end, which may be of two characters. -/
def skipByte (c : UInt8) : Str → Str
  | [] => []
  | d :: rest => if d = c then rest else d :: rest

/-- `_getline`: the next line and what is after it, unless there is none. -/
def getMarkdownLine : Bool → Str → Str → Option (Str × Str)
  | _, line, [] => if line = [] then none else some (line, [])
  | initialWhitespace, line, c :: rest =>
    if c = 13 then some (line, skipByte 10 rest)
    else if c = 10 then some (line, skipByte 13 rest)
    else if c = 9 then
      let convert := if initialWhitespace then cSpacesPerInitialTab else cSpacesPerTab
      getMarkdownLine initialWhitespace
        (line ++ List.replicate (convert - line.length % convert) (byte ' ')) rest
    else getMarkdownLine (if c ≠ byte ' ' then false else initialWhitespace) (line ++ [c]) rest

theorem skipByte_length_le (c : UInt8) (s : Str) : (skipByte c s).length ≤ s.length := by
  cases s with
  | nil => exact le_rfl
  | cons d s =>
      rw [skipByte]
      by_cases h : d = c
      · rw [if_pos h]
        exact Nat.le_succ _
      · rw [if_neg h]

/-- A line leaves less to read. -/
theorem getMarkdownLine_length {ws : Bool} {acc src line rest : Str}
    (h : getMarkdownLine ws acc src = some (line, rest)) (hacc : acc = [] ∨ src ≠ []) :
    rest.length < src.length := by
  induction src generalizing ws acc with
  | nil =>
      rw [getMarkdownLine, if_pos (hacc.resolve_right fun hne => hne rfl)] at h
      cases h
  | cons c src ih =>
      have hrest : ∀ ws acc, getMarkdownLine ws acc src = some (line, rest) → rest.length < src.length + 1 := by
        intro ws acc h
        cases src with
        | nil =>
            rw [getMarkdownLine] at h
            by_cases hnil : acc = []
            · rw [if_pos hnil] at h
              cases h
            · rw [if_neg hnil] at h
              cases h
              exact Nat.zero_lt_one
        | cons d src => exact (ih h (.inr (List.cons_ne_nil _ _))).trans (Nat.lt_succ_self _)
      rw [getMarkdownLine] at h
      by_cases hcr : c = 13
      · rw [if_pos hcr] at h
        cases h
        exact Nat.lt_succ_of_le (skipByte_length_le 10 src)
      · rw [if_neg hcr] at h
        by_cases hlf : c = 10
        · rw [if_pos hlf] at h
          cases h
          exact Nat.lt_succ_of_le (skipByte_length_le 13 src)
        · rw [if_neg hlf] at h
          by_cases htab : c = 9
          · rw [if_pos htab] at h
            exact hrest _ _ h
          · rw [if_neg htab] at h
            exact hrest _ _ h

/-- The lines of `Document::read`. -/
def readMarkdownLines (src : Str) : List Str :=
  match _h : getMarkdownLine true [] src with
  | none => []
  | some (line, rest) => line :: readMarkdownLines rest
termination_by src.length
decreasing_by exact getMarkdownLine_length _h (.inl rfl)

/-- `<--(.*)-- *> *`, once; the middle may be anything, so more of them are one. -/
def isComment (s : Str) : Bool :=
  let body := s.reverse.dropWhile (· = byte ' ')
  body.head? = some (byte '>') &&
    (let inner := ((body.drop 1).dropWhile (· = byte ' ')).reverse
    (lit "<--").isPrefixOf inner && (lit "--").isSuffixOf (inner.drop 3))

/-- ` {0,3}(<--(.*)-- *> *)* *`. -/
def isMarkdownBlankLine (line : Str) : Bool :=
  let rest := line.dropWhile (· = byte ' ')
  rest = [] || (line.length - rest.length ≤ 3 && isComment rest)

/-- `Document::read`. -/
def readMarkdown (src : Str) : List MarkdownToken :=
  (readMarkdownLines src).map fun line =>
    if isMarkdownBlankLine line then .text .blankLine line else .text (.rawText true) line

/-! ### Paragraphs -/

/-- What the loop of `_processParagraphLines` collects. -/
structure Paragraphs where
  paragraphText : Str := []
  paragraphTokens : List MarkdownToken := []
  processed : List MarkdownToken := []

def flushParagraph (noParagraphs : Bool) (st : Paragraphs) : Paragraphs :=
  let tokens := if st.paragraphText = [] then st.paragraphTokens
    else st.paragraphTokens ++ [.text (.rawText true) st.paragraphText]
  match tokens with
  | [] => { st with paragraphText := [], paragraphTokens := [] }
  | first :: others =>
    let token :=
      if noParagraphs then (if others = [] then first else .container .container (first :: others))
      else .container .paragraph (first :: others)
    { paragraphText := [], paragraphTokens := [], processed := st.processed ++ [token] }

/-- A token that is not a line of text. -/
def Paragraphs.push (noParagraphs : Bool) (st : Paragraphs) (token : MarkdownToken) : Paragraphs :=
  let st := flushParagraph noParagraphs st
  { st with processed := st.processed ++ [token] }

/-- A line of text; two spaces at its end make a line break. -/
def Paragraphs.addLine (noParagraphs : Bool) (st : Paragraphs) (text : Str) : Paragraphs :=
  let paragraphText := if st.paragraphText = [] then [] else st.paragraphText ++ lit " "
  if (lit "  ").isSuffixOf text then
    ({ st with paragraphText := paragraphText ++ text.take (text.length - 2) } : Paragraphs).push
      noParagraphs (.text .htmlTag (lit "br/"))
  else { st with paragraphText := paragraphText ++ text }

def Paragraphs.add (noParagraphs : Bool) (st : Paragraphs) : MarkdownToken → Paragraphs
  | .text holder text =>
    if holder.canContainMarkup && !holder.inhibitParagraphs then st.addLine noParagraphs text
    else st.push noParagraphs (.text holder text)
  | token => st.push noParagraphs token

/-- The loop over the tokens of a container. -/
def paragraphLines (noParagraphs : Bool) (tokens : List MarkdownToken) : List MarkdownToken :=
  (flushParagraph noParagraphs (tokens.foldl (Paragraphs.add noParagraphs) {})).processed

mutual

/-- `_processParagraphLines`: first for the containers inside, then for the container. -/
def MarkdownToken.processParagraphLines : MarkdownToken → MarkdownToken
  | .container kind subTokens =>
    .container kind (paragraphLines kind.inhibitParagraphs (processAllParagraphLines subTokens))
  | token => token

def processAllParagraphLines : List MarkdownToken → List MarkdownToken
  | [] => []
  | token :: tokens => token.processParagraphLines :: processAllParagraphLines tokens

end

/-! ### The page -/

structure MarkdownPasses extends TextPasses where
  /-- `_mergeMultilineHtmlTags`, `_processInlineHtmlAndReferences` and `_processBlocksItems`. -/
  blocks : List MarkdownToken → List MarkdownToken

/-- `mTokenContainer` before the span pass. -/
def markdownTree (passes : MarkdownPasses) (src : Str) : MarkdownToken :=
  (MarkdownToken.container .container (passes.blocks (readMarkdown src))).processParagraphLines

/-- `convertMarkdownToHtml`; `none` where a loop does not come back. -/
def convertMarkdown (passes : MarkdownPasses) (fuel : Nat) (src : Str) : Option (Except SpanFault Str) :=
  ((markdownTree passes src).processSpans passes.toTextPasses fuel).map fun result => result.bind writeAllAsHtml

end JustEnough
