/-
The tokens of a Markdown page (`markdown-tokens.cpp`).

A document is a tree of tokens: texts of several classes, containers around them, and what a
text is made of.  The text of a paragraph is cut into such tokens (`processText`).  Parts of it
are replaced by references first, `\x01@7@name\x01` to a token of a table and `\x01@#7@name\x01`
to a character that was escaped.  Then it is cut at the marks (`emphasisSpans`), the loops go
over the markers, and the references between them are replaced by what they refer to
(`encodeProcessedItems`).

Each expression of the source is a function here that reads the text in the same way.  What is
a parameter is the search for HTML, code and links, which fills the table (`TextPasses`).
-/
import JustEnough.Server.Emphasis

namespace JustEnough

/-! ### Text -/

/-- `EncodingFlags`, one field for each bit. -/
structure EncodingFlags where
  amps : Bool := false
  doubleAmps : Bool := false
  angles : Bool := false
  quotes : Bool := false
  deriving DecidableEq, Repr

/-- `[0-9a-fA-F]`. -/
def isHexDigit (c : UInt8) : Bool :=
  isDigit c || (byte 'a' ≤ c && c ≤ byte 'f') || (byte 'A' ≤ c && c ≤ byte 'F')

/-- One to `most` characters of a kind, and then a semicolon. -/
def endsEntity (kind : UInt8 → Bool) (most : Nat) (s : Str) : Bool :=
  let digits := s.takeWhile kind
  1 ≤ digits.length && digits.length ≤ most && (s.drop digits.length).head? = some (byte ';')

/-- `(&#[0-9]{1,3};)|(&#[xX][0-9a-fA-F]{1,2};)` at the beginning. -/
def isNumericEntity (s : Str) : Bool :=
  (lit "&#").isPrefixOf s && (endsEntity isDigit 3 (s.drop 2) ||
    (((s.drop 2).head? = some (byte 'x') || (s.drop 2).head? = some (byte 'X')) &&
      endsEntity isHexDigit 2 (s.drop 3)))

/-- `cIgnore` is found: an `&amp;` at the beginning of a line, or a number anywhere. -/
def findsIgnored (lineStart : Bool) : Str → Bool
  | [] => false
  | c :: s =>
    (lineStart && (lit "&amp;").isPrefixOf (c :: s)) || isNumericEntity (c :: s) ||
      findsIgnored (c = 10 || c = 13 || c = 12) s

/-- What is written for a character, with what is after it. -/
def encodeCharacter (flags : EncodingFlags) (c : UInt8) (s : Str) : Str :=
  if c = byte '&' && flags.amps then
    if findsIgnored true (c :: s) then [c] else lit "&amp;"
  else if c = byte '&' && flags.doubleAmps then lit "&amp;"
  else if c = byte '<' && flags.angles then lit "&lt;"
  else if c = byte '>' && flags.angles then lit "&gt;"
  else if c = byte '"' && flags.quotes then lit "&quot;"
  else [c]

def encodeString (flags : EncodingFlags) : Str → Str
  | [] => []
  | c :: s => encodeCharacter flags c s ++ encodeString flags s

/-! ### Tokens -/

/-- The classes that hold a text. -/
inductive TextHolder
  /-- `TextHolder` itself, for an attribute of a tag. -/
  | attribute
  | rawText (canContainMarkup : Bool)
  | htmlTag
  | htmlAnchorTag
  | inlineHtmlContents
  | inlineHtmlComment
  | codeBlock
  | codeSpan
  | header (level : Nat)
  | blankLine
  deriving DecidableEq, Repr

namespace TextHolder

def encodingFlags : TextHolder → EncodingFlags
  | .attribute => { amps := true, angles := true }
  | .rawText _ => { amps := true, angles := true, quotes := true }
  | .htmlTag => { amps := true, angles := true }
  | .htmlAnchorTag => {}
  | .inlineHtmlContents => { amps := true, angles := true }
  | .inlineHtmlComment => {}
  | .codeBlock => { doubleAmps := true, angles := true, quotes := true }
  | .codeSpan => { doubleAmps := true, angles := true, quotes := true }
  | .header _ => { amps := true, angles := true, quotes := true }
  | .blankLine => {}

def canContainMarkup : TextHolder → Bool
  | .rawText canContainMarkup => canContainMarkup
  | .header _ => true
  | _ => false

def inhibitParagraphs : TextHolder → Bool
  | .header _ => true
  | _ => false

/-- What is written before the text, and after it. -/
def preWrite : TextHolder → Str
  | .htmlTag => lit "<"
  | .header level => lit "<h" ++ decimal level ++ lit ">"
  | .codeBlock => lit "<pre><code>"
  | .codeSpan => lit "<code>"
  | _ => []

def postWrite : TextHolder → Str
  | .htmlTag => lit ">"
  | .header level => lit "</h" ++ decimal level ++ lit ">\n"
  | .codeBlock => lit "</code></pre>\n\n"
  | .codeSpan => lit "</code>"
  | _ => []

def writeAsHtml (holder : TextHolder) (text : Str) : Str :=
  holder.preWrite ++ (if holder.encodingFlags = {} then text else encodeString holder.encodingFlags text) ++
    holder.postWrite

end TextHolder

/-- The classes of containers. -/
inductive ContainerClass
  | container
  | inlineHtmlBlock (isBlockTag : Bool)
  | listItem (inhibitParagraphs : Bool)
  | unorderedList
  | orderedList
  | blockQuote
  | paragraph
  deriving DecidableEq, Repr

namespace ContainerClass

def inhibitParagraphs : ContainerClass → Bool
  | .inlineHtmlBlock isBlockTag => !isBlockTag
  | .listItem inhibitParagraphs => inhibitParagraphs
  | _ => false

def preWrite : ContainerClass → Str
  | .listItem _ => lit "<li>"
  | .unorderedList => lit "\n<ul>\n"
  | .orderedList => lit "<ol>\n"
  | .blockQuote => lit "<blockquote>\n"
  | .paragraph => lit "<p>"
  | _ => []

def postWrite : ContainerClass → Str
  | .listItem _ => lit "</li>\n"
  | .unorderedList => lit "</ul>\n\n"
  | .orderedList => lit "</ol>\n\n"
  | .blockQuote => lit "\n</blockquote>\n"
  | .paragraph => lit "</p>\n\n"
  | _ => []

end ContainerClass

/-- `Token`. -/
inductive MarkdownToken
  | text (holder : TextHolder) (text : Str)
  | escapedCharacter (c : UInt8)
  | container (kind : ContainerClass) (subTokens : List MarkdownToken)
  | marker (m : BoldOrItalicMarker)
  | image (altText url title : Str)

mutual

def MarkdownToken.writeAsHtml : MarkdownToken → Except SpanFault Str
  | .text holder text => .ok (holder.writeAsHtml text)
  | .escapedCharacter c => .ok [c]
  | .container kind subTokens =>
    match writeAllAsHtml subTokens with
    | .error e => .error e
    | .ok html => .ok (kind.preWrite ++ html ++ kind.postWrite)
  | .marker m => m.writeAsHtml
  | .image altText url title =>
    .ok (lit "<img src=\"" ++ url ++ lit "\" alt=\"" ++ altText ++ lit "\"" ++
      (if title = [] then [] else lit " title=\"" ++ title ++ lit "\"") ++ lit "/>")

def writeAllAsHtml : List MarkdownToken → Except SpanFault Str
  | [] => .ok []
  | token :: tokens =>
    match token.writeAsHtml with
    | .error e => .error e
    | .ok html =>
      match writeAllAsHtml tokens with
      | .error e => .error e
      | .ok rest => .ok (html ++ rest)

end

/-! ### Escaped characters -/

def cEscapedCharacters : Str := lit "\\`*_\x7b\x7d[]()#+-.!>"

def isEscapedCharacter (c : UInt8) : Option Nat :=
  if c ∈ cEscapedCharacters then some (cEscapedCharacters.idxOf c) else none

/-- What `operator[]` gives; the index after the last one is that of the null character. -/
def escapedCharacter (index : Nat) : Option UInt8 := (cEscapedCharacters ++ [0])[index]?

/-- What stands for a token: a reference, and the kind of the token. -/
def placeholder (ref name : Str) : Str := 1 :: byte '@' :: (ref ++ byte '@' :: (name ++ [1]))

def processEscapedCharacters : Str → Str
  | [] => []
  | [c] => [c]
  | c :: d :: s =>
    if c = byte '\\' then
      (match isEscapedCharacter d with
      | some e => placeholder (lit "#" ++ decimal e) (lit "escaped")
      | none => [c, d]) ++ processEscapedCharacters s
    else c :: processEscapedCharacters (d :: s)

/-- `(#?[0-9]*)` at the beginning, and the text after it. -/
def splitRef : Str → Str × Str
  | [] => ([], [])
  | c :: s =>
    if c = byte '#' then (c :: s.takeWhile isDigit, s.dropWhile isDigit)
    else ((c :: s).takeWhile isDigit, (c :: s).dropWhile isDigit)

/-- `\x01@(#?[0-9]*)@.+?\x01` at the beginning: what is referred to, and the text after it. -/
def readReplaced (s : Str) : Option (Str × Str) :=
  let found := splitRef (s.drop 2)
  let last := (found.2.drop 2).dropWhile (· ≠ 1)
  if [1, byte '@'].isPrefixOf s ∧ found.2.head? = some (byte '@') ∧ last ≠ [] then
    some (found.1, last.drop 1)
  else none

/-- The first reference: the text before it, what is referred to, and the text after it. -/
def findReplaced : Str → Option (Str × Str × Str)
  | [] => none
  | c :: s =>
    match readReplaced (c :: s) with
    | some (ref, after) => some ([], ref, after)
    | none => (findReplaced s).map fun (pre, found) => (c :: pre, found)

/-- `boost::lexical_cast<size_t>` of digits. -/
def castSize (ds : Str) : Except SpanFault Nat :=
  if ds = [] ∨ 2 ^ 64 ≤ digitsValue ds then .error .badCast else .ok (digitsValue ds)

def textTokens (pre : Str) : List MarkdownToken := if pre = [] then [] else [.text (.rawText true) pre]

/-- What takes the place of a reference. -/
def replacedItem (replacements : List MarkdownToken) (ref : Str) : Except SpanFault (List MarkdownToken) :=
  if ref.head? = some (byte '#') then
    match castSize (ref.drop 1) with
    | .error e => .error e
    | .ok n =>
      match escapedCharacter n with
      | none => .error .badPointer
      | some c => .ok [.escapedCharacter c]
  else if ref ≠ [] then
    match castSize ref with
    | .error e => .error e
    | .ok n =>
      match replacements[n]? with
      | none => .error .assertFailed
      | some token => .ok [token]
  else .ok []

theorem splitRef_append (s : Str) : (splitRef s).1 ++ (splitRef s).2 = s := by
  cases s with
  | nil => rfl
  | cons c s =>
      rw [splitRef]
      by_cases h : c = byte '#'
      · rw [if_pos h, List.cons_append, List.takeWhile_append_dropWhile]
      · rw [if_neg h, List.takeWhile_append_dropWhile]

theorem length_of_readReplaced {s ref after : Str} (h : readReplaced s = some (ref, after)) :
    after.length < s.length := by
  obtain ⟨⟨_, _, hlast⟩, heq⟩ := Option.ite_none_right_eq_some.mp h
  obtain ⟨_, rfl⟩ := Prod.mk.inj (Option.some.inj heq)
  have hpos := List.length_pos_iff.mpr hlast
  have hsplit := congrArg List.length (splitRef_append (s.drop 2))
  have hdrop := (List.dropWhile_sublist (fun c : UInt8 => decide (c ≠ 1))
    (l := (splitRef (s.drop 2)).2.drop 2)).length_le
  simp only [List.length_append, List.length_drop] at hsplit hdrop hpos ⊢
  omega

theorem length_of_findReplaced {s pre ref after : Str} (h : findReplaced s = some (pre, ref, after)) :
    after.length < s.length := by
  induction s generalizing pre with
  | nil => cases h
  | cons c s ih =>
      rw [findReplaced] at h
      cases hread : readReplaced (c :: s) with
      | some found =>
          rw [hread] at h
          obtain ⟨_, hfound⟩ := Prod.mk.inj (Option.some.inj h)
          obtain ⟨rfl, rfl⟩ := Prod.mk.inj hfound
          exact length_of_readReplaced hread
      | none =>
          rw [hread] at h
          obtain ⟨⟨pre', found⟩, hrest, heq⟩ := Option.map_eq_some_iff.mp h
          obtain ⟨_, rfl⟩ := Prod.mk.inj heq
          exact (ih hrest).trans (Nat.lt_succ_self _)

def encodeProcessedItems (replacements : List MarkdownToken) (src : Str) :
    Except SpanFault (List MarkdownToken) :=
  match _h : findReplaced src with
  | none => .ok (textTokens src)
  | some (pre, ref, after) =>
    match replacedItem replacements ref with
    | .error e => .error e
    | .ok item => (encodeProcessedItems replacements after).map (textTokens pre ++ item ++ ·)
termination_by src.length
decreasing_by exact length_of_findReplaced _h

/-! ### Spans -/

/-- The search for HTML, code and links, each with the tokens that it puts into the table. -/
structure TextPasses where
  /-- `_processHtmlTagAttributes` and `_processCodeSpans`. -/
  processCode : Str → Str × List MarkdownToken
  /-- `_processLinksImagesAndTags`, with the ids of the document. -/
  processLinks : Str → List MarkdownToken → Str × List MarkdownToken

/-- The text that is cut at the marks, and the table. -/
def TextPasses.replaced (passes : TextPasses) (text : Str) : Str × List MarkdownToken :=
  let code := passes.processCode text
  passes.processLinks (processEscapedCharacters code.1) code.2

/-- The last loop of `_processBoldAndItalicSpans`. -/
def placeTokens (replacements : List MarkdownToken) :
    List SpanToken → Except SpanFault (List MarkdownToken)
  | [] => .ok []
  | .rawText text :: tokens =>
    match encodeProcessedItems replacements text with
    | .error e => .error e
    | .ok items => (placeTokens replacements tokens).map (items ++ ·)
  | .marker m :: tokens => (placeTokens replacements tokens).map (.marker m :: ·)

/-- `RawText::processSpanElements`; `none` where a loop does not come back. -/
def processText (passes : TextPasses) (fuel : Nat) (text : Str) :
    Option (Except SpanFault (List MarkdownToken)) :=
  (processBoldAndItalicSpans fuel (emphasisSpans (passes.replaced text).1)).map fun result =>
    result.bind (placeTokens (passes.replaced text).2)

/-- One after the other: the second only where the first has come back with tokens. -/
def appendResults (first second : Option (Except SpanFault (List MarkdownToken))) :
    Option (Except SpanFault (List MarkdownToken)) :=
  match first with
  | none => none
  | some (.error e) => some (.error e)
  | some (.ok tokens) => second.map fun result => result.map (tokens ++ ·)

mutual

/-- What `Container::processSpanElements` puts in the place of a token. -/
def MarkdownToken.processSpans (passes : TextPasses) (fuel : Nat) :
    MarkdownToken → Option (Except SpanFault (List MarkdownToken))
  | .text (.rawText true) text =>
    (processText passes fuel text).map fun result => result.map fun subt =>
      if 1 < subt.length then [.container .container subt] else subt
  | .container kind subTokens =>
    (processAllSpans passes fuel subTokens).map fun result => result.map fun subTokens =>
      [.container kind subTokens]
  | token => some (.ok [token])

def processAllSpans (passes : TextPasses) (fuel : Nat) :
    List MarkdownToken → Option (Except SpanFault (List MarkdownToken))
  | [] => some (.ok [])
  | token :: tokens =>
    appendResults (token.processSpans passes fuel) (processAllSpans passes fuel tokens)

end

end JustEnough
