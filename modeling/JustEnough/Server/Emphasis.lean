/-
Bold and italic text (`RawText::_processBoldAndItalicSpans`).

An expression cuts the text into marks and what stands between them (`emphasisSpans`).
Then three loops go over the tokens.  The first looks for a close-marker for each
open-marker (`matchMarkers`) and splits the markers of three characters on its way, so the
list grows under the loop: the fuel counts the turns, and where it is never enough the
program does not come back.  The second takes back the matches that cross another
(`unmatchMarkers`).  What is left is written as HTML.

Markers point at each other, and the second loop keeps pointers on a stack.  A pointer is
the number of the object, in the order of the calls of `new`.
-/
import JustEnough.Lib.Nesting
import JustEnough.Lib.Strings

namespace JustEnough

/-- What stops the loops. -/
inductive SpanFault
  /-- `top` of an empty stack. -/
  | emptyStack
  /-- A pointer to no marker, or an index to no character. -/
  | badPointer
  | assertFailed
  | badCast
  deriving DecidableEq, Repr

structure BoldOrItalicMarker where
  /-- Where the object is. -/
  address : Nat
  openMarker : Bool
  tokenCharacter : UInt8
  size : Nat
  /-- `mMatch`, with `none` for the null pointer. -/
  matchedTo : Option Nat := none
  cannotMatch : Bool := false
  disabled : Bool := false
  id : Int := -1
  deriving DecidableEq, Repr

namespace BoldOrItalicMarker

variable (m : BoldOrItalicMarker)

def isUnmatchedOpenMarker : Bool := m.openMarker && m.matchedTo.isNone && !m.cannotMatch

def isUnmatchedCloseMarker : Bool := !m.openMarker && m.matchedTo.isNone && !m.cannotMatch

def isMatchedOpenMarker : Bool := m.openMarker && m.matchedTo.isSome

def isMatchedCloseMarker : Bool := !m.openMarker && m.matchedTo.isSome

def matched (mate : Option Nat) (id : Int) : BoldOrItalicMarker := { m with matchedTo := mate, id }

def disable : BoldOrItalicMarker := { m with cannotMatch := true, disabled := true }

def writeAsHtml : Except SpanFault Str :=
  if m.disabled then .ok []
  else if m.matchedTo.isSome then
    if m.size < 1 ∨ 3 < m.size then .error .assertFailed
    else if m.openMarker then
      .ok (if m.size = 1 then lit "<em>" else if m.size = 2 then lit "<strong>"
        else lit "<strong><em>")
    else
      .ok (if m.size = 1 then lit "</em>" else if m.size = 2 then lit "</strong>"
        else lit "</em></strong>")
  else .ok (List.replicate m.size m.tokenCharacter)

end BoldOrItalicMarker

/-- What the loops tell apart: a text, and a marker. -/
inductive SpanToken
  | rawText (text : Str)
  | marker (m : BoldOrItalicMarker)
  deriving DecidableEq, Repr

namespace SpanToken

def unmatchedOpenMarker : SpanToken → Option BoldOrItalicMarker
  | .rawText _ => none
  | .marker m => if m.isUnmatchedOpenMarker then some m else none

def unmatchedCloseMarker : SpanToken → Option BoldOrItalicMarker
  | .rawText _ => none
  | .marker m => if m.isUnmatchedCloseMarker then some m else none

end SpanToken

/-! ### The marks of a text -/

/-- Underscore or asterisk. -/
def IsMark (c : UInt8) : Prop := c = byte '*' ∨ c = byte '_'

instance (c : UInt8) : Decidable (IsMark c) := inferInstanceAs (Decidable (_ ∨ _))

/-- One to three of a character, as `[*_]{1,3}` matches them. -/
structure Mark where
  openMarker : Bool
  tokenCharacter : UInt8
  size : Nat
  marked : IsMark tokenCharacter
  sized : 1 ≤ size ∧ size ≤ 3

inductive Span
  | text (text : Str)
  | mark (m : Mark)

/-- A mark of these characters, if they are as many as a mark can have. -/
def markOf (openMarker : Bool) : Str → Option Span
  | [] => none
  | c :: token =>
    if h : IsMark c ∧ token.length + 1 ≤ 3 then
      some (.mark ⟨openMarker, c, token.length + 1, h.1, Nat.le_add_left .., h.2⟩)
    else none

/-- `(?<![*_])([*_]{1,3})([^*_ ]+?)\1(?![*_])` at the beginning, with the character before it:
what is found, and the text after it. -/
def midWord (before : Option UInt8) (s : Str) : Option (List Span × Str) :=
  let token := s.takeWhile (IsMark ·)
  let contents := (s.drop token.length).takeWhile fun c => !(IsMark c || c = byte ' ')
  let rest := s.drop (token.length + contents.length)
  let after := rest.drop token.length
  if before.any (IsMark ·) ∨ contents = [] ∨ ¬token.isPrefixOf rest ∨ after.head?.any (IsMark ·) then none
  else
    match markOf true token, markOf false token with
    | some opening, some closing => some ([opening, .text contents, closing], after)
    | _, _ => none

def isSeparator (c : UInt8) : Bool := c = 10 || c = 13 || c = 12

/-- `[.,:;] ` or `[.,:;]$` at the beginning. -/
def isPunctuated : Str → Bool
  | [] => false
  | c :: s => (lit ".,:;").contains c && (s.head?.all fun d => d = byte ' ' || isSeparator d)

/-- `(?<!\*)\*{1,3}(?!\*)` or the same with `_`, and then `(?=.)(?! )(?![.,:;] )(?![.,:;]$)`. -/
def openingMark (before : Option UInt8) (s : Str) : Option (List Span × Str) :=
  let token := s.takeWhile (some · = s.head?)
  let after := s.drop token.length
  if before = s.head? ∨ after = [] ∨ after.head? = some (byte ' ') ∨ isPunctuated after then none
  else (markOf true token).map fun mark => ([mark], after)

/-- `(?<![* ])\*{1,3}(?!\*)` or the same with `_`. -/
def closingMark (before : Option UInt8) (s : Str) : Option (List Span × Str) :=
  let token := s.takeWhile (some · = s.head?)
  if before = s.head? ∨ before = some (byte ' ') then none
  else (markOf false token).map fun mark => ([mark], s.drop token.length)

/-- `cEmphasisExpression`. -/
def emphasisAt (before : Option UInt8) (s : Str) : Option (List Span × Str) :=
  (midWord before s).or ((openingMark before s).or (closingMark before s))

theorem length_of_markOf {openMarker : Bool} {s token : Str} {span : Span}
    (h : markOf openMarker token = some span) (htoken : token.length ≤ s.length) : (s.drop token.length).length < s.length := by
  cases token with
  | nil => cases h
  | cons c token =>
      rw [List.length_drop]
      rw [List.length_cons] at htoken ⊢
      omega

theorem length_of_emphasisAt {before : Option UInt8} {s after : Str} {spans : List Span}
    (h : emphasisAt before s = some (spans, after)) : after.length < s.length := by
  have hrun : ∀ p, (s.takeWhile p).length ≤ s.length := fun p => (List.takeWhile_sublist p).length_le
  rw [emphasisAt] at h
  obtain h | ⟨_, h⟩ := Option.or_eq_some_iff.mp h
  · rw [midWord] at h
    obtain ⟨_, h⟩ := Option.ite_none_left_eq_some.mp h
    cases hmark : markOf true (s.takeWhile (IsMark ·)) with
    | none =>
        rw [hmark] at h
        cases h
    | some opening =>
        have hless := length_of_markOf hmark (hrun _)
        rw [hmark] at h
        cases hmark' : markOf false (s.takeWhile (IsMark ·)) with
        | none =>
            rw [hmark'] at h
            cases h
        | some closing =>
            rw [hmark'] at h
            obtain ⟨_, rfl⟩ := Prod.mk.inj (Option.some.inj h)
            simp only [List.length_drop] at hless ⊢
            omega
  · obtain h | ⟨_, h⟩ := Option.or_eq_some_iff.mp h
    · obtain ⟨_, h⟩ := Option.ite_none_left_eq_some.mp h
      obtain ⟨mark, hmark, h⟩ := Option.map_eq_some_iff.mp h
      obtain ⟨_, rfl⟩ := Prod.mk.inj h
      exact length_of_markOf hmark (hrun _)
    · obtain ⟨_, h⟩ := Option.ite_none_left_eq_some.mp h
      obtain ⟨mark, hmark, h⟩ := Option.map_eq_some_iff.mp h
      obtain ⟨_, rfl⟩ := Prod.mk.inj h
      exact length_of_markOf hmark (hrun _)

def textSpans (pre : Str) : List Span := if pre = [] then [] else [.text pre]

/-- The loop over the matches; what is before a match is a text.  A new search does not see what
is before it. -/
def emphasisFrom (before : Option UInt8) (pre s : Str) : List Span :=
  match s with
  | [] => textSpans pre
  | c :: s =>
    match _h : emphasisAt before (c :: s) with
    | some (spans, after) => textSpans pre ++ spans ++ emphasisFrom none [] after
    | none => emphasisFrom (some c) (pre ++ [c]) s
termination_by s.length
decreasing_by
  · exact length_of_emphasisAt _h
  · exact Nat.lt_succ_self _

def emphasisSpans (src : Str) : List Span := emphasisFrom none [] src

/-! ### The tokens -/

/-- `new BoldOrItalicMarker`. -/
def newMarker (openMarker : Bool) (tokenCharacter : UInt8) (size address : Nat) : SpanToken :=
  .marker ⟨address, openMarker, tokenCharacter, size, none, false, false, -1⟩

/-- The tokens for the spans, and how many objects there are then. -/
def spanTokens : List Span → Nat → List SpanToken × Nat
  | [], next => ([], next)
  | .text text :: spans, next =>
    let rest := spanTokens spans next
    (.rawText text :: rest.1, rest.2)
  | .mark m :: spans, next =>
    let rest := spanTokens spans (next + 1)
    (newMarker m.openMarker m.tokenCharacter m.size next :: rest.1, rest.2)

/-! ### The first loop -/

/-- How the search for a close-marker ends, with the tokens after the open-marker. -/
inductive Search
  | unmatched (tokens : List SpanToken) (next : Nat)
  /-- The close-marker at the address is the one. -/
  | matched (close : Nat) (tokens : List SpanToken) (next : Nat)
  /-- A close-marker of this size is in the way of an open-marker of three. -/
  | split (size : Nat) (tokens : List SpanToken) (next : Nat)
  deriving DecidableEq, Repr

def Search.cons (token : SpanToken) : Search → Search
  | .unmatched tokens next => .unmatched (token :: tokens) next
  | .matched close tokens next => .matched close (token :: tokens) next
  | .split size tokens next => .split size (token :: tokens) next

/-- The loop over `iii`. -/
def findClose (openToken : BoldOrItalicMarker) (id : Int) : Nat → List SpanToken → Nat → Option Search
  | 0, _, _ => none
  | _ + 1, [], next => some (.unmatched [] next)
  | fuel + 1, token :: rest, next =>
    match token.unmatchedCloseMarker with
    | none => (findClose openToken id fuel rest next).map (.cons token)
    | some closeToken =>
      if closeToken.size = 3 ∧ openToken.size ≠ 3 then
        let leftover := newMarker false closeToken.tokenCharacter (closeToken.size - openToken.size) next
        let fitting := newMarker false closeToken.tokenCharacter openToken.size (next + 1)
        (findClose openToken id fuel (leftover :: fitting :: rest) (next + 2)).map
          (.cons (.marker closeToken.disable))
      else if closeToken.tokenCharacter = openToken.tokenCharacter ∧ closeToken.size = openToken.size then
        some (.matched closeToken.address (.marker (closeToken.matched openToken.address id) :: rest) next)
      else if openToken.size = 3 then some (.split closeToken.size (token :: rest) next)
      else (findClose openToken id fuel rest next).map (.cons token)

/-- The loop over `ii`. -/
def matchMarkers : Nat → List SpanToken → Int → Nat → Option (List SpanToken)
  | 0, _, _, _ => none
  | _ + 1, [], _, _ => some []
  | fuel + 1, token :: rest, id, next =>
    match token.unmatchedOpenMarker with
    | none => (matchMarkers fuel rest id next).map (token :: ·)
    | some openToken =>
      match findClose openToken id fuel rest next with
      | none => none
      | some (.unmatched rest next) => (matchMarkers fuel rest id next).map (token :: ·)
      | some (.matched close rest next) =>
        (matchMarkers fuel rest (id + 1) next).map (.marker (openToken.matched close id) :: ·)
      | some (.split size rest next) =>
        let leftover := newMarker true openToken.tokenCharacter (openToken.size - size) next
        let fitting := newMarker true openToken.tokenCharacter size (next + 1)
        (matchMarkers fuel (leftover :: fitting :: rest) id (next + 2)).map
          (.marker openToken.disable :: ·)

/-! ### The second loop -/

/-- What a pointer points to. -/
def markerAt (tokens : List SpanToken) (address : Nat) : Except SpanFault BoldOrItalicMarker :=
  match tokens with
  | [] => .error .badPointer
  | .rawText _ :: tokens => markerAt tokens address
  | .marker m :: tokens => if m.address = address then .ok m else markerAt tokens address

/-- `matched(0)` on the object at an address. -/
def unmatchAt (tokens : List SpanToken) (address : Nat) : List SpanToken :=
  tokens.map fun token =>
    match token with
    | .rawText text => .rawText text
    | .marker m => .marker (if m.address = address then m.matched none (-1) else m)

/-- The pointers that are left when those to unmatched markers are popped. -/
def popUnmatched (tokens : List SpanToken) : List Nat → Except SpanFault (List Nat)
  | [] => .ok []
  | top :: openMatches =>
    match markerAt tokens top with
    | .error e => .error e
    | .ok m => if m.matchedTo.isNone then popUnmatched tokens openMatches else .ok (top :: openMatches)

/-- What the second loop does at a close-marker that is matched. -/
def closeMatch (tokens : List SpanToken) (openMatches : List Nat) (close : BoldOrItalicMarker) :
    Except SpanFault (List SpanToken × List Nat) :=
  match openMatches with
  | [] => .error .emptyStack
  | top :: below =>
    match markerAt tokens top with
    | .error e => .error e
    | .ok openToken =>
      if close.id ≠ openToken.id then
        match close.matchedTo with
        | none => .error .badPointer
        | some address =>
          match markerAt tokens address with
          | .error e => .error e
          | .ok _ => .ok (unmatchAt (unmatchAt tokens address) close.address, openMatches)
      else (popUnmatched tokens below).map fun openMatches => (tokens, openMatches)

/-- The turns of the second loop from token `i` on, `left` of them. -/
def unmatchFrom : Nat → Nat → List SpanToken → List Nat → Except SpanFault (List SpanToken)
  | 0, _, tokens, _ => .ok tokens
  | left + 1, i, tokens, openMatches =>
    match tokens[i]? with
    | some (.marker m) =>
      if m.isMatchedOpenMarker then unmatchFrom left (i + 1) tokens (m.address :: openMatches)
      else if m.isMatchedCloseMarker then
        match closeMatch tokens openMatches m with
        | .error e => .error e
        | .ok (tokens, openMatches) => unmatchFrom left (i + 1) tokens openMatches
      else unmatchFrom left (i + 1) tokens openMatches
    | _ => unmatchFrom left (i + 1) tokens openMatches

def unmatchMarkers (tokens : List SpanToken) : Except SpanFault (List SpanToken) :=
  unmatchFrom tokens.length 0 tokens []

/-! ### The whole -/

/-- `none` where the fuel does not last. -/
def processBoldAndItalicSpans (fuel : Nat) (spans : List Span) :
    Option (Except SpanFault (List SpanToken)) :=
  (matchMarkers fuel (spanTokens spans 0).1 0 (spanTokens spans 0).2).map unmatchMarkers

/-- `Container::writeAsHtml` over the tokens; what becomes of a text is left open. -/
def writeTokens (writeText : Str → Str) : List SpanToken → Except SpanFault Str
  | [] => .ok []
  | .rawText text :: tokens => (writeTokens writeText tokens).map (writeText text ++ ·)
  | .marker m :: tokens =>
    match m.writeAsHtml with
    | .error e => .error e
    | .ok html => (writeTokens writeText tokens).map (html ++ ·)

end JustEnough
