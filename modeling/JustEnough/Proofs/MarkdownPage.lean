/-
The tags of a Markdown page.

A page is written from a tree: containers and headers put their tags around what is in them,
and the markers in a text, bold and italic, are what the loops have left of them
(`processBoldAndItalicSpans_spec`).  Text is encoded, so no `<` of it is left, and the tags that
a reader finds in the page are those that were written (`tags_textOf`).  They are properly nested
(`markdown_nested`), for every tree without HTML, links and images of its own.  With links they
need not be: a link is written as two tags that the loops do not see.
-/
import JustEnough.Proofs.Emphasis
import JustEnough.Proofs.EscapedText
import JustEnough.Server.Markdown
import JustEnough.Lib.Markup

namespace JustEnough

/-! ### What a tree is written as -/

namespace TextHolder

/-- The elements around a text, from the outside in. -/
def elements : TextHolder → List Element
  | .header level => [.header level]
  | .codeBlock => [.pre, .code]
  | .codeSpan => [.code]
  | _ => []

/-- White space after it. -/
def trailer : TextHolder → Str
  | .header _ => lit "\n"
  | .codeBlock => lit "\n\n"
  | _ => []

def pieces (holder : TextHolder) (text : Str) : List Piece :=
  match holder with
  | .htmlTag => [.void (TextHolder.htmlTag.writeAsHtml text)]
  | holder =>
    holder.elements.map (fun e => .tag (.opening e)) ++
      [.chars (if holder.encodingFlags = {} then text else encodeString holder.encodingFlags text)] ++
      holder.elements.reverse.map (fun e => .tag (.closing e)) ++ [.chars holder.trailer]

end TextHolder

namespace ContainerClass

def elements : ContainerClass → List Element
  | .listItem _ => [.li]
  | .unorderedList => [.ul]
  | .orderedList => [.ol]
  | .blockQuote => [.blockquote]
  | .paragraph => [.p]
  | _ => []

/-- White space before and after the opening tag, and before and after the closing one. -/
def spaces : ContainerClass → Str × Str × Str × Str
  | .listItem _ => ([], [], [], lit "\n")
  | .unorderedList => (lit "\n", lit "\n", [], lit "\n\n")
  | .orderedList => ([], lit "\n", [], lit "\n\n")
  | .blockQuote => ([], lit "\n", lit "\n", lit "\n")
  | .paragraph => ([], [], [], lit "\n\n")
  | _ => ([], [], [], [])

def pieces (kind : ContainerClass) (inner : List Piece) : List Piece :=
  [Piece.chars kind.spaces.1] ++ kind.elements.map (fun e => Piece.tag (.opening e)) ++
    [Piece.chars kind.spaces.2.1] ++ inner ++ [Piece.chars kind.spaces.2.2.1] ++
    kind.elements.reverse.map (fun e => Piece.tag (.closing e)) ++ [Piece.chars kind.spaces.2.2.2]

end ContainerClass

mutual

def MarkdownToken.pieces : MarkdownToken → List Piece
  | .text holder text => holder.pieces text
  | .escapedCharacter c => [.chars [c]]
  | .container kind subTokens => kind.pieces (allPieces subTokens)
  | .marker m => (SpanToken.marker m).pieces id
  | .image altText url title => [.void ((MarkdownToken.image altText url title).writeAsHtml.toOption.getD [])]

def allPieces : List MarkdownToken → List Piece
  | [] => []
  | token :: tokens => token.pieces ++ allPieces tokens

end

theorem allPieces_append (first second : List MarkdownToken) :
    allPieces (first ++ second) = allPieces first ++ allPieces second := by
  induction first with
  | nil => rfl
  | cons token first ih => rw [List.cons_append, allPieces, allPieces, ih, List.append_assoc]

def textOf (pieces : List Piece) : Str := pieces.flatMap Piece.text

def tagsOf (pieces : List Piece) : List (Tag Element) := pieces.filterMap Piece.tag?

theorem textOf_append (first second : List Piece) : textOf (first ++ second) = textOf first ++ textOf second :=
  List.flatMap_append

theorem tagsOf_append (first second : List Piece) : tagsOf (first ++ second) = tagsOf first ++ tagsOf second :=
  List.filterMap_append ..

theorem textHolder_text (holder : TextHolder) (text : Str) :
    textOf (holder.pieces text) = holder.writeAsHtml text := by
  cases holder <;> simp [TextHolder.pieces, TextHolder.writeAsHtml, TextHolder.elements, TextHolder.trailer,
    TextHolder.preWrite, TextHolder.postWrite, textOf, Piece.text, Element.html, Element.name] <;> rfl

theorem container_text (kind : ContainerClass) (inner : List Piece) :
    textOf (kind.pieces inner) = kind.preWrite ++ textOf inner ++ kind.postWrite := by
  cases kind <;> simp [ContainerClass.pieces, ContainerClass.elements, ContainerClass.spaces,
    ContainerClass.preWrite, ContainerClass.postWrite, textOf, Piece.text, Element.html, Element.name] <;> rfl

/-! ### What can be written -/

mutual

/-- The markers of a tree can be written. -/
def MarkdownToken.Sound : MarkdownToken → Prop
  | .marker m => (SpanToken.marker m).Sound
  | .container _ subTokens => AllSound subTokens
  | _ => True

def AllSound : List MarkdownToken → Prop
  | [] => True
  | token :: tokens => token.Sound ∧ AllSound tokens

end

mutual

theorem MarkdownToken.writeAsHtml_eq : (token : MarkdownToken) → token.Sound →
    token.writeAsHtml = .ok (textOf token.pieces)
  | .text holder text, _ => by
      rw [MarkdownToken.writeAsHtml, MarkdownToken.pieces, textHolder_text]
  | .escapedCharacter c, _ => rfl
  | .container kind subTokens, h => by
      rw [MarkdownToken.writeAsHtml, MarkdownToken.pieces, writeAllAsHtml_eq subTokens h, container_text]
  | .marker m, h => by
      rw [MarkdownToken.writeAsHtml, MarkdownToken.pieces]
      exact JustEnough.writeAsHtml_eq h
  | .image altText url title, _ => by
      simp [MarkdownToken.pieces, MarkdownToken.writeAsHtml, textOf, Piece.text, Except.toOption]

theorem writeAllAsHtml_eq : (tokens : List MarkdownToken) → AllSound tokens →
    writeAllAsHtml tokens = .ok (textOf (allPieces tokens))
  | [], _ => rfl
  | token :: tokens, h => by
      rw [writeAllAsHtml, allPieces, token.writeAsHtml_eq h.1, writeAllAsHtml_eq tokens h.2, textOf_append]

end

/-! ### What a reader finds -/

/-- The name in a tag; none of those that stand alone. -/
def readTag (tag : Str) : Option (Tag Str) :=
  let name := (tag.drop 1).dropLast
  if name.head? = some (byte '/') then some (.closing (name.drop 1))
  else if name.getLast? = some (byte '/') then none
  else some (.opening name)

def htmlTags (html : Str) : List (Tag Str) :=
  (Markup.tags (byte '<') (byte '>') html).filterMap readTag

/-- Every `<` of a page is closed, and the tags are properly nested. -/
def WellNested (html : Str) : Prop :=
  Markup.Closed (byte '<') (byte '>') html ∧ Nested (htmlTags html)

theorem htmlTags_append {first : Str} (h : Markup.Closed (byte '<') (byte '>') first) (second : Str) :
    htmlTags (first ++ second) = htmlTags first ++ htmlTags second := by
  rw [htmlTags, Markup.tags_append h, List.filterMap_append, htmlTags, htmlTags]

theorem htmlTags_text {s : Str} (h : byte '<' ∉ s) : htmlTags s = [] := by
  rw [htmlTags, Markup.tags_text h, List.filterMap_nil]

/-- The names of elements are words. -/
theorem name_clean (e : Element) : byte '/' ∉ e.name ∧ byte '>' ∉ e.name := by
  cases e with
  | header level =>
      have hdigit : ∀ c ∈ lit "h" ++ decimal level, c = byte 'h' ∨ isDigit c = true := by
        intro c hc
        obtain hc | hc := List.mem_append.mp hc
        · exact .inl (by simpa [lit] using hc)
        · exact .inr (isDigit_of_mem_decimal hc)
      refine ⟨fun h => ?_, fun h => ?_⟩
      · obtain h | h := hdigit _ h
        · exact absurd h (by decide)
        · exact absurd h (by decide)
      · obtain h | h := hdigit _ h
        · exact absurd h (by decide)
        · exact absurd h (by decide)
  | _ => decide +kernel

theorem scan_html (tag : Tag Element) :
    Markup.Closed (byte '<') (byte '>') (Element.html tag) ∧
      htmlTags (Element.html tag) = tag.expand fun e => [e.name] := by
  cases tag with
  | opening e =>
      obtain ⟨hslash, hgt⟩ := name_clean e
      have hhtml : Element.html (.opening e) = byte '<' :: (e.name ++ [byte '>']) := rfl
      have hread : readTag (byte '<' :: (e.name ++ [byte '>'])) = some (.opening e.name) := by
        simp only [readTag, List.drop_succ_cons, List.drop_zero, List.dropLast_concat]
        rw [if_neg fun h => hslash (List.mem_of_head? h), if_neg fun h => hslash (List.mem_of_getLast? h)]
      rw [hhtml, Markup.Closed, htmlTags, Markup.tags, Markup.scan_tag hgt]
      exact ⟨rfl, by rw [List.filterMap_cons, hread]; rfl⟩
  | closing e =>
      obtain ⟨_, hgt⟩ := name_clean e
      have hhtml : Element.html (.closing e) = byte '<' :: (byte '/' :: e.name ++ [byte '>']) := rfl
      have hread : readTag (byte '<' :: (byte '/' :: e.name ++ [byte '>'])) = some (.closing e.name) := by
        simp only [readTag, List.drop_succ_cons, List.drop_zero, List.dropLast_concat]
        rw [List.head?_cons, if_pos rfl]
      have hslashed : byte '>' ∉ byte '/' :: e.name := by
        intro h
        obtain h | h := List.mem_cons.mp h
        · exact absurd h (by decide)
        · exact hgt h
      rw [hhtml, Markup.Closed, htmlTags, Markup.tags, Markup.scan_tag hslashed]
      exact ⟨rfl, by rw [List.filterMap_cons, hread]; rfl⟩

/-- What can stand in a page without being taken for something else. -/
def Piece.Clean : Piece → Prop
  | .tag _ => True
  | .void s => Markup.Closed (byte '<') (byte '>') s ∧ htmlTags s = []
  | .chars s => byte '<' ∉ s

theorem Piece.Clean.scan {piece : Piece} (h : piece.Clean) :
    Markup.Closed (byte '<') (byte '>') piece.text ∧
      htmlTags piece.text = piece.tag?.toList.flatMap (Tag.expand fun e => [e.name]) := by
  cases piece with
  | tag t => simpa [Piece.text, Piece.tag?] using scan_html t
  | void s => simpa [Piece.text, Piece.tag?, Piece.Clean] using h
  | chars s => exact ⟨Markup.closed_text h, htmlTags_text h⟩

/-- The tags of a page are those that were written. -/
theorem tags_textOf {pieces : List Piece} (h : ∀ piece ∈ pieces, piece.Clean) :
    Markup.Closed (byte '<') (byte '>') (textOf pieces) ∧
      htmlTags (textOf pieces) = (tagsOf pieces).flatMap (Tag.expand fun e => [e.name]) := by
  induction pieces with
  | nil => exact ⟨rfl, rfl⟩
  | cons piece pieces ih =>
      obtain ⟨hclosed, htags⟩ := (h piece List.mem_cons_self).scan
      obtain ⟨hclosed', htags'⟩ := ih fun p hp => h p (List.mem_cons_of_mem _ hp)
      have htext : textOf (piece :: pieces) = piece.text ++ textOf pieces := List.flatMap_cons
      have htag : tagsOf (piece :: pieces) = piece.tag?.toList ++ tagsOf pieces := by
        rw [tagsOf, List.filterMap_cons]
        cases piece.tag? <;> rfl
      rw [htext, htag, htmlTags_append hclosed, htags, htags', List.flatMap_append]
      exact ⟨hclosed.append hclosed', rfl⟩

/-! ### Trees without HTML, links and images -/

/-- A text that brings no tag but a line break or a rule. -/
def TextHolder.Plain (text : Str) : TextHolder → Prop
  | .htmlTag => text = lit "br/" ∨ text = lit "hr/"
  | .blankLine => byte '<' ∉ text
  | .htmlAnchorTag => False
  | .inlineHtmlContents => False
  | .inlineHtmlComment => False
  | _ => True

instance TextHolder.decidablePlain (text : Str) : (holder : TextHolder) → Decidable (holder.Plain text)
  | .attribute => .isTrue trivial
  | .rawText _ => .isTrue trivial
  | .htmlTag => inferInstanceAs (Decidable (text = lit "br/" ∨ text = lit "hr/"))
  | .htmlAnchorTag => .isFalse id
  | .inlineHtmlContents => .isFalse id
  | .inlineHtmlComment => .isFalse id
  | .codeBlock => .isTrue trivial
  | .codeSpan => .isTrue trivial
  | .header _ => .isTrue trivial
  | .blankLine => inferInstanceAs (Decidable (byte '<' ∉ text))

mutual

/-- No tags but those of the containers, line breaks and rules. -/
def MarkdownToken.Plain : MarkdownToken → Prop
  | .text holder text => holder.Plain text
  | .escapedCharacter c => c ≠ byte '<'
  | .container _ subTokens => AllPlain subTokens
  | .marker _ => False
  | .image _ _ _ => False

def AllPlain : List MarkdownToken → Prop
  | [] => True
  | token :: tokens => token.Plain ∧ AllPlain tokens

end

mutual

instance MarkdownToken.decidablePlain : (token : MarkdownToken) → Decidable token.Plain
  | .text holder text => inferInstanceAs (Decidable (holder.Plain text))
  | .escapedCharacter c => inferInstanceAs (Decidable (c ≠ byte '<'))
  | .container _ subTokens => decidableAllPlain subTokens
  | .marker _ => .isFalse id
  | .image _ _ _ => .isFalse id

instance decidableAllPlain : (tokens : List MarkdownToken) → Decidable (AllPlain tokens)
  | [] => .isTrue trivial
  | token :: tokens =>
    match token.decidablePlain, decidableAllPlain tokens with
    | .isTrue h, .isTrue h' => .isTrue ⟨h, h'⟩
    | .isFalse h, _ => .isFalse fun hall => h hall.1
    | _, .isFalse h => .isFalse fun hall => h hall.2

end

theorem allPlain_iff {tokens : List MarkdownToken} : AllPlain tokens ↔ ∀ token ∈ tokens, token.Plain := by
  induction tokens with
  | nil => simp [AllPlain]
  | cons token tokens ih => simp [AllPlain, ih]

theorem encodeCharacter_lt {flags : EncodingFlags} (h : flags.angles = true) (c : UInt8) (s : Str) :
    byte '<' ∉ encodeCharacter flags c s := by
  unfold encodeCharacter
  split_ifs with hamp hfound hdouble hlt hgt hquote
  · intro hmem
    rw [List.mem_singleton] at hmem
    subst hmem
    exact absurd hamp (by simp [byte])
  · decide +kernel
  · decide +kernel
  · decide +kernel
  · decide +kernel
  · decide +kernel
  · intro hmem
    rw [List.mem_singleton] at hmem
    exact hlt (by simp [← hmem, h])

theorem encodeString_lt {flags : EncodingFlags} (h : flags.angles = true) (s : Str) :
    byte '<' ∉ encodeString flags s := by
  induction s with
  | nil => exact List.not_mem_nil
  | cons c s ih =>
      rw [encodeString, List.mem_append, not_or]
      exact ⟨encodeCharacter_lt h c s, ih⟩

theorem shown_lt {holder : TextHolder} {text : Str} (h : holder.Plain text) (hne : holder ≠ .htmlTag) :
    byte '<' ∉ if holder.encodingFlags = {} then text else encodeString holder.encodingFlags text := by
  cases holder with
  | htmlTag => exact absurd rfl hne
  | blankLine => exact h
  | htmlAnchorTag => exact h.elim
  | inlineHtmlContents => exact h.elim
  | inlineHtmlComment => exact h.elim
  | _ =>
      rw [if_neg (by simp [TextHolder.encodingFlags])]
      exact encodeString_lt rfl text

theorem spaces_lt (kind : ContainerClass) :
    byte '<' ∉ kind.spaces.1 ∧ byte '<' ∉ kind.spaces.2.1 ∧
      byte '<' ∉ kind.spaces.2.2.1 ∧ byte '<' ∉ kind.spaces.2.2.2 := by
  cases kind <;> decide +revert +kernel

/-- The tokens are written as text with nested tags. -/
structure WellWritten (tokens : List MarkdownToken) : Prop where
  sound : AllSound tokens
  clean : ∀ piece ∈ allPieces tokens, piece.Clean
  nested : Nested (tagsOf (allPieces tokens))

theorem tagsOf_opening (es : List Element) :
    tagsOf (es.map fun e => .tag (.opening e)) = es.map .opening := by
  simp [tagsOf, List.filterMap_map, Function.comp_def, Piece.tag?]

theorem tagsOf_closing (es : List Element) :
    tagsOf (es.map fun e => .tag (.closing e)) = es.map .closing := by
  simp [tagsOf, List.filterMap_map, Function.comp_def, Piece.tag?]

theorem tagsOf_chars (s : Str) : tagsOf [.chars s] = [] := rfl

section WellWritten

variable {tokens : List MarkdownToken}

theorem WellWritten.nil : WellWritten [] where
  sound := trivial
  clean _ h := by cases h
  nested := .nil

theorem allSound_iff {tokens : List MarkdownToken} : AllSound tokens ↔ ∀ token ∈ tokens, token.Sound := by
  induction tokens with
  | nil => simp [AllSound]
  | cons token tokens ih => simp [AllSound, ih]

theorem AllSound.append {first second : List MarkdownToken} (h : AllSound first) (h' : AllSound second) :
    AllSound (first ++ second) := by
  induction first with
  | nil => exact h'
  | cons token first ih => exact ⟨h.1, ih h.2⟩

theorem WellWritten.append {first second : List MarkdownToken} (h : WellWritten first)
    (h' : WellWritten second) : WellWritten (first ++ second) where
  sound := h.sound.append h'.sound
  clean piece hpiece := by
    rw [allPieces_append] at hpiece
    obtain hpiece | hpiece := List.mem_append.mp hpiece
    · exact h.clean piece hpiece
    · exact h'.clean piece hpiece
  nested := by
    rw [allPieces_append, tagsOf_append]
    exact h.nested.append h'.nested

/-- A container puts its tags around what is in it. -/
theorem WellWritten.container (h : WellWritten tokens) (kind : ContainerClass) :
    WellWritten [.container kind tokens] where
  sound := ⟨h.sound, trivial⟩
  clean piece hpiece := by
    have hspaces := spaces_lt kind
    simp only [allPieces, MarkdownToken.pieces, ContainerClass.pieces, List.append_nil, List.mem_append,
      List.mem_singleton, List.mem_map] at hpiece
    obtain (((((rfl | ⟨e, _, rfl⟩) | rfl) | hpiece) | rfl) | ⟨e, _, rfl⟩) | rfl := hpiece
    · exact hspaces.1
    · trivial
    · exact hspaces.2.1
    · exact h.clean piece hpiece
    · exact hspaces.2.2.1
    · trivial
    · exact hspaces.2.2.2
  nested := by
    have hwhole := h.nested.wrap .nil kind.elements
    rw [allPieces, allPieces, MarkdownToken.pieces, ContainerClass.pieces]
    simp only [tagsOf_append, tagsOf_opening, tagsOf_closing, tagsOf_chars, List.append_assoc,
      List.nil_append, List.append_nil] at hwhole ⊢
    exact hwhole

theorem WellWritten.text {holder : TextHolder} {text : Str} (h : holder.Plain text) :
    WellWritten [.text holder text] := by
  by_cases hne : holder = .htmlTag
  · subst hne
    have hvoid : Piece.Clean (.void (TextHolder.htmlTag.writeAsHtml text)) := by
      rw [Piece.Clean]
      obtain rfl | rfl := h
      · decide +kernel
      · decide +kernel
    have hpieces : allPieces [.text .htmlTag text] = [.void (TextHolder.htmlTag.writeAsHtml text)] := by
      rw [allPieces, allPieces, MarkdownToken.pieces, TextHolder.pieces, List.append_nil]
    refine ⟨⟨trivial, trivial⟩, fun piece hpiece => ?_, ?_⟩
    · rw [hpieces, List.mem_singleton] at hpiece
      rw [hpiece]
      exact hvoid
    · rw [hpieces]
      exact .nil
  · have hshown := shown_lt h hne
    have htrailer : byte '<' ∉ holder.trailer := by
      cases holder with
      | header level => exact (by decide +kernel : byte '<' ∉ lit "\n")
      | codeBlock => exact (by decide +kernel : byte '<' ∉ lit "\n\n")
      | _ => exact List.not_mem_nil
    have hpieces : allPieces [.text holder text] = holder.elements.map (fun e => Piece.tag (.opening e)) ++
        [Piece.chars (if holder.encodingFlags = {} then text
          else encodeString holder.encodingFlags text)] ++
        holder.elements.reverse.map (fun e => Piece.tag (.closing e)) ++
        [Piece.chars holder.trailer] := by
      rw [allPieces, allPieces, List.append_nil, MarkdownToken.pieces]
      cases holder with
      | htmlTag => exact absurd rfl hne
      | _ => rfl
    refine ⟨⟨trivial, trivial⟩, fun piece hpiece => ?_, ?_⟩
    · simp only [hpieces, List.mem_append, List.mem_singleton, List.mem_map] at hpiece
      obtain ((⟨e, _, rfl⟩ | rfl) | ⟨e, _, rfl⟩) | rfl := hpiece
      · trivial
      · exact hshown
      · trivial
      · exact htrailer
    · have hwhole := Nested.nil.wrap .nil holder.elements
      rw [hpieces]
      simp only [tagsOf_append, tagsOf_opening, tagsOf_closing, tagsOf_chars, List.nil_append,
        List.append_nil] at hwhole ⊢
      exact hwhole

mutual

theorem MarkdownToken.Plain.written : (token : MarkdownToken) → token.Plain → WellWritten [token]
  | .text _ _, h => .text h
  | .escapedCharacter c, h => by
      have hpieces : allPieces [.escapedCharacter c] = [.chars [c]] := by
        rw [allPieces, allPieces, MarkdownToken.pieces, List.append_nil]
      refine ⟨⟨trivial, trivial⟩, fun piece hpiece => ?_, ?_⟩
      · rw [hpieces, List.mem_singleton] at hpiece
        rw [hpiece, Piece.Clean, List.mem_singleton]
        exact Ne.symm h
      · rw [hpieces]
        exact .nil
  | .container kind subTokens, h => (AllPlain.written subTokens h).container kind
  | .marker _, h => h.elim
  | .image _ _ _, h => h.elim

theorem AllPlain.written : (tokens : List MarkdownToken) → AllPlain tokens → WellWritten tokens
  | [], _ => .nil
  | token :: tokens, h => (MarkdownToken.Plain.written token h.1).append (AllPlain.written tokens h.2)

end

end WellWritten

/-! ### The span pass -/

theorem escapedCharacter_lt {index : Nat} {c : UInt8} (h : escapedCharacter index = some c) :
    c ≠ byte '<' := by
  have hmem : c ∈ cEscapedCharacters ++ [0] := List.mem_of_getElem? h
  intro heq
  rw [heq] at hmem
  exact absurd hmem (by decide +kernel)

theorem allPlain_textTokens (pre : Str) : AllPlain (textTokens pre) := by
  rw [textTokens]
  by_cases h : pre = []
  · rw [if_pos h]
    trivial
  · rw [if_neg h]
    exact ⟨trivial, trivial⟩

section Items

variable {replacements : List MarkdownToken}

theorem replacedItem_plain (htable : AllPlain replacements) {ref : Str} {item : List MarkdownToken}
    (h : replacedItem replacements ref = .ok item) : AllPlain item := by
  rw [replacedItem] at h
  by_cases hescaped : ref.head? = some (byte '#')
  · rw [if_pos hescaped] at h
    cases hcast : castSize (ref.drop 1) with
    | error e => rw [hcast] at h; cases h
    | ok n =>
        rw [hcast] at h
        cases hchar : escapedCharacter n with
        | none => simp [hchar] at h
        | some c =>
            simp only [hchar] at h
            obtain rfl := Except.ok.inj h
            exact ⟨escapedCharacter_lt hchar, trivial⟩
  · rw [if_neg hescaped] at h
    by_cases hempty : ref ≠ []
    · rw [if_pos hempty] at h
      cases hcast : castSize ref with
      | error e => rw [hcast] at h; cases h
      | ok n =>
          rw [hcast] at h
          cases htoken : replacements[n]? with
          | none => simp [htoken] at h
          | some token =>
              simp only [htoken] at h
              obtain rfl := Except.ok.inj h
              exact ⟨allPlain_iff.mp htable token (List.mem_of_getElem? htoken), trivial⟩
    · rw [if_neg hempty] at h
      obtain rfl := Except.ok.inj h
      trivial

theorem allPlain_append {first second : List MarkdownToken} (h : AllPlain first) (h' : AllPlain second) :
    AllPlain (first ++ second) := by
  rw [allPlain_iff] at h h' ⊢
  intro token htoken
  obtain htoken | htoken := List.mem_append.mp htoken
  · exact h token htoken
  · exact h' token htoken

/-- A table without links gives tokens without links. -/
theorem encodeProcessedItems_plain (htable : AllPlain replacements) {src : Str}
    {tokens : List MarkdownToken} (h : encodeProcessedItems replacements src = .ok tokens) :
    AllPlain tokens := by
  induction src using encodeProcessedItems.induct replacements generalizing tokens with
  | case1 src hfind =>
      rw [encodeProcessedItems_none hfind] at h
      obtain rfl := Except.ok.inj h
      exact allPlain_textTokens src
  | case2 src pre ref after hfind e hitem =>
      rw [encodeProcessedItems_some hfind, hitem] at h
      cases h
  | case3 src pre ref after hfind item hitem ih =>
      rw [encodeProcessedItems_some hfind, hitem] at h
      obtain ⟨rest, hrest, rfl⟩ := exists_of_map_ok h
      have hfront := allPlain_append (allPlain_textTokens pre) (replacedItem_plain htable hitem)
      exact allPlain_append hfront (ih hrest)

/-- What takes the place of a token between the loops and the tree. -/
def SpanToken.place (replacements : List MarkdownToken) : SpanToken → List MarkdownToken
  | .rawText text => (encodeProcessedItems replacements text).toOption.getD []
  | .marker m => [.marker m]

/-- The tags of what takes the place of a token: of a marker, those that it stands for, and of a
text, tags that are nested. -/
theorem place_written (htable : AllPlain replacements) {token : SpanToken} (h : token.Sound) :
    AllSound (token.place replacements) ∧
      (∀ piece ∈ allPieces (token.place replacements), piece.Clean) ∧
      (tagsOf (allPieces (token.place replacements))
          = token.event.toList.flatMap (Tag.expand fun link => elements link.size) ∨
        (token.event.toList.flatMap (Tag.expand fun link => elements link.size) = [] ∧
          Nested (tagsOf (allPieces (token.place replacements))))) := by
  cases token with
  | rawText text =>
      have hwritten : WellWritten ((SpanToken.rawText text).place replacements) := by
        rw [SpanToken.place]
        cases hitems : encodeProcessedItems replacements text with
        | error e => exact .nil
        | ok items => exact AllPlain.written items (encodeProcessedItems_plain htable hitems)
      exact ⟨hwritten.sound, hwritten.clean, .inr ⟨rfl, hwritten.nested⟩⟩
  | marker m =>
      have hpieces : allPieces ((SpanToken.marker m).place replacements) = pieces id [.marker m] := by
        rw [SpanToken.place, allPieces, allPieces, MarkdownToken.pieces, pieces, List.flatMap_singleton,
          List.append_nil]
      rw [hpieces]
      refine ⟨⟨h, trivial⟩, fun piece hpiece => ?_, .inl ?_⟩
      · rw [pieces, List.flatMap_singleton, SpanToken.pieces] at hpiece
        cases hevent : (SpanToken.marker m).event with
        | some e =>
            rw [hevent] at hpiece
            obtain ⟨tag, _, rfl⟩ := List.mem_map.mp hpiece
            trivial
        | none =>
            rw [hevent] at hpiece
            obtain ⟨_, hpiece⟩ : m.disabled = false ∧ piece = .chars (List.replicate m.size m.tokenCharacter) := by
              simpa using hpiece
            rw [hpiece, Piece.Clean]
            intro hmem
            have hmark := h.2.1
            rw [← List.eq_of_mem_replicate hmem] at hmark
            exact absurd hmark (by decide)
      · rw [tagsOf, tags_pieces, events_cons]
        simp [events]

theorem placeTokens_rawText (text : Str) (tokens : List SpanToken) :
    placeTokens replacements (.rawText text :: tokens) = (encodeProcessedItems replacements text).bind
      fun items => (placeTokens replacements tokens).map (items ++ ·) := by
  rw [placeTokens]
  cases encodeProcessedItems replacements text with
  | error e => rfl
  | ok items => rfl

theorem placeTokens_eq {tokens : List SpanToken} {placed : List MarkdownToken}
    (h : placeTokens replacements tokens = .ok placed) :
    placed = tokens.flatMap (·.place replacements) := by
  induction tokens generalizing placed with
  | nil => exact (Except.ok.inj h).symm
  | cons token tokens ih =>
      rw [List.flatMap_cons]
      cases token with
      | rawText text =>
          rw [placeTokens_rawText] at h
          obtain ⟨items, hitems, hmap⟩ := exists_of_bind_ok h
          obtain ⟨rest, hrest, rfl⟩ := exists_of_map_ok hmap
          rw [← ih hrest, SpanToken.place, hitems]
          rfl
      | marker m =>
          rw [placeTokens] at h
          obtain ⟨rest, hrest, rfl⟩ := exists_of_map_ok h
          rw [← ih hrest]
          rfl

theorem placeTokens_written (htable : AllPlain replacements) {tokens : List SpanToken}
    (hsound : ∀ token ∈ tokens, token.Sound) (hnested : Nested (events tokens))
    {placed : List MarkdownToken} (h : placeTokens replacements tokens = .ok placed) :
    WellWritten placed := by
  obtain rfl := placeTokens_eq h
  have hpieces : allPieces (tokens.flatMap (·.place replacements))
      = tokens.flatMap fun token => allPieces (token.place replacements) := by
    clear h hsound hnested
    induction tokens with
    | nil => rfl
    | cons token tokens ih => rw [List.flatMap_cons, allPieces_append, ih, List.flatMap_cons]
  refine ⟨?_, fun piece hpiece => ?_, ?_⟩
  · rw [allSound_iff]
    intro token htoken
    obtain ⟨token', htoken', hplace⟩ := List.mem_flatMap.mp htoken
    exact allSound_iff.mp (place_written htable (hsound token' htoken')).1 token hplace
  · rw [hpieces] at hpiece
    obtain ⟨token', htoken', hplace⟩ := List.mem_flatMap.mp hpiece
    exact (place_written htable (hsound token' htoken')).2.1 piece hplace
  · rw [hpieces, tagsOf, List.filterMap_flatMap]
    have hplaces := fun token (htoken : token ∈ tokens) => (place_written htable (hsound token htoken)).2.2
    have htags := hnested.expand fun link => elements link.size
    rw [events, List.filterMap_eq_flatMap_toList, List.flatMap_assoc] at htags
    exact Nested.flatMap hplaces htags

end Items

mutual

/-- A tree before the span pass: no links, images and HTML, and none are found in its texts. -/
def MarkdownToken.Linkless (passes : TextPasses) : MarkdownToken → Prop
  | .text (.rawText true) text => AllPlain (passes.replaced text).2
  | .container _ subTokens => AllLinkless passes subTokens
  | token => token.Plain

def AllLinkless (passes : TextPasses) : List MarkdownToken → Prop
  | [] => True
  | token :: tokens => token.Linkless passes ∧ AllLinkless passes tokens

end

mutual

instance MarkdownToken.decidableLinkless (passes : TextPasses) :
    (token : MarkdownToken) → Decidable (token.Linkless passes)
  | .text (.rawText true) text => inferInstanceAs (Decidable (AllPlain (passes.replaced text).2))
  | .text (.rawText false) _ => .isTrue trivial
  | .text .attribute _ => .isTrue trivial
  | .text .htmlTag text => TextHolder.decidablePlain text .htmlTag
  | .text .htmlAnchorTag _ => .isFalse id
  | .text .inlineHtmlContents _ => .isFalse id
  | .text .inlineHtmlComment _ => .isFalse id
  | .text .codeBlock _ => .isTrue trivial
  | .text .codeSpan _ => .isTrue trivial
  | .text (.header _) _ => .isTrue trivial
  | .text .blankLine text => TextHolder.decidablePlain text .blankLine
  | .escapedCharacter c => inferInstanceAs (Decidable (c ≠ byte '<'))
  | .container _ subTokens => decidableAllLinkless passes subTokens
  | .marker _ => .isFalse id
  | .image _ _ _ => .isFalse id

instance decidableAllLinkless (passes : TextPasses) :
    (tokens : List MarkdownToken) → Decidable (AllLinkless passes tokens)
  | [] => .isTrue trivial
  | token :: tokens =>
    match token.decidableLinkless passes, decidableAllLinkless passes tokens with
    | .isTrue h, .isTrue h' => .isTrue ⟨h, h'⟩
    | .isFalse h, _ => .isFalse fun hall => h hall.1
    | _, .isFalse h => .isFalse fun hall => h hall.2

end

section Pass

variable {passes : TextPasses} {fuel : Nat}

theorem processText_written {text : Str} {tokens : List MarkdownToken}
    (htable : AllPlain (passes.replaced text).2) (h : processText passes fuel text = some (.ok tokens)) :
    WellWritten tokens := by
  obtain ⟨result, hrun, hplace⟩ := Option.map_eq_some_iff.mp h
  obtain ⟨spanTokens, rfl, hsound, _, hnested⟩ := processBoldAndItalicSpans_spec hrun
  exact placeTokens_written htable hsound hnested hplace

theorem appendResults_eq {first second : Option (Except SpanFault (List MarkdownToken))}
    {tokens : List MarkdownToken} (h : appendResults first second = some (.ok tokens)) :
    ∃ front back, first = some (.ok front) ∧ second = some (.ok back) ∧ tokens = front ++ back := by
  cases first with
  | none => cases h
  | some result =>
      cases result with
      | error e => cases h
      | ok front =>
          obtain ⟨result, hsecond, hmap⟩ := Option.map_eq_some_iff.mp h
          obtain ⟨back, rfl, htokens⟩ := exists_of_map_ok hmap
          exact ⟨front, back, rfl, hsecond, htokens⟩

/-- What is got from a result by a function of the tokens. -/
theorem map_eq_ok {result : Option (Except SpanFault (List MarkdownToken))}
    {f : List MarkdownToken → List MarkdownToken} {tokens : List MarkdownToken}
    (h : (result.map fun r => r.map f) = some (.ok tokens)) :
    ∃ before, result = some (.ok before) ∧ tokens = f before := by
  obtain ⟨r, hresult, hmap⟩ := Option.map_eq_some_iff.mp h
  obtain ⟨before, rfl, htokens⟩ := exists_of_map_ok hmap
  exact ⟨before, hresult, htokens⟩

mutual

theorem MarkdownToken.Linkless.written : (token : MarkdownToken) → token.Linkless passes →
    ∀ {tokens}, token.processSpans passes fuel = some (.ok tokens) → WellWritten tokens
  | .text holder text, hlinkless, tokens, h => by
      by_cases hraw : holder = .rawText true
      · subst hraw
        obtain ⟨subt, hsubt, rfl⟩ := map_eq_ok h
        have hwritten := processText_written hlinkless hsubt
        by_cases hmore : 1 < subt.length
        · rw [if_pos hmore]
          exact hwritten.container .container
        · rw [if_neg hmore]
          exact hwritten
      · obtain rfl : tokens = [.text holder text] := by
          cases holder with
          | rawText canContainMarkup =>
              cases canContainMarkup with
              | true => exact absurd rfl hraw
              | false => exact (Except.ok.inj (Option.some.inj h)).symm
          | _ => exact (Except.ok.inj (Option.some.inj h)).symm
        apply WellWritten.text
        cases holder with
        | rawText canContainMarkup => trivial
        | _ => exact hlinkless
  | .escapedCharacter c, hlinkless, tokens, h => by
      obtain rfl := Except.ok.inj (Option.some.inj h)
      exact MarkdownToken.Plain.written _ hlinkless
  | .container kind subTokens, hlinkless, tokens, h => by
      obtain ⟨subTokens', hsub, rfl⟩ := map_eq_ok h
      exact (AllLinkless.written subTokens hlinkless hsub).container kind
  | .marker _, hlinkless, _, _ => hlinkless.elim
  | .image _ _ _, hlinkless, _, _ => hlinkless.elim

theorem AllLinkless.written : (tokens : List MarkdownToken) → AllLinkless passes tokens →
    ∀ {result}, processAllSpans passes fuel tokens = some (.ok result) → WellWritten result
  | [], _, result, h => by
      obtain rfl := Except.ok.inj (Option.some.inj h)
      exact .nil
  | token :: tokens, hlinkless, result, h => by
      obtain ⟨front, back, hfront, hback, rfl⟩ := appendResults_eq h
      exact (MarkdownToken.Linkless.written token hlinkless.1 hfront).append
        (AllLinkless.written tokens hlinkless.2 hback)

end

end Pass

/-! ### The page -/

/-- **The tags of a page are properly nested**, whatever its text is and whatever lists, quotes,
headers and code the block passes find, if they find no HTML and the texts have no links. -/
theorem markdown_nested {passes : MarkdownPasses} {fuel : Nat} {src html : Str}
    (hlinkless : (markdownTree passes src).Linkless passes.toTextPasses)
    (h : convertMarkdown passes fuel src = some (.ok html)) : WellNested html := by
  obtain ⟨result, hspans, hresult⟩ := Option.map_eq_some_iff.mp h
  obtain ⟨tokens, rfl, hwrite⟩ := exists_of_bind_ok hresult
  have hwritten := MarkdownToken.Linkless.written _ hlinkless hspans
  rw [writeAllAsHtml_eq tokens hwritten.sound] at hwrite
  obtain rfl := Except.ok.inj hwrite
  obtain ⟨hclosed, htags⟩ := tags_textOf hwritten.clean
  refine ⟨hclosed, ?_⟩
  rw [htags]
  exact hwritten.nested.expand _

/-- A page of paragraphs that have no code and no links. -/
def plainPasses : MarkdownPasses where
  processCode text := (text, [])
  processLinks text replacements := (text, replacements)
  blocks tokens := tokens

theorem markdown_nested_example :
    convertMarkdown plainPasses 30 (lit "a **b *c*** & d\ne  \nf") = some (.ok
        (lit "<p>a <strong>b <em>c</em></strong> &amp; d e</p>\n\n<br/><p>f</p>\n\n")) ∧
      WellNested (lit "<p>a <strong>b <em>c</em></strong> &amp; d e</p>\n\n<br/><p>f</p>\n\n") := by
  have hruns : convertMarkdown plainPasses 30 (lit "a **b *c*** & d\ne  \nf") = some (.ok
      (lit "<p>a <strong>b <em>c</em></strong> &amp; d e</p>\n\n<br/><p>f</p>\n\n")) := by decide +kernel
  exact ⟨hruns, markdown_nested (by decide +kernel) hruns⟩

end JustEnough
