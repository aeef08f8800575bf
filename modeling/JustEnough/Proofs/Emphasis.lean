/-
Bold and italic text comes out properly nested.

The first loop pairs the markers, and pairs may cross.  The second loop is the general pass
over crossing pairs, with pointers for labels (`unmatchFrom_spec`): a pointer on the stack
finds the object it was made for, the stack is not empty when its top is looked at, and what
the loop takes back is what the pass drops.  So the tags that are written are nested
(`emphasis_nested`), and no loop loses a character.
-/
import JustEnough.Proofs.Markers

namespace JustEnough

/-! ### The second loop -/

/-- The token without its match. -/
def SpanToken.unmatch : SpanToken → SpanToken
  | .rawText text => .rawText text
  | .marker m => .marker (m.matched none (-1))

/-- The token after some matches were taken back. -/
def SpanToken.without (dropped : List Link) (token : SpanToken) : SpanToken :=
  match token.event with
  | none => token
  | some e => if e.label ∈ dropped then token.unmatch else token

/-- What the second loop comes to: distinct objects, and a number for each pair. -/
structure Linked (tokens : List SpanToken) : Prop where
  nodup : (addresses tokens).Nodup
  paired : Paired (events tokens)
  numbers : ∀ e ∈ events tokens, ∀ e' ∈ events tokens, e.label.id = e'.label.id → e.label = e'.label

theorem Linked.of_numbered {tokens : List SpanToken} (hnodup : (addresses tokens).Nodup)
    (h : ∀ k, numbered k (events tokens) = [] ∨
      ∃ link, numbered k (events tokens) = [.opening link, .closing link]) : Linked tokens where
  nodup := hnodup
  paired t := by
    have hlabel : (events tokens).filter (·.label = t)
        = (numbered t.id (events tokens)).filter (·.label = t) := by
      rw [numbered, List.filter_filter]
      apply List.filter_congr
      intro e _
      by_cases heq : e.label = t
      · simp [heq]
      · simp [heq]
    rw [hlabel]
    obtain hnone | ⟨link, hpair⟩ := h t.id
    · exact .inl (by rw [hnone]; rfl)
    · by_cases heq : link = t
      · refine .inr ?_
        rw [hpair, heq]
        simp [Tag.label]
      · refine .inl ?_
        rw [hpair]
        simp [Tag.label, heq]
  numbers e he e' he' hid := by
    have hmem : e ∈ numbered e'.label.id (events tokens) := List.mem_filter.mpr ⟨he, decide_eq_true hid⟩
    have hmem' : e' ∈ numbered e'.label.id (events tokens) :=
      List.mem_filter.mpr ⟨he', decide_eq_true rfl⟩
    obtain hnone | ⟨link, hpair⟩ := h e'.label.id
    · rw [hnone] at hmem
      cases hmem
    · have hlabel : ∀ tag ∈ numbered e'.label.id (events tokens), tag.label = link := by
        intro tag htag
        rw [hpair] at htag
        obtain rfl | rfl : tag = .opening link ∨ tag = .closing link := by simpa using htag
        · rfl
        · rfl
      rw [hlabel e hmem, hlabel e' hmem']

@[simp] theorem SpanToken.address_without (dropped : List Link) (token : SpanToken) :
    (token.without dropped).address = token.address := by
  rw [SpanToken.without]
  cases token.event with
  | none => rfl
  | some e =>
      by_cases h : e.label ∈ dropped
      · simp only [if_pos h]
        cases token with
        | rawText text => rfl
        | marker m => rfl
      · simp only [if_neg h]

theorem addresses_without (dropped : List Link) (tokens : List SpanToken) :
    addresses (tokens.map (·.without dropped)) = addresses tokens := by
  rw [addresses, addresses, List.filterMap_map]
  congr 1
  funext token
  exact token.address_without dropped

/-- A pointer finds its object. -/
theorem markerAt_eq {tokens : List SpanToken} {m : BoldOrItalicMarker} (hnodup : (addresses tokens).Nodup)
    (hmem : .marker m ∈ tokens) : markerAt tokens m.address = .ok m := by
  induction tokens with
  | nil => cases hmem
  | cons token tokens ih =>
      rw [addresses_cons] at hnodup
      cases token with
      | rawText text =>
          have hmem : .marker m ∈ tokens := by simpa using hmem
          exact ih hnodup hmem
      | marker m' =>
          rw [markerAt]
          obtain heq | hmem := List.mem_cons.mp hmem
          · obtain rfl : m = m' := SpanToken.marker.inj heq
            exact if_pos rfl
          · have hne : m'.address ≠ m.address := by
              intro heq
              have hin : m.address ∈ addresses tokens := List.mem_filterMap.mpr ⟨_, hmem, rfl⟩
              exact List.disjoint_of_nodup_append hnodup (by simp [SpanToken.address, heq]) hin
            rw [if_neg hne]
            exact ih hnodup.of_append_right hmem

/-- Objects at one address are one object. -/
theorem Linked.eq_of_address {tokens : List SpanToken} {m m' : BoldOrItalicMarker} (h : Linked tokens)
    (hmem : .marker m ∈ tokens) (hmem' : .marker m' ∈ tokens) (heq : m.address = m'.address) : m = m' := by
  have hat := markerAt_eq h.nodup hmem
  rw [heq, markerAt_eq h.nodup hmem'] at hat
  exact (Except.ok.inj hat).symm

/-- An opening tag is an open-marker, at the address of the pair. -/
theorem event_opening {token : SpanToken} {t : Link} (h : token.event = some (.opening t)) :
    ∃ m, token = .marker m ∧ m.openMarker = true ∧ m.matchedTo.isSome ∧ m.id = t.id ∧ m.address = t.address := by
  cases token with
  | rawText text => cases h
  | marker m =>
      obtain ⟨mate, hmate, heq⟩ := Option.map_eq_some_iff.mp h
      by_cases hopen : m.openMarker = true
      · rw [if_pos hopen] at heq
        obtain rfl := Tag.opening.inj heq
        exact ⟨m, rfl, hopen, by rw [hmate]; rfl, rfl, rfl⟩
      · rw [if_neg hopen] at heq
        cases heq

/-- A closing tag is a close-marker that points to that address. -/
theorem event_closing {token : SpanToken} {t : Link} (h : token.event = some (.closing t)) :
    ∃ m, token = .marker m ∧ m.openMarker = false ∧ m.matchedTo = some t.address ∧ m.id = t.id := by
  cases token with
  | rawText text => cases h
  | marker m =>
      obtain ⟨mate, hmate, heq⟩ := Option.map_eq_some_iff.mp h
      by_cases hopen : m.openMarker = true
      · rw [if_pos hopen] at heq
        cases heq
      · rw [if_neg hopen] at heq
        obtain rfl := Tag.closing.inj heq
        exact ⟨m, rfl, Bool.eq_false_iff.mpr hopen, hmate, rfl⟩

section Unmatch

variable {tokens done rest : List SpanToken} {dropped stack : List Link} {t : Link}

theorem events_append (first second : List SpanToken) :
    events (first ++ second) = events first ++ events second :=
  List.filterMap_append ..

theorem without_of_not_mem {token : SpanToken} {e : Tag Link} (he : token.event = some e)
    (h : e.label ∉ dropped) : token.without dropped = token := by
  rw [SpanToken.without, he]
  exact if_neg h

theorem without_of_mem {token : SpanToken} {e : Tag Link} (he : token.event = some e)
    (h : e.label ∈ dropped) : token.without dropped = token.unmatch := by
  rw [SpanToken.without, he]
  exact if_pos h

/-- What the pointer of a pair points to now. -/
theorem Linked.markerAt (h : Linked tokens) (hopening : .opening t ∈ events tokens) (dropped : List Link) :
    ∃ m, markerAt (tokens.map (·.without dropped)) t.address = .ok m ∧
      (t ∈ dropped → m.matchedTo = none) ∧ (t ∉ dropped → m.matchedTo.isSome ∧ m.id = t.id) := by
  obtain ⟨token, hmem, hevent⟩ := List.mem_filterMap.mp hopening
  obtain ⟨m, rfl, _, hmatched, hid, haddress⟩ := event_opening hevent
  have hnodup : (addresses (tokens.map (·.without dropped))).Nodup := by
    rw [addresses_without]
    exact h.nodup
  have hmem' : (SpanToken.marker m).without dropped ∈ tokens.map (·.without dropped) :=
    List.mem_map_of_mem hmem
  by_cases hin : t ∈ dropped
  · rw [without_of_mem hevent hin] at hmem'
    refine ⟨m.matched none (-1), ?_, fun _ => rfl, fun hout => absurd hin hout⟩
    rw [← haddress]
    exact markerAt_eq hnodup hmem'
  · rw [without_of_not_mem hevent hin] at hmem'
    refine ⟨m, ?_, fun h => absurd h hin, fun _ => ⟨hmatched, hid⟩⟩
    rw [← haddress]
    exact markerAt_eq hnodup hmem'

/-- The pointers that are popped are those to the pairs that were left out. -/
theorem Linked.popUnmatched (h : Linked tokens) (hopened : ∀ t ∈ stack, .opening t ∈ events tokens) :
    popUnmatched (tokens.map (·.without dropped)) (stack.map (·.address))
      = .ok ((stack.dropWhile (· ∈ dropped)).map (·.address)) := by
  induction stack with
  | nil => rfl
  | cons t stack ih =>
      obtain ⟨m, hat, hin, hout⟩ := h.markerAt (hopened t List.mem_cons_self) dropped
      rw [List.map_cons, JustEnough.popUnmatched, hat]
      by_cases ht : t ∈ dropped
      · have hdrop : (t :: stack).dropWhile (· ∈ dropped) = stack.dropWhile (· ∈ dropped) := by simp [ht]
        rw [hdrop]
        simp only [hin ht, Option.isNone_none, if_true]
        exact ih fun u hu => hopened u (List.mem_cons_of_mem _ hu)
      · have hdrop : (t :: stack).dropWhile (· ∈ dropped) = t :: stack := by simp [ht]
        rw [hdrop]
        have hsome : m.matchedTo.isNone = false := by
          rw [Option.isNone_eq_false_iff]
          exact (hout ht).1
        simp [hsome]

theorem without_marker (dropped : List Link) (m : BoldOrItalicMarker) :
    ∃ m', (SpanToken.marker m).without dropped = .marker m' ∧ m'.address = m.address ∧
      m'.matched none (-1) = m.matched none (-1) := by
  rw [SpanToken.without]
  cases (SpanToken.marker m).event with
  | none => exact ⟨m, rfl, rfl, rfl⟩
  | some e =>
      by_cases h : e.label ∈ dropped
      · exact ⟨m.matched none (-1), if_pos h, rfl, rfl⟩
      · exact ⟨m, if_neg h, rfl, rfl⟩

/-- One more pair is left out, and the token is not of that pair. -/
theorem without_cons {token : SpanToken} (h : ∀ e ∈ token.event, e.label ≠ t) :
    token.without (t :: dropped) = token.without dropped := by
  rw [SpanToken.without, SpanToken.without]
  cases hevent : token.event with
  | none => rfl
  | some e =>
      have hne := h e hevent
      simp [hne]

/-- Both ends of a pair are unmatched: the pair is left out. -/
theorem Linked.unmatchAt {m : BoldOrItalicMarker} (h : Linked (done ++ .marker m :: rest))
    (hevent : (SpanToken.marker m).event = some (.closing t)) :
    unmatchAt (unmatchAt ((done ++ .marker m :: rest).map (·.without dropped)) t.address) m.address
      = (done ++ .marker m :: rest).map (·.without (t :: dropped)) := by
  have hevents : events (done ++ .marker m :: rest) = events done ++ .closing t :: events rest := by
    rw [events_append, events_cons, hevent]
    rfl
  have hpaired := h.paired
  rw [hevents] at hpaired
  obtain ⟨hopening, hclosing⟩ := hpaired.before_closing
  have hafter := hpaired.after_closing
  obtain ⟨opened, hopened, heventO⟩ := List.mem_filterMap.mp hopening
  obtain ⟨o, rfl, _, _, _, haddress⟩ := event_opening heventO
  rw [JustEnough.unmatchAt, JustEnough.unmatchAt, List.map_map, List.map_map]
  apply List.map_congr_left
  intro token htoken
  cases token with
  | rawText text => rfl
  | marker m' =>
      obtain ⟨m'', hwithout, haddress', hmatched⟩ := without_marker dropped m'
      simp only [Function.comp_apply, hwithout, haddress']
      by_cases hopen : m'.address = t.address
      · -- The open-marker of the pair.
        obtain rfl : m' = o := h.eq_of_address htoken (List.mem_append_left _ hopened) (hopen.trans haddress.symm)
        have hright : (SpanToken.marker m').without (t :: dropped) = .marker (m'.matched none (-1)) :=
          without_of_mem heventO (show t ∈ t :: dropped from List.mem_cons_self)
        rw [hright, if_pos hopen, hmatched]
        by_cases hclose : m'.address = m.address
        · exact congrArg SpanToken.marker (if_pos hclose)
        · exact congrArg SpanToken.marker (if_neg hclose)
      · rw [if_neg hopen, haddress']
        by_cases hclose : m'.address = m.address
        · -- The close-marker.
          obtain rfl : m' = m := h.eq_of_address htoken (by simp) hclose
          have hright : (SpanToken.marker m').without (t :: dropped) = .marker (m'.matched none (-1)) :=
            without_of_mem hevent (show t ∈ t :: dropped from List.mem_cons_self)
          rw [hright, if_pos rfl, hmatched]
        · rw [if_neg hclose, ← hwithout, without_cons]
          intro e he hlabel
          cases e with
          | opening u =>
              obtain ⟨o', heq, _, _, _, hu⟩ := event_opening he
              obtain rfl := SpanToken.marker.inj heq
              obtain rfl : u = t := hlabel
              exact hopen hu
          | closing u =>
              obtain rfl : u = t := hlabel
              obtain hmem | heq | hmem : .marker m' ∈ done ∨ m' = m ∨ .marker m' ∈ rest := by
                simpa using htoken
              · exact hclosing (List.mem_filterMap.mpr ⟨_, hmem, he⟩)
              · exact hclose (by rw [heq])
              · exact hafter (List.mem_filterMap.mpr ⟨_, hmem, he⟩)

/-- At a close-marker the loop does what the pass does at the closing tag. -/
theorem Linked.closeMatch {m : BoldOrItalicMarker} {st : Crossings Link} (h : Linked (done ++ .marker m :: rest))
    (hevent : (SpanToken.marker m).event = some (.closing t))
    (hcross : Uncrossing (events done) ⟨stack, dropped⟩)
    (hstep : uncross ⟨stack, dropped⟩ (.closing t) = some st) :
    closeMatch ((done ++ .marker m :: rest).map (·.without dropped)) (stack.map (·.address)) m
      = .ok ((done ++ .marker m :: rest).map (·.without st.dropped), st.stack.map (·.address)) := by
  have hdone : ∀ e ∈ events done, e ∈ events (done ++ .marker m :: rest) := by
    intro e he
    rw [events_append]
    exact List.mem_append_left _ he
  have hhere : .closing t ∈ events (done ++ .marker m :: rest) := by
    rw [events_append, events_cons, hevent]
    simp
  have hpaired := h.paired
  rw [events_append, events_cons, hevent] at hpaired
  obtain ⟨hopening, _⟩ := hpaired.before_closing
  obtain ⟨m', heq, _, hmate, hid⟩ := event_closing hevent
  obtain rfl := SpanToken.marker.inj heq
  cases stack with
  | nil => cases hstep
  | cons top stack =>
      have htop : .opening top ∈ events (done ++ .marker m :: rest) :=
        hdone _ (hcross.opened top List.mem_cons_self)
      obtain ⟨o, hat, _, hout⟩ := h.markerAt htop dropped
      have ho : o.id = top.id := (hout (hcross.top top rfl)).2
      rw [List.map_cons, JustEnough.closeMatch, hat]
      by_cases heq : t = top
      · rw [uncross, if_pos heq] at hstep
        obtain rfl := Option.some.inj hstep
        have hids : ¬m.id ≠ o.id := by rw [ho, hid, heq]; simp
        have hbelow : JustEnough.popUnmatched ((done ++ .marker m :: rest).map (·.without dropped))
            (stack.map (·.address)) = .ok ((stack.dropWhile (· ∈ dropped)).map (·.address)) :=
          h.popUnmatched fun u hu => hdone _ (hcross.opened u (List.mem_cons_of_mem _ hu))
        simp only [if_neg hids, hbelow]
        rfl
      · rw [uncross, if_neg heq] at hstep
        obtain rfl := Option.some.inj hstep
        have hids : m.id ≠ o.id := by
          intro hids
          have hnumber : t.id = top.id := by rw [← ho, ← hids, hid]
          exact heq (h.numbers _ hhere _ htop hnumber)
        obtain ⟨o', hat', _⟩ := h.markerAt (hdone _ hopening) dropped
        simp only [if_pos hids, hmate, hat', h.unmatchAt hevent]
        rfl

/-- **The second loop is the pass over the tags.** -/
theorem unmatchFrom_spec {st : Crossings Link} (h : Linked (done ++ rest))
    (hcross : Uncrossing (events done) st) :
    ∃ st', Uncrossing (events (done ++ rest)) st' ∧
      unmatchFrom rest.length done.length ((done ++ rest).map (·.without st.dropped))
        (st.stack.map (·.address)) = .ok ((done ++ rest).map (·.without st'.dropped)) := by
  induction rest generalizing done st with
  | nil => exact ⟨st, by rwa [List.append_nil], rfl⟩
  | cons token rest ih =>
      have hshift : done ++ token :: rest = done ++ [token] ++ rest := by simp
      have hnext := fun st' => @ih (done ++ [token]) st' (by rwa [← hshift])
      rw [← hshift, List.length_append, List.length_singleton] at hnext
      have hat : ((done ++ token :: rest).map (·.without st.dropped))[done.length]?
          = some (token.without st.dropped) := by simp
      have hpaired := h.paired
      rw [events_append, events_cons] at hpaired
      rw [List.length_cons, unmatchFrom, hat]
      cases hevent : token.event with
      | none =>
          have hsame : events (done ++ [token]) = events done := by simp [hevent, events]
          have hwithout : token.without st.dropped = token := by rw [SpanToken.without, hevent]
          rw [hwithout]
          have hrun := hnext st (by rwa [hsame])
          cases token with
          | rawText text => exact hrun
          | marker m =>
              have hmatched : m.matchedTo = none := by
                simpa [SpanToken.event] using hevent
              simpa [BoldOrItalicMarker.isMatchedOpenMarker, BoldOrItalicMarker.isMatchedCloseMarker,
                hmatched] using hrun
      | some e =>
          rw [hevent] at hpaired
          have hsame : events (done ++ [token]) = events done ++ [e] := by
            simp [hevent, events]
          obtain ⟨st', hstep, hcross'⟩ := hcross.step hpaired
          have hrun := hnext st' (by rwa [hsame])
          obtain ⟨stack, dropped⟩ := st
          cases e with
          | opening t =>
              have hout : t ∉ dropped :=
                fun hin => hpaired.before_opening.2 (hcross.closed t hin)
              obtain ⟨m, rfl, hside, hmatched, _, haddress⟩ := event_opening hevent
              obtain rfl := Option.some.inj hstep
              rw [without_of_not_mem hevent hout]
              simpa [BoldOrItalicMarker.isMatchedOpenMarker, hside, hmatched, haddress] using hrun
          | closing t =>
              have hout : t ∉ dropped :=
                fun hin => hpaired.before_closing.2 (hcross.closed t hin)
              obtain ⟨m, rfl, hside, hmatched, _⟩ := event_closing hevent
              have hopen : m.isMatchedOpenMarker = false := by
                simp [BoldOrItalicMarker.isMatchedOpenMarker, hside]
              have hclose : m.isMatchedCloseMarker = true := by
                simp [BoldOrItalicMarker.isMatchedCloseMarker, hside, hmatched]
              rw [without_of_not_mem hevent hout]
              simp only [hopen, hclose, Bool.false_eq_true, if_false, if_true,
                h.closeMatch hevent hcross hstep]
              exact hrun

end Unmatch

/-! ### What is written -/

/-- The elements that a page is made of. -/
inductive Element
  | em
  | strong
  | p
  | ul
  | ol
  | li
  | blockquote
  | pre
  | code
  | header (level : Nat)
  deriving DecidableEq, Repr

def Element.name : Element → Str
  | .em => lit "em"
  | .strong => lit "strong"
  | .p => lit "p"
  | .ul => lit "ul"
  | .ol => lit "ol"
  | .li => lit "li"
  | .blockquote => lit "blockquote"
  | .pre => lit "pre"
  | .code => lit "code"
  | .header level => lit "h" ++ decimal level

def Element.html : Tag Element → Str
  | .opening e => lit "<" ++ e.name ++ lit ">"
  | .closing e => lit "</" ++ e.name ++ lit ">"

/-- What a pair of markers of a size stands for, from the outside in. -/
def elements (size : Nat) : List Element :=
  if size = 1 then [.em] else if size = 2 then [.strong] else [.strong, .em]

/-- A part of a page: a tag of a pair, a tag that stands alone, or text. -/
inductive Piece
  | tag (t : Tag Element)
  | void (s : Str)
  | chars (s : Str)

def Piece.text : Piece → Str
  | .tag t => Element.html t
  | .void s => s
  | .chars s => s

def Piece.tag? : Piece → Option (Tag Element)
  | .tag t => some t
  | _ => none

/-- What a token is written as, tags and other text apart. -/
def SpanToken.pieces (writeText : Str → Str) : SpanToken → List Piece
  | .rawText text => [.chars (writeText text)]
  | .marker m =>
    match (SpanToken.marker m).event with
    | some e => (e.expand fun link => elements link.size).map .tag
    | none => if m.disabled then [] else [.chars (List.replicate m.size m.tokenCharacter)]

def pieces (writeText : Str → Str) (tokens : List SpanToken) : List Piece :=
  tokens.flatMap (·.pieces writeText)

def Span.source : Span → Str
  | .text s => s
  | .mark m => List.replicate m.size m.tokenCharacter

section Write

variable {writeText : Str → Str} {tokens : List SpanToken} {token : SpanToken}

theorem writeAsHtml_eq {m : BoldOrItalicMarker} (h : (SpanToken.marker m).Sound) :
    m.writeAsHtml = .ok (((SpanToken.marker m).pieces writeText).flatMap Piece.text) := by
  obtain ⟨hsize, _, hdisabled⟩ := h
  rw [BoldOrItalicMarker.writeAsHtml, SpanToken.pieces, SpanToken.event]
  cases hmatched : m.matchedTo with
  | none =>
      by_cases hd : m.disabled = true
      · simp [hd]
      · simp [hd, Piece.text]
  | some mate =>
      have hd : m.disabled = false := by
        apply Bool.eq_false_iff.mpr
        intro hd
        rw [(hdisabled hd).2] at hmatched
        cases hmatched
      have hsized : ¬(m.size < 1 ∨ 3 < m.size) := by omega
      obtain h1 | h2 | h3 : m.size = 1 ∨ m.size = 2 ∨ m.size = 3 := by omega
      · cases hopen : m.openMarker <;>
          simp [hd, h1, Tag.expand, elements, Piece.text, Element.html, Element.name] <;> rfl
      · cases hopen : m.openMarker <;>
          simp [hd, h2, Tag.expand, elements, Piece.text, Element.html, Element.name] <;> rfl
      · cases hopen : m.openMarker <;>
          simp [hd, h3, Tag.expand, elements, Piece.text, Element.html, Element.name] <;> rfl

/-- No assertion fails, and every token is written as its pieces. -/
theorem writeTokens_eq (h : ∀ token ∈ tokens, token.Sound) :
    writeTokens writeText tokens = .ok ((pieces writeText tokens).flatMap Piece.text) := by
  induction tokens with
  | nil => rfl
  | cons token tokens ih =>
      have hrest := ih fun token' htoken' => h token' (List.mem_cons_of_mem _ htoken')
      rw [pieces, List.flatMap_cons, List.flatMap_append, ← pieces]
      cases token with
      | rawText text =>
          rw [writeTokens, hrest]
          simp [SpanToken.pieces, Piece.text]
          rfl
      | marker m =>
          rw [writeTokens, @writeAsHtml_eq writeText m (h _ List.mem_cons_self), hrest]
          rfl

theorem tags_pieces (writeText : Str → Str) (tokens : List SpanToken) :
    (pieces writeText tokens).filterMap Piece.tag?
      = (events tokens).flatMap (Tag.expand fun link => elements link.size) := by
  induction tokens with
  | nil => rfl
  | cons token tokens ih =>
      rw [pieces, List.flatMap_cons, List.filterMap_append, ← pieces, ih, events_cons,
        List.flatMap_append]
      congr 1
      cases token with
      | rawText text => rfl
      | marker m =>
          rw [SpanToken.pieces]
          cases hevent : (SpanToken.marker m).event with
          | none => by_cases hd : m.disabled = true <;> simp [hd, Piece.tag?]
          | some e => simp [List.filterMap_map, Function.comp_def, Piece.tag?]

/-! ### What taking back a match keeps -/

theorem source_unmatch (token : SpanToken) : token.unmatch.source = token.source := by
  cases token with
  | rawText text => rfl
  | marker m => rfl

theorem SpanToken.Sound.unmatch (h : token.Sound) : token.unmatch.Sound := by
  cases token with
  | rawText text => trivial
  | marker m => exact ⟨h.1, h.2.1, fun hdisabled => ⟨(h.2.2 hdisabled).1, rfl⟩⟩

theorem without_eq_or (dropped : List Link) (token : SpanToken) :
    token.without dropped = token ∨ token.without dropped = token.unmatch := by
  rw [SpanToken.without]
  cases token.event with
  | none => exact .inl rfl
  | some e =>
      by_cases h : e.label ∈ dropped
      · exact .inr (if_pos h)
      · exact .inl (if_neg h)

theorem sourceText_without (dropped : List Link) (tokens : List SpanToken) :
    sourceText (tokens.map (·.without dropped)) = sourceText tokens := by
  rw [sourceText, sourceText, List.flatMap_map]
  congr 1
  funext token
  obtain h | h := without_eq_or dropped token
  · rw [h]
  · rw [h, source_unmatch]

theorem event_unmatch (token : SpanToken) : token.unmatch.event = none := by
  cases token with
  | rawText text => rfl
  | marker m => rfl

theorem events_without (dropped : List Link) (tokens : List SpanToken) :
    events (tokens.map (·.without dropped)) = (events tokens).filter (·.label ∉ dropped) := by
  induction tokens with
  | nil => rfl
  | cons token tokens ih =>
      rw [List.map_cons, events_cons, events_cons, List.filter_append, ih]
      congr 1
      cases hevent : token.event with
      | none =>
          rw [SpanToken.without, hevent]
          simp [hevent]
      | some e =>
          by_cases h : e.label ∈ dropped
          · rw [without_of_mem hevent h, event_unmatch]
            simp [h]
          · rw [without_of_not_mem hevent h, hevent]
            simp [h]

end Write

/-! ### From the spans to the text -/

/-- The tokens are new markers, in the order of their addresses. -/
theorem spanTokens_spec (spans : List Span) (next : Nat) :
    Tidy (spanTokens spans next).1 (spanTokens spans next).2 ∧
      (∀ a ∈ addresses (spanTokens spans next).1, next ≤ a) ∧ next ≤ (spanTokens spans next).2 ∧
      events (spanTokens spans next).1 = [] ∧
      sourceText (spanTokens spans next).1 = spans.flatMap Span.source := by
  induction spans generalizing next with
  | nil =>
      refine ⟨⟨?_, List.nodup_nil, ?_⟩, ?_, le_rfl, rfl, rfl⟩
      · intro token htoken
        cases htoken
      · intro a ha
        cases ha
      · intro a ha
        cases ha
  | cons span spans ih =>
      cases span with
      | text text =>
          obtain ⟨htidy, hfrom, hgrows, hevents, hsource⟩ := ih next
          refine ⟨⟨?_, htidy.nodup, htidy.below⟩, hfrom, hgrows, hevents, ?_⟩
          · intro token htoken
            obtain rfl | htoken := List.mem_cons.mp htoken
            · trivial
            · exact htidy.sound token htoken
          · rw [spanTokens, sourceText_cons, hsource, List.flatMap_cons]
            rfl
      | mark m =>
          obtain ⟨htidy, hfrom, hgrows, hevents, hsource⟩ := ih (next + 1)
          have haddresses : addresses (spanTokens (.mark m :: spans) next).1
              = next :: addresses (spanTokens spans (next + 1)).1 := by
            rw [spanTokens, addresses_cons]
            rfl
          refine ⟨⟨?_, ?_, ?_⟩, ?_, by rw [spanTokens]; omega, hevents, ?_⟩
          · intro token htoken
            obtain rfl | htoken := List.mem_cons.mp htoken
            · exact newMarker_sound m.marked m.sized
            · exact htidy.sound token htoken
          · rw [haddresses, List.nodup_cons]
            refine ⟨fun hmem => ?_, htidy.nodup⟩
            have hge := hfrom next hmem
            omega
          · intro a ha
            rw [haddresses] at ha
            obtain rfl | ha := List.mem_cons.mp ha
            · exact hgrows
            · exact htidy.below a ha
          · intro a ha
            rw [haddresses] at ha
            obtain rfl | ha := List.mem_cons.mp ha
            · exact le_rfl
            · have hge := hfrom a ha
              omega
          · rw [spanTokens, sourceText_cons, hsource, List.flatMap_cons]
            rfl

/-- What the loops leave, where they come back: sound markers, the characters of the text, and pairs
that do not cross. -/
theorem processBoldAndItalicSpans_spec {fuel : Nat} {spans : List Span}
    {result : Except SpanFault (List SpanToken)} (h : processBoldAndItalicSpans fuel spans = some result) :
    ∃ tokens, result = .ok tokens ∧ (∀ token ∈ tokens, token.Sound) ∧
      sourceText tokens = spans.flatMap Span.source ∧ Nested (events tokens) := by
  obtain ⟨tokens, hrun, rfl⟩ := Option.map_eq_some_iff.mp h
  obtain ⟨htidy, _, _, hevents, hsource⟩ := spanTokens_spec spans 0
  have hready : Ready (spanTokens spans 0).1 0 (spanTokens spans 0).2 :=
    ⟨htidy, fun e he => by rw [hevents] at he; cases he⟩
  have hmatched := matchMarkers_spec hready hrun
  obtain ⟨next', hkept⟩ := hmatched.kept
  have hlinked : Linked tokens := by
    apply Linked.of_numbered hkept.nodup
    intro k
    by_cases hk : k < 0
    · rw [hmatched.older k hk, hevents]
      exact .inl rfl
    · exact hmatched.newer k (by omega)
  obtain ⟨st, hcross, hunmatch⟩ :=
    @unmatchFrom_spec [] tokens {} hlinked Uncrossing.start
  have hnone : tokens.map (·.without []) = tokens := by
    rw [← List.map_id tokens, List.map_map]
    apply List.map_congr_left
    intro token _
    rw [Function.comp_apply, id, SpanToken.without]
    cases token.event with
    | none => rfl
    | some e => rfl
  rw [List.nil_append, hnone] at hunmatch
  rw [List.nil_append] at hcross
  have hresult : unmatchMarkers tokens = .ok (tokens.map (·.without st.dropped)) := hunmatch
  refine ⟨tokens.map (·.without st.dropped), hresult, ?_, ?_, ?_⟩
  · intro token htoken
    obtain ⟨token', htoken', rfl⟩ := List.mem_map.mp htoken
    obtain heq | heq := without_eq_or st.dropped token'
    · rw [heq]
      exact hkept.sound token' htoken'
    · rw [heq]
      exact (hkept.sound token' htoken').unmatch
  · rw [sourceText_without, hkept.source, hsource]
  · rw [events_without]
    exact hcross.nested hlinked.paired

/-- **The tags are nested, whatever the marks are.**  Where the loops come back, no pointer and
no assertion has failed, every character of the text is still there, and the tags that are
written come in pairs that do not cross. -/
theorem emphasis_nested {fuel : Nat} {spans : List Span} {result : Except SpanFault (List SpanToken)}
    (writeText : Str → Str) (h : processBoldAndItalicSpans fuel spans = some result) :
    ∃ tokens, result = .ok tokens ∧ sourceText tokens = spans.flatMap Span.source ∧
      writeTokens writeText tokens = .ok ((pieces writeText tokens).flatMap Piece.text) ∧
      Nested ((pieces writeText tokens).filterMap Piece.tag?) := by
  obtain ⟨tokens, rfl, hsound, hsource, hnested⟩ := processBoldAndItalicSpans_spec h
  refine ⟨tokens, rfl, hsource, writeTokens_eq hsound, ?_⟩
  rw [tags_pieces]
  exact hnested.expand _

/-- `*a**b*c**`, where the pairs cross. -/
def crossingSpans : List Span :=
  [.mark ⟨true, byte '*', 1, .inl rfl, by decide⟩, .text (lit "a"),
    .mark ⟨true, byte '*', 2, .inl rfl, by decide⟩, .text (lit "b"),
    .mark ⟨false, byte '*', 1, .inl rfl, by decide⟩, .text (lit "c"),
    .mark ⟨false, byte '*', 2, .inl rfl, by decide⟩]

theorem emphasis_nested_example : ∃ tokens,
    processBoldAndItalicSpans 20 crossingSpans = some (.ok tokens) ∧
      sourceText tokens = lit "*a**b*c**" ∧ Nested ((pieces id tokens).filterMap Piece.tag?) := by
  have hruns : (processBoldAndItalicSpans 20 crossingSpans).isSome := by decide +kernel
  obtain ⟨result, hrun⟩ := Option.isSome_iff_exists.mp hruns
  obtain ⟨tokens, rfl, hsource, _, hnested⟩ := emphasis_nested id hrun
  exact ⟨tokens, hrun, hsource, hnested⟩

end JustEnough
