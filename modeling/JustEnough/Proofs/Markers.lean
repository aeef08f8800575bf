/-
The first loop over the markers pairs them.

Each number of a match is then on one open-marker and, after it, on one close-marker that
points back at it (`matchMarkers_spec`).  The loop splits markers on its way, so the new
objects have to stay apart from the old ones (`Tidy`, `Kept`), and the characters are those
there were.  The search for a close-marker knows nothing of what it is for
(`findClose_spec`).

A search for an open-marker of no characters does not end where a close-marker of three is
in its way (`findClose_zero`): each split gives the same close-marker again.
-/
import JustEnough.Server.Emphasis
import Mathlib.Data.List.Basic

namespace JustEnough

/-! ### What is read off the tokens -/

/-- A pair: its number, its size, and where its open-marker is. -/
structure Link where
  id : Int
  size : Nat
  address : Nat
  deriving DecidableEq, Repr

namespace SpanToken

/-- The tag that a matched marker stands for. -/
def event : SpanToken → Option (Tag Link)
  | .rawText _ => none
  | .marker m => m.matchedTo.map fun mate =>
      if m.openMarker then .opening ⟨m.id, m.size, m.address⟩ else .closing ⟨m.id, m.size, mate⟩

def address : SpanToken → Option Nat
  | .rawText _ => none
  | .marker m => some m.address

/-- The characters that a token stands for. -/
def source : SpanToken → Str
  | .rawText text => text
  | .marker m => if m.disabled then [] else List.replicate m.size m.tokenCharacter

/-- The character and the size are what can be written, and what is disabled is out of the game. -/
def Sound : SpanToken → Prop
  | .rawText _ => True
  | .marker m => (1 ≤ m.size ∧ m.size ≤ 3) ∧ IsMark m.tokenCharacter ∧
      (m.disabled = true → m.cannotMatch = true ∧ m.matchedTo = none)

end SpanToken

def events (tokens : List SpanToken) : List (Tag Link) := tokens.filterMap SpanToken.event

def addresses (tokens : List SpanToken) : List Nat := tokens.filterMap SpanToken.address

def sourceText (tokens : List SpanToken) : Str := tokens.flatMap SpanToken.source

@[simp] theorem events_cons (token : SpanToken) (tokens : List SpanToken) :
    events (token :: tokens) = token.event.toList ++ events tokens := by
  cases h : token.event with
  | none => simp [events, h]
  | some e => simp [events, h]

@[simp] theorem addresses_cons (token : SpanToken) (tokens : List SpanToken) :
    addresses (token :: tokens) = token.address.toList ++ addresses tokens := by
  cases h : token.address with
  | none => simp [addresses, h]
  | some a => simp [addresses, h]

@[simp] theorem sourceText_cons (token : SpanToken) (tokens : List SpanToken) :
    sourceText (token :: tokens) = token.source ++ sourceText tokens := by
  simp [sourceText]

/-- A token that is looked for: a marker without a match that may still get one. -/
theorem unmatchedOpenMarker_eq {token : SpanToken} {m : BoldOrItalicMarker}
    (h : token.unmatchedOpenMarker = some m) :
    token = .marker m ∧ m.openMarker = true ∧ m.matchedTo = none ∧ m.cannotMatch = false := by
  cases token with
  | rawText text => cases h
  | marker m' =>
      obtain ⟨hopen, heq⟩ := Option.ite_none_right_eq_some.mp h
      obtain rfl : m' = m := Option.some.inj heq
      simpa [BoldOrItalicMarker.isUnmatchedOpenMarker, and_assoc] using hopen

theorem unmatchedCloseMarker_eq {token : SpanToken} {m : BoldOrItalicMarker}
    (h : token.unmatchedCloseMarker = some m) :
    token = .marker m ∧ m.openMarker = false ∧ m.matchedTo = none ∧ m.cannotMatch = false := by
  cases token with
  | rawText text => cases h
  | marker m' =>
      obtain ⟨hclose, heq⟩ := Option.ite_none_right_eq_some.mp h
      obtain rfl : m' = m := Option.some.inj heq
      simpa [BoldOrItalicMarker.isUnmatchedCloseMarker, and_assoc] using hclose

/-! ### What the first loop keeps -/

/-- A marker that is looked for is not disabled. -/
theorem SpanToken.Sound.enabled {m : BoldOrItalicMarker} (h : (SpanToken.marker m).Sound)
    (hcannot : m.cannotMatch = false) : m.disabled = false := by
  apply Bool.eq_false_iff.mpr
  intro hdisabled
  rw [(h.2.2 hdisabled).1] at hcannot
  cases hcannot

/-- A match does not spoil it. -/
theorem SpanToken.Sound.matched {m : BoldOrItalicMarker} (h : (SpanToken.marker m).Sound)
    (hcannot : m.cannotMatch = false) (mate : Option Nat) (id : Int) :
    (SpanToken.marker (m.matched mate id)).Sound := by
  refine ⟨h.1, h.2.1, fun hdisabled => ?_⟩
  rw [show (m.matched mate id).disabled = m.disabled from rfl, h.enabled hcannot] at hdisabled
  cases hdisabled

/-- Tokens whose markers are distinct objects. -/
structure Tidy (tokens : List SpanToken) (next : Nat) : Prop where
  sound : ∀ token ∈ tokens, token.Sound
  nodup : (addresses tokens).Nodup
  below : ∀ a ∈ addresses tokens, a < next

/-- The same text, with some markers split into new ones. -/
structure Kept (tokens : List SpanToken) (next : Nat) (tokens' : List SpanToken) (next' : Nat) : Prop where
  source : sourceText tokens' = sourceText tokens
  grows : next ≤ next'
  sound : ∀ token ∈ tokens', token.Sound
  nodup : (addresses tokens').Nodup
  /-- A marker is one of those there were, or a new one. -/
  within : ∀ a ∈ addresses tokens', a ∈ addresses tokens ∨ (next ≤ a ∧ a < next')

theorem Tidy.tail {token : SpanToken} {tokens : List SpanToken} {next : Nat}
    (h : Tidy (token :: tokens) next) : Tidy tokens next where
  sound token' htoken' := h.sound token' (List.mem_cons_of_mem _ htoken')
  nodup := by
    have hnodup := h.nodup
    rw [addresses_cons] at hnodup
    exact hnodup.of_append_right
  below a ha := h.below a (by rw [addresses_cons]; exact List.mem_append_right _ ha)

theorem Tidy.kept {tokens : List SpanToken} {next : Nat} (h : Tidy tokens next) :
    Kept tokens next tokens next where
  source := rfl
  grows := le_rfl
  sound := h.sound
  nodup := h.nodup
  within _ ha := .inl ha

theorem Kept.tidy {tokens tokens' : List SpanToken} {next next' : Nat} (h : Tidy tokens next)
    (hkept : Kept tokens next tokens' next') : Tidy tokens' next' where
  sound := hkept.sound
  nodup := hkept.nodup
  below a ha := by
    obtain hold | ⟨_, hnew⟩ := hkept.within a ha
    · exact (h.below a hold).trans_le hkept.grows
    · exact hnew

theorem Kept.trans {first second third : List SpanToken} {a b c : Nat} (h : Kept first a second b)
    (h' : Kept second b third c) : Kept first a third c where
  source := h'.source.trans h.source
  grows := h.grows.trans h'.grows
  sound := h'.sound
  nodup := h'.nodup
  within x hx := by
    have hgrows := h.grows
    have hgrows' := h'.grows
    obtain hold | hnew := h'.within x hx
    · obtain hold | hnew := h.within x hold
      · exact .inl hold
      · exact .inr ⟨hnew.1, by omega⟩
    · exact .inr ⟨by omega, hnew.2⟩

/-- The first token may change, as long as it is the same object with the same text. -/
theorem Kept.cons {token token' : SpanToken} {tokens tokens' : List SpanToken} {next next' : Nat}
    (h : Tidy (token :: tokens) next) (hkept : Kept tokens next tokens' next')
    (haddress : token'.address = token.address) (hsource : token'.source = token.source)
    (hsound : token'.Sound) : Kept (token :: tokens) next (token' :: tokens') next' where
  source := by rw [sourceText_cons, sourceText_cons, hsource, hkept.source]
  grows := hkept.grows
  sound := by
    intro u hu
    obtain rfl | hu := List.mem_cons.mp hu
    · exact hsound
    · exact hkept.sound u hu
  nodup := by
    have hnodup := h.nodup
    have hbelow := h.below
    rw [addresses_cons] at hnodup hbelow ⊢
    rw [haddress]
    refine List.Nodup.append hnodup.of_append_left hkept.nodup fun a ha ha' => ?_
    obtain hold | ⟨hnew, _⟩ := hkept.within a ha'
    · exact (List.disjoint_of_nodup_append hnodup) ha hold
    · have hlt := hbelow a (List.mem_append_left _ ha)
      omega
  within a ha := by
    rw [addresses_cons, haddress] at ha
    rw [addresses_cons]
    obtain ha | ha := List.mem_append.mp ha
    · exact .inl (List.mem_append_left _ ha)
    · obtain hold | hnew := hkept.within a ha
      · exact .inl (List.mem_append_right _ hold)
      · exact .inr hnew

section Split

variable {m : BoldOrItalicMarker} {tokens : List SpanToken} {next first second : Nat}

theorem newMarker_sound {openMarker : Bool} {c : UInt8} {size address : Nat}
    (hmark : IsMark c) (h : 1 ≤ size ∧ size ≤ 3) : (newMarker openMarker c size address).Sound :=
  ⟨h, hmark, fun hdisabled => by cases hdisabled⟩

/-- Two new markers in the place of one. -/
theorem Tidy.split (h : Tidy (.marker m :: tokens) next) (o : Bool)
    (hfirst : 1 ≤ first ∧ first ≤ 3) (hsecond : 1 ≤ second ∧ second ≤ 3) :
    Tidy (newMarker o m.tokenCharacter first next :: newMarker o m.tokenCharacter second (next + 1) ::
      tokens) (next + 2) where
  sound token htoken := by
    obtain rfl | htoken := List.mem_cons.mp htoken
    · exact newMarker_sound (h.sound (.marker m) List.mem_cons_self).2.1 hfirst
    · obtain rfl | htoken := List.mem_cons.mp htoken
      · exact newMarker_sound (h.sound (.marker m) List.mem_cons_self).2.1 hsecond
      · exact h.tail.sound token htoken
  nodup := by
    have hbelow := h.tail.below
    simp only [newMarker, addresses_cons, SpanToken.address, Option.toList_some, List.cons_append,
      List.nil_append, List.nodup_cons, List.mem_cons, not_or]
    refine ⟨⟨by omega, fun hmem => ?_⟩, fun hmem => ?_, h.tail.nodup⟩
    · have hlt := hbelow _ hmem
      omega
    · have hlt := hbelow _ hmem
      omega
  below a ha := by
    have hbelow := h.tail.below
    simp only [newMarker, addresses_cons, SpanToken.address, Option.toList_some, List.cons_append,
      List.nil_append, List.mem_cons] at ha
    obtain rfl | rfl | ha := ha
    · omega
    · omega
    · have hlt := hbelow a ha
      omega

/-- A marker is split: it is disabled, and two with its characters follow it. -/
theorem Kept.split {tokens' : List SpanToken} {next' : Nat} (h : Tidy (.marker m :: tokens) next)
    (hdisabled : m.disabled = false) (hmatchedTo : m.matchedTo = none) (hsize : first + second = m.size)
    (o : Bool)
    (hkept : Kept (newMarker o m.tokenCharacter first next ::
      newMarker o m.tokenCharacter second (next + 1) :: tokens) (next + 2) tokens' next') :
    Kept (.marker m :: tokens) next (.marker m.disable :: tokens') next' where
  source := by
    have hchars : List.replicate m.size m.tokenCharacter
        = List.replicate first m.tokenCharacter ++ List.replicate second m.tokenCharacter := by
      rw [← hsize, List.replicate_add]
    rw [sourceText_cons, hkept.source]
    simp only [SpanToken.source, BoldOrItalicMarker.disable, newMarker, sourceText_cons, hdisabled,
      hchars, if_true, Bool.false_eq_true, if_false, List.nil_append, List.append_assoc]
  grows := by
    have hgrows := hkept.grows
    omega
  sound token htoken := by
    obtain rfl | htoken := List.mem_cons.mp htoken
    · have hsound := h.sound (.marker m) List.mem_cons_self
      exact ⟨hsound.1, hsound.2.1, fun _ => ⟨rfl, hmatchedTo⟩⟩
    · exact hkept.sound token htoken
  nodup := by
    have hnodup := h.nodup
    have hlt : m.address < next := h.below _ (by simp [SpanToken.address])
    simp only [addresses_cons, SpanToken.address, Option.toList_some, List.cons_append,
      List.nil_append, List.nodup_cons] at hnodup ⊢
    refine ⟨fun hmem => ?_, hkept.nodup⟩
    obtain hold | hnew := hkept.within _ hmem
    · have hmem : m.address = next ∨ m.address = next + 1 ∨ m.address ∈ addresses tokens := by
        simpa [newMarker, SpanToken.address, BoldOrItalicMarker.disable] using hold
      obtain heq | heq | hmem := hmem
      · omega
      · omega
      · exact hnodup.1 hmem
    · have hge : next + 2 ≤ m.address := hnew.1
      omega
  within a ha := by
    have hgrows := hkept.grows
    simp only [addresses_cons, SpanToken.address, Option.toList_some, List.cons_append,
      List.nil_append, List.mem_cons] at ha ⊢
    obtain rfl | ha := ha
    · exact .inl (.inl rfl)
    · obtain hold | hnew := hkept.within a ha
      · have hmem : a = next ∨ a = next + 1 ∨ a ∈ addresses tokens := by
          simpa [newMarker, SpanToken.address] using hold
        obtain rfl | rfl | hmem := hmem
        · exact .inr ⟨le_rfl, by omega⟩
        · exact .inr ⟨by omega, by omega⟩
        · exact .inl (.inr hmem)
      · exact .inr ⟨by omega, hnew.2⟩

end Split

/-! ### The search for a close-marker -/

/-- The close-marker that a search comes to first. -/
def firstClose (tokens : List SpanToken) : Option BoldOrItalicMarker :=
  tokens.findSome? SpanToken.unmatchedCloseMarker

/-- What a search for a close-marker comes back with. -/
def Search.Spec (openToken : BoldOrItalicMarker) (id : Int) (tokens : List SpanToken) (next : Nat) :
    Search → Prop
  | .unmatched tokens' next' => Kept tokens next tokens' next' ∧ events tokens' = events tokens
  | .matched _ tokens' next' => Kept tokens next tokens' next' ∧
      ∃ before after, events tokens = before ++ after ∧
        events tokens' = before ++ .closing ⟨id, openToken.size, openToken.address⟩ :: after
  | .split size tokens' next' => Kept tokens next tokens' next' ∧ events tokens' = events tokens ∧
      openToken.size = 3 ∧ (1 ≤ size ∧ size ≤ 3) ∧
      ∃ m, firstClose tokens' = some m ∧ m.size = size ∧
        ¬(m.tokenCharacter = openToken.tokenCharacter ∧ m.size = openToken.size)

theorem event_of_unmatched {m : BoldOrItalicMarker} (h : m.matchedTo = none) :
    (SpanToken.marker m).event = none := by
  simp [SpanToken.event, h]

section Search

variable {openToken : BoldOrItalicMarker} {id : Int} {tokens : List SpanToken} {next : Nat}

/-- A search that goes past a token. -/
theorem Search.Spec.cons {token : SpanToken} {result : Search} (h : Tidy (token :: tokens) next)
    (hclose : token.unmatchedCloseMarker = none ∨ openToken.size ≠ 3)
    (hspec : result.Spec openToken id tokens next) :
    (result.cons token).Spec openToken id (token :: tokens) next := by
  have hsound : token.Sound := h.sound token List.mem_cons_self
  cases result with
  | unmatched tokens' next' =>
      obtain ⟨hkept, hevents⟩ := hspec
      exact ⟨hkept.cons h rfl rfl hsound, by rw [events_cons, events_cons, hevents]⟩
  | matched close tokens' next' =>
      obtain ⟨hkept, before, after, hevents, hevents'⟩ := hspec
      refine ⟨hkept.cons h rfl rfl hsound, token.event.toList ++ before, after, ?_, ?_⟩
      · rw [events_cons, hevents, List.append_assoc]
      · rw [events_cons, hevents', List.append_assoc]
  | split size tokens' next' =>
      obtain ⟨hkept, hevents, hthree, hsize, m, hfirst, hm⟩ := hspec
      refine ⟨hkept.cons h rfl rfl hsound, by rw [events_cons, events_cons, hevents], hthree, hsize, m,
        ?_, hm⟩
      have hnone := hclose.resolve_right fun hne => hne hthree
      rw [firstClose, List.findSome?_cons, hnone]
      exact hfirst

/-- A search that splits a close-marker. -/
theorem Search.Spec.splitClose {m : BoldOrItalicMarker} {result : Search}
    (h : Tidy (.marker m :: tokens) next) (hmatchedTo : m.matchedTo = none)
    (hcannot : m.cannotMatch = false) (hthree : m.size = 3)
    (hopen : openToken.size = 1 ∨ openToken.size = 2)
    (hspec : result.Spec openToken id (newMarker false m.tokenCharacter (m.size - openToken.size) next ::
      newMarker false m.tokenCharacter openToken.size (next + 1) :: tokens) (next + 2)) :
    (result.cons (.marker m.disable)).Spec openToken id (.marker m :: tokens) next := by
  have hdisabled : m.disabled = false := (h.sound (.marker m) List.mem_cons_self).enabled hcannot
  have hnone : (SpanToken.marker m.disable).event = none := event_of_unmatched hmatchedTo
  have hnone' : (SpanToken.marker m).event = none := event_of_unmatched hmatchedTo
  have hnew : ∀ size address, (newMarker false m.tokenCharacter size address).event = none :=
    fun _ _ => rfl
  have hsizes : m.size - openToken.size + openToken.size = m.size := by omega
  cases result with
  | unmatched tokens' next' =>
      obtain ⟨hkept, hevents⟩ := hspec
      refine ⟨hkept.split h hdisabled hmatchedTo hsizes, ?_⟩
      simpa [hnone, hnone', hnew] using hevents
  | matched close tokens' next' =>
      obtain ⟨hkept, before, after, hevents, hevents'⟩ := hspec
      refine ⟨hkept.split h hdisabled hmatchedTo hsizes, before, after, ?_, ?_⟩
      · simpa [hnone', hnew] using hevents
      · simpa [hnone] using hevents'
  | split size tokens' next' =>
      obtain ⟨_, _, hthree', _⟩ := hspec
      omega

theorem findClose_spec {fuel : Nat} {result : Search} (htidy : Tidy tokens next)
    (hopen : 1 ≤ openToken.size ∧ openToken.size ≤ 3)
    (h : findClose openToken id fuel tokens next = some result) :
    result.Spec openToken id tokens next := by
  induction fuel generalizing tokens next result with
  | zero => cases h
  | succ fuel ih =>
      cases tokens with
      | nil =>
          obtain rfl := Option.some.inj h
          exact ⟨htidy.kept, rfl⟩
      | cons token tokens =>
          rw [findClose] at h
          cases hclose : token.unmatchedCloseMarker with
          | none =>
              rw [hclose] at h
              obtain ⟨rest, hrest, rfl⟩ := Option.map_eq_some_iff.mp h
              exact (ih htidy.tail hrest).cons htidy (.inl hclose)
          | some m =>
              simp only [hclose] at h
              obtain ⟨rfl, hside, hmatchedTo, hcannot⟩ := unmatchedCloseMarker_eq hclose
              have hsound := htidy.sound (.marker m) List.mem_cons_self
              by_cases hthree : m.size = 3 ∧ openToken.size ≠ 3
              · rw [if_pos hthree] at h
                obtain ⟨rest, hrest, rfl⟩ := Option.map_eq_some_iff.mp h
                have hsplit := htidy.split false
                  (show 1 ≤ m.size - openToken.size ∧ m.size - openToken.size ≤ 3 by omega) hopen
                exact (ih hsplit hrest).splitClose htidy hmatchedTo hcannot hthree.1 (by omega)
              · rw [if_neg hthree] at h
                by_cases heq : m.tokenCharacter = openToken.tokenCharacter ∧ m.size = openToken.size
                · -- The first that fits.
                  rw [if_pos heq] at h
                  obtain rfl := Option.some.inj h
                  have hsound' := hsound.matched hcannot (some openToken.address) id
                  refine ⟨htidy.tail.kept.cons htidy rfl rfl hsound', [], events tokens, ?_, ?_⟩
                  · rw [events_cons, event_of_unmatched hmatchedTo]
                    rfl
                  · simp [SpanToken.event, BoldOrItalicMarker.matched, hside, heq.2]
                · rw [if_neg heq] at h
                  by_cases hthree' : openToken.size = 3
                  · rw [if_pos hthree'] at h
                    obtain rfl := Option.some.inj h
                    refine ⟨htidy.kept, rfl, hthree', hsound.1, m, ?_, rfl, heq⟩
                    rw [firstClose, List.findSome?_cons, hclose]
                  · rw [if_neg hthree'] at h
                    obtain ⟨rest, hrest, rfl⟩ := Option.map_eq_some_iff.mp h
                    exact (ih htidy.tail hrest).cons htidy (.inr hthree')

/-- An open-marker of no characters is never done with a close-marker of three. -/
theorem findClose_zero {fuel : Nat} {m : BoldOrItalicMarker} (hopen : openToken.size = 0)
    (hfirst : firstClose tokens = some m) (hthree : m.size = 3) :
    findClose openToken id fuel tokens next = none := by
  induction fuel generalizing tokens next m with
  | zero => rfl
  | succ fuel ih =>
      cases tokens with
      | nil => cases hfirst
      | cons token tokens =>
          rw [firstClose, List.findSome?_cons] at hfirst
          rw [findClose]
          cases hclose : token.unmatchedCloseMarker with
          | none =>
              rw [hclose] at hfirst
              rw [ih hfirst hthree]
              rfl
          | some m' =>
              rw [hclose] at hfirst
              obtain rfl : m' = m := Option.some.inj hfirst
              have hnew : firstClose (newMarker false m'.tokenCharacter (m'.size - openToken.size) next ::
                  newMarker false m'.tokenCharacter openToken.size (next + 1) :: tokens)
                    = some ⟨next, false, m'.tokenCharacter, m'.size - openToken.size, none, false, false, -1⟩ :=
                rfl
              dsimp only
              rw [if_pos ⟨hthree, by omega⟩, ih hnew (show m'.size - openToken.size = 3 by omega)]
              rfl

end Search

/-! ### The first loop -/

/-- The tags of a match. -/
def numbered (k : Int) (tags : List (Tag Link)) : List (Tag Link) := tags.filter (·.label.id = k)

/-- What the first loop comes to: some close-markers have a match already, with numbers below
the next one. -/
structure Ready (tokens : List SpanToken) (id : Int) (next : Nat) : Prop where
  tidy : Tidy tokens next
  closings : ∀ e ∈ events tokens, ∃ link, e = .closing link ∧ link.id < id

/-- What it leaves: the new numbers are on pairs, and nothing happens to the others. -/
structure Coupled (tokens : List SpanToken) (id : Int) (next : Nat) (tokens' : List SpanToken) : Prop where
  kept : ∃ next', Kept tokens next tokens' next'
  older : ∀ k < id, numbered k (events tokens') = numbered k (events tokens)
  newer : ∀ k, id ≤ k → numbered k (events tokens') = [] ∨
    ∃ link, numbered k (events tokens') = [.opening link, .closing link]

theorem numbered_append (k : Int) (first second : List (Tag Link)) :
    numbered k (first ++ second) = numbered k first ++ numbered k second :=
  List.filter_append ..

theorem numbered_cons_same {k : Int} (tag : Tag Link) (tags : List (Tag Link)) (h : tag.label.id = k) :
    numbered k (tag :: tags) = tag :: numbered k tags :=
  List.filter_cons_of_pos (decide_eq_true h)

theorem numbered_cons_other {k : Int} (tag : Tag Link) (tags : List (Tag Link)) (h : tag.label.id ≠ k) :
    numbered k (tag :: tags) = numbered k tags :=
  List.filter_cons_of_neg (by simpa using h)

section Loop

variable {token : SpanToken} {tokens tokens' : List SpanToken} {id k : Int} {next next' : Nat}

theorem numbered_of_closings (h : ∀ e ∈ events tokens, ∃ link, e = .closing link ∧ link.id < id)
    (hk : id ≤ k) : numbered k (events tokens) = [] := by
  apply List.filter_eq_nil_iff.mpr
  intro e he
  obtain ⟨link, rfl, hlt⟩ := h e he
  have hne : link.id ≠ k := by omega
  exact fun hk => hne (of_decide_eq_true hk)

theorem Ready.tail (h : Ready (token :: tokens) id next) : Ready tokens id next where
  tidy := h.tidy.tail
  closings e he := h.closings e (by rw [events_cons]; exact List.mem_append_right _ he)

/-- The loop goes past a token. -/
theorem Coupled.cons (h : Ready (token :: tokens) id next) (hmatched : Coupled tokens id next tokens') :
    Coupled (token :: tokens) id next (token :: tokens') where
  kept := by
    obtain ⟨next', hkept⟩ := hmatched.kept
    exact ⟨next', hkept.cons h.tidy rfl rfl (h.tidy.sound token List.mem_cons_self)⟩
  older k hk := by
    rw [events_cons, events_cons, numbered_append, numbered_append, hmatched.older k hk]
  newer k hk := by
    have hnone : numbered k token.event.toList = [] := by
      apply List.filter_eq_nil_iff.mpr
      intro e he
      obtain ⟨link, rfl, hlt⟩ := h.closings e (by rw [events_cons]; exact List.mem_append_left _ he)
      have hne : link.id ≠ k := by omega
      exact fun hk => hne (of_decide_eq_true hk)
    rw [events_cons, numbered_append, hnone, List.nil_append]
    exact hmatched.newer k hk

/-- The tokens that a search leaves have the same matches. -/
theorem Ready.search (h : Ready tokens id next) (hkept : Kept tokens next tokens' next')
    (hevents : events tokens' = events tokens) : Ready tokens' id next' where
  tidy := hkept.tidy h.tidy
  closings := by
    rw [hevents]
    exact h.closings

theorem Coupled.search {last : List SpanToken} (hkept : Kept tokens next tokens' next')
    (hevents : events tokens' = events tokens) (hmatched : Coupled tokens' id next' last) :
    Coupled tokens id next last where
  kept := by
    obtain ⟨next'', hkept'⟩ := hmatched.kept
    exact ⟨next'', hkept.trans hkept'⟩
  older k hk := by rw [hmatched.older k hk, hevents]
  newer := hmatched.newer

variable {m : BoldOrItalicMarker}

section Match

variable {before after : List (Tag Link)}

theorem Ready.match (h : Ready (.marker m :: tokens) id next) (hkept : Kept tokens next tokens' next')
    (hevents : events tokens = before ++ after)
    (hevents' : events tokens' = before ++ .closing ⟨id, m.size, m.address⟩ :: after) :
    Ready tokens' (id + 1) next' where
  tidy := hkept.tidy h.tidy.tail
  closings e he := by
    have hold := h.tail.closings
    rw [hevents] at hold
    rw [hevents'] at he
    obtain hmem | rfl | hmem : e ∈ before ∨ e = .closing ⟨id, m.size, m.address⟩ ∨ e ∈ after := by
      simpa using he
    · obtain ⟨link, rfl, hlt⟩ := hold e (List.mem_append_left _ hmem)
      exact ⟨link, rfl, by omega⟩
    · exact ⟨_, rfl, by simp⟩
    · obtain ⟨link, rfl, hlt⟩ := hold e (List.mem_append_right _ hmem)
      exact ⟨link, rfl, by omega⟩

/-- The open-marker and the close-marker that was found are a pair, and the next number is
another one. -/
theorem Coupled.match {last : List SpanToken} {close : Nat} (h : Ready (.marker m :: tokens) id next)
    (hopen : m.openMarker = true) (hmatchedTo : m.matchedTo = none) (hcannot : m.cannotMatch = false)
    (hkept : Kept tokens next tokens' next') (hevents : events tokens = before ++ after)
    (hevents' : events tokens' = before ++ .closing ⟨id, m.size, m.address⟩ :: after)
    (hmatched : Coupled tokens' (id + 1) next' last) :
    Coupled (.marker m :: tokens) id next (.marker (m.matched (some close) id) :: last) := by
  have hsound : (SpanToken.marker m).Sound := h.tidy.sound _ List.mem_cons_self
  have hsound' := hsound.matched hcannot (some close) id
  obtain ⟨link, hlink⟩ : ∃ link : Link, link = ⟨id, m.size, m.address⟩ := ⟨_, rfl⟩
  have hid : link.id = id := by rw [hlink]
  have hevent : events (.marker (m.matched (some close) id) :: last) = .opening link :: events last := by
    simp [SpanToken.event, BoldOrItalicMarker.matched, hopen, hlink]
  have hold : ∀ k, id ≤ k → numbered k before = [] ∧ numbered k after = [] := by
    intro k hk
    have hnone := numbered_of_closings h.tail.closings hk
    rw [hevents, numbered_append] at hnone
    exact List.append_eq_nil_iff.mp hnone
  rw [← hlink] at hevents'
  obtain ⟨next'', hkept'⟩ := hmatched.kept
  refine ⟨⟨next'', (hkept.trans hkept').cons h.tidy rfl rfl hsound'⟩, fun k hk => ?_, fun k hk => ?_⟩
  · have hne : link.id ≠ k := by omega
    rw [hevent, numbered_cons_other (.opening link) _ hne, hmatched.older k (by omega), hevents',
      numbered_append, numbered_cons_other (.closing link) _ hne, ← numbered_append, ← hevents,
      events_cons, event_of_unmatched hmatchedTo]
    rfl
  · by_cases heq : link.id = k
    · obtain ⟨hbefore, hafter⟩ := hold k hk
      refine .inr ⟨link, ?_⟩
      rw [hevent, numbered_cons_same (.opening link) _ heq, hmatched.older k (by omega), hevents',
        numbered_append, numbered_cons_same (.closing link) _ heq, hbefore, hafter]
      rfl
    · rw [hevent, numbered_cons_other (.opening link) _ heq]
      exact hmatched.newer k (by omega)

end Match

section Split

variable {o : Bool} {c : UInt8} {first second : Nat}

theorem events_newMarkers : events (newMarker o c first next :: newMarker o c second (next + 1) :: tokens)
    = events tokens := by
  simp [newMarker, SpanToken.event]

theorem Ready.split (h : Ready (.marker m :: tokens) id next) (o : Bool)
    (hfirst : 1 ≤ first ∧ first ≤ 3) (hsecond : 1 ≤ second ∧ second ≤ 3) :
    Ready (newMarker o m.tokenCharacter first next :: newMarker o m.tokenCharacter second (next + 1) ::
      tokens) id (next + 2) where
  tidy := h.tidy.split o hfirst hsecond
  closings := by
    rw [events_newMarkers]
    exact h.tail.closings

/-- Nothing is matched when an open-marker is split. -/
theorem Coupled.split {last : List SpanToken} (h : Ready (.marker m :: tokens) id next)
    (hmatchedTo : m.matchedTo = none) (hcannot : m.cannotMatch = false)
    (hkept : Kept tokens next tokens' next') (hevents : events tokens' = events tokens)
    (hsize : first + second = m.size)
    (hmatched : Coupled (newMarker o m.tokenCharacter first next' ::
      newMarker o m.tokenCharacter second (next' + 1) :: tokens') id (next' + 2) last) :
    Coupled (.marker m :: tokens) id next (.marker m.disable :: last) := by
  have hsound : (SpanToken.marker m).Sound := h.tidy.sound _ List.mem_cons_self
  have hkept' := hkept.cons h.tidy rfl rfl hsound
  have hlast : events (.marker m.disable :: last) = events last := by
    rw [events_cons, event_of_unmatched (show m.disable.matchedTo = none from hmatchedTo)]
    rfl
  have hfirst : events (.marker m :: tokens) = events tokens' := by
    rw [events_cons, event_of_unmatched hmatchedTo, hevents]
    rfl
  obtain ⟨next'', hkept''⟩ := hmatched.kept
  have hsplit := hkept''.split (hkept'.tidy h.tidy) (hsound.enabled hcannot) hmatchedTo hsize
  refine ⟨⟨next'', hkept'.trans hsplit⟩, fun k hk => ?_, fun k hk => ?_⟩
  · rw [hlast, hmatched.older k hk, events_newMarkers, hfirst]
  · rw [hlast]
    exact hmatched.newer k hk

end Split

/-- Two open-markers in place of one of three, and the first has no characters: the loop does
not end. -/
theorem matchMarkers_zero {fuel : Nat} {c : UInt8} {size : Nat}
    (hfirst : firstClose tokens = some m) (hthree : m.size = 3) :
    matchMarkers fuel (newMarker true c 0 next :: newMarker true c size next' :: tokens) id (next + 2)
      = none := by
  cases fuel with
  | zero => rfl
  | succ fuel =>
      have hnone := @findClose_zero ⟨next, true, c, 0, none, false, false, -1⟩ id
        (newMarker true c size next' :: tokens) (next + 2) fuel m rfl hfirst hthree
      rw [matchMarkers]
      simp only [newMarker, SpanToken.unmatchedOpenMarker, BoldOrItalicMarker.isUnmatchedOpenMarker]
      rw [newMarker] at hnone
      simp [hnone]

/-- **What the first loop leaves**, where it ends. -/
theorem matchMarkers_spec {fuel : Nat} (h : Ready tokens id next)
    (hrun : matchMarkers fuel tokens id next = some tokens') : Coupled tokens id next tokens' := by
  induction fuel generalizing tokens id next tokens' with
  | zero => cases hrun
  | succ fuel ih =>
      cases tokens with
      | nil =>
          obtain rfl := Option.some.inj hrun
          exact ⟨⟨next, h.tidy.kept⟩, fun _ _ => rfl, fun _ _ => .inl rfl⟩
      | cons token tokens =>
          rw [matchMarkers] at hrun
          cases hopen : token.unmatchedOpenMarker with
          | none =>
              rw [hopen] at hrun
              obtain ⟨rest, hrest, rfl⟩ := Option.map_eq_some_iff.mp hrun
              exact (ih h.tail hrest).cons h
          | some m =>
              simp only [hopen] at hrun
              obtain ⟨rfl, hside, hmatchedTo, hcannot⟩ := unmatchedOpenMarker_eq hopen
              have hsized := (h.tidy.sound (.marker m) List.mem_cons_self).1
              cases hfind : findClose m id fuel tokens next with
              | none =>
                  rw [hfind] at hrun
                  cases hrun
              | some result =>
                  have hspec := findClose_spec h.tidy.tail hsized hfind
                  rw [hfind] at hrun
                  cases result with
                  | unmatched rest next' =>
                      obtain ⟨hkept, hevents⟩ := hspec
                      obtain ⟨last, hlast, rfl⟩ := Option.map_eq_some_iff.mp hrun
                      have htail := ih (h.tail.search hkept hevents) hlast
                      exact (htail.search hkept hevents).cons h
                  | matched close rest next' =>
                      obtain ⟨hkept, before, after, hevents, hevents'⟩ := hspec
                      obtain ⟨last, hlast, rfl⟩ := Option.map_eq_some_iff.mp hrun
                      have htail := ih (h.match hkept hevents hevents') hlast
                      exact htail.match h hside hmatchedTo hcannot hkept hevents hevents'
                  | split size rest next' =>
                      obtain ⟨hkept, hevents, hthree, hsize, m', hfirst, hm', _⟩ := hspec
                      obtain ⟨last, hlast, rfl⟩ := Option.map_eq_some_iff.mp hrun
                      by_cases heq : size = 3
                      · -- The two open-markers are one of nothing and one of three.
                        subst heq
                        rw [hthree, matchMarkers_zero hfirst hm'] at hlast
                        cases hlast
                      · have hhead : (SpanToken.marker m).Sound := h.tidy.sound _ List.mem_cons_self
                        have hkept' := hkept.cons h.tidy rfl rfl hhead
                        have hready := h.search hkept' (by rw [events_cons, events_cons, hevents])
                        have htail := ih (hready.split true
                          (show 1 ≤ m.size - size ∧ m.size - size ≤ 3 by omega) hsize) hlast
                        exact htail.split h hmatchedTo hcannot hkept hevents (by omega)

end Loop

end JustEnough
