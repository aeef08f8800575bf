/-
When the search for matching markers ends.

An open-marker of three that comes to a close-marker of three with another character is
split into nothing and itself.  The search for the open-marker of no characters then splits
the close-marker into itself and nothing, and comes to itself again, without end
(`emphasis_never_ends`): for such a text the server does not answer, and its list of tokens
grows.

Nothing else keeps the loops from ending.  A marker of three counts for three turns and any
other token for one, and a split does not make that more (`weight`), so where no
open-marker of three stands before a close-marker of three with another character, the
loops end after so many turns (`emphasis_ends`).
-/
import JustEnough.Proofs.Emphasis

namespace JustEnough

/-! ### The turns -/

/-- The side and the character of a marker of three that may still be matched. -/
def SpanToken.triple : SpanToken → Option (Bool × UInt8)
  | .rawText _ => none
  | .marker m =>
    if m.matchedTo = none ∧ m.cannotMatch = false ∧ m.size = 3 then some (m.openMarker, m.tokenCharacter)
    else none

def triples (tokens : List SpanToken) : List (Bool × UInt8) := tokens.filterMap SpanToken.triple

def SpanToken.weight (token : SpanToken) : Nat := if token.triple = none then 1 else 3

/-- As many turns as the loops may take. -/
def weight (tokens : List SpanToken) : Nat := (tokens.map SpanToken.weight).sum

def Search.tokens : Search → List SpanToken
  | .unmatched tokens _ => tokens
  | .matched _ tokens _ => tokens
  | .split _ tokens _ => tokens

@[simp] theorem Search.tokens_cons (token : SpanToken) (result : Search) :
    (result.cons token).tokens = token :: result.tokens := by
  cases result with
  | unmatched tokens next => rfl
  | matched close tokens next => rfl
  | split size tokens next => rfl

@[simp] theorem weight_cons (token : SpanToken) (tokens : List SpanToken) :
    weight (token :: tokens) = token.weight + weight tokens := by
  simp [weight]

@[simp] theorem triples_cons (token : SpanToken) (tokens : List SpanToken) :
    triples (token :: tokens) = token.triple.toList ++ triples tokens := by
  cases h : token.triple with
  | none => simp [triples, h]
  | some a => simp [triples, h]

theorem SpanToken.weight_pos (token : SpanToken) : 1 ≤ token.weight := by
  by_cases h : token.triple = none
  · simp [SpanToken.weight, h]
  · simp [SpanToken.weight, h]

theorem triple_newMarker {o : Bool} {c : UInt8} {size address : Nat} (h : size ≠ 3) :
    (newMarker o c size address).triple = none := by
  simp [newMarker, SpanToken.triple, h]

theorem weight_newMarker {o : Bool} {c : UInt8} {size address : Nat} (h : size ≠ 3) :
    (newMarker o c size address).weight = 1 := by
  rw [SpanToken.weight, if_pos (triple_newMarker h)]

/-- Fewer turns to go, and no new markers of three. -/
structure Fewer (tokens tokens' : List SpanToken) : Prop where
  weight : weight tokens' ≤ weight tokens
  triples : (triples tokens').Sublist (triples tokens)

section Search

variable {openToken m : BoldOrItalicMarker} {id : Int} {tokens tokens' : List SpanToken}
  {token token' : SpanToken} {next : Nat}

theorem Fewer.refl (tokens : List SpanToken) : Fewer tokens tokens := ⟨le_rfl, .refl _⟩

theorem Fewer.cons (h : Fewer tokens tokens') (token : SpanToken) :
    Fewer (token :: tokens) (token :: tokens') where
  weight := by
    have hweight := h.weight
    simp only [weight_cons]
    omega
  triples := by
    simp only [triples_cons]
    exact h.triples.append_left _

/-- A marker that is out of the game counts for one. -/
theorem Fewer.settle (h : Fewer tokens tokens') (hnone : token'.triple = none) :
    Fewer (token :: tokens) (token' :: tokens') where
  weight := by
    have hweight := h.weight
    have hpos := token.weight_pos
    have hone : token'.weight = 1 := if_pos hnone
    simp only [weight_cons]
    omega
  triples := by
    simp only [triples_cons, hnone, Option.toList_none, List.nil_append]
    exact h.triples.trans (List.sublist_append_right _ _)

/-- A marker of three for two others. -/
theorem Fewer.split {o : Bool} {c : UInt8} {first second : Nat} (hthree : token.weight = 3)
    (hfirst : first ≠ 3) (hsecond : second ≠ 3) (hnone : token'.triple = none)
    (h : Fewer (newMarker o c first next :: newMarker o c second (next + 1) :: tokens) tokens') :
    Fewer (token :: tokens) (token' :: tokens') where
  weight := by
    have hweight := h.weight
    have hone : token'.weight = 1 := if_pos hnone
    simp only [weight_cons, weight_newMarker hfirst, weight_newMarker hsecond] at hweight ⊢
    omega
  triples := by
    have htriples := h.triples
    simp only [triples_cons, triple_newMarker hfirst, triple_newMarker hsecond, hnone,
      Option.toList_none, List.nil_append] at htriples ⊢
    exact htriples.trans (List.sublist_append_right _ _)

theorem weight_three (hmatchedTo : m.matchedTo = none) (hcannot : m.cannotMatch = false)
    (hthree : m.size = 3) : (SpanToken.marker m).weight = 3 := by
  simp [SpanToken.weight, SpanToken.triple, hmatchedTo, hcannot, hthree]

/-- The search ends. -/
theorem findClose_ends {fuel : Nat} (hopen : 1 ≤ openToken.size ∧ openToken.size ≤ 3)
    (hfuel : weight tokens < fuel) :
    ∃ result, findClose openToken id fuel tokens next = some result ∧ Fewer tokens result.tokens := by
  induction fuel generalizing tokens next with
  | zero => omega
  | succ fuel ih =>
      cases tokens with
      | nil => exact ⟨_, rfl, .refl _⟩
      | cons token tokens =>
          have hpos := token.weight_pos
          rw [weight_cons] at hfuel
          have hskip : ∃ result : Search,
              (findClose openToken id fuel tokens next).map (Search.cons token) = some result ∧
              Fewer (token :: tokens) result.tokens := by
            obtain ⟨result, hrun, hfewer⟩ := @ih tokens next (by omega)
            refine ⟨result.cons token, by rw [hrun]; rfl, ?_⟩
            rw [Search.tokens_cons]
            exact hfewer.cons token
          rw [findClose]
          cases hclose : token.unmatchedCloseMarker with
          | none => exact hskip
          | some m =>
              obtain ⟨rfl, hside, hmatchedTo, hcannot⟩ := unmatchedCloseMarker_eq hclose
              dsimp only
              by_cases hthree : m.size = 3 ∧ openToken.size ≠ 3
              · have hweight := weight_three hmatchedTo hcannot hthree.1
                have hfirst : m.size - openToken.size ≠ 3 := by omega
                obtain ⟨result, hrun, hfewer⟩ :=
                  @ih (newMarker false m.tokenCharacter (m.size - openToken.size) next ::
                    newMarker false m.tokenCharacter openToken.size (next + 1) :: tokens) (next + 2) (by
                      rw [weight_cons, weight_cons, weight_newMarker hfirst, weight_newMarker hthree.2]
                      omega)
                refine ⟨result.cons (.marker m.disable), ?_, ?_⟩
                · rw [if_pos hthree, hrun]
                  rfl
                · rw [Search.tokens_cons]
                  exact hfewer.split hweight hfirst hthree.2 (by simp [SpanToken.triple, BoldOrItalicMarker.disable])
              · rw [if_neg hthree]
                by_cases heq : m.tokenCharacter = openToken.tokenCharacter ∧ m.size = openToken.size
                · rw [if_pos heq]
                  exact ⟨_, rfl, (Fewer.refl tokens).settle (by
                    simp [SpanToken.triple, BoldOrItalicMarker.matched])⟩
                · rw [if_neg heq]
                  by_cases hthree' : openToken.size = 3
                  · rw [if_pos hthree']
                    exact ⟨_, rfl, .refl _⟩
                  · rw [if_neg hthree']
                    exact hskip

end Search

/-- No open-marker of three stands before a close-marker of three with another character. -/
def Agree (marks : List (Bool × UInt8)) : Prop :=
  marks.Pairwise fun first second => first.1 = true → second.1 = false → first.2 = second.2

instance (marks : List (Bool × UInt8)) : Decidable (Agree marks) :=
  inferInstanceAs (Decidable (List.Pairwise _ _))

section Loop

variable {tokens : List SpanToken} {id : Int} {next : Nat}

theorem mem_triples_of_firstClose {m : BoldOrItalicMarker} (h : firstClose tokens = some m)
    (hthree : m.size = 3) : (false, m.tokenCharacter) ∈ triples tokens := by
  obtain ⟨token, hmem, hclose⟩ := List.exists_of_findSome?_eq_some h
  obtain ⟨rfl, hside, hmatchedTo, hcannot⟩ := unmatchedCloseMarker_eq hclose
  refine List.mem_filterMap.mpr ⟨_, hmem, ?_⟩
  simp [SpanToken.triple, hside, hmatchedTo, hcannot, hthree]

/-- The first loop ends. -/
theorem matchMarkers_ends {fuel : Nat} (htidy : Tidy tokens next) (hagree : Agree (triples tokens))
    (hfuel : weight tokens < fuel) : (matchMarkers fuel tokens id next).isSome := by
  induction fuel generalizing tokens id next with
  | zero => omega
  | succ fuel ih =>
      cases tokens with
      | nil => rfl
      | cons token tokens =>
          have hpos := token.weight_pos
          rw [weight_cons] at hfuel
          have hagreeTail : Agree (triples tokens) := by
            rw [triples_cons] at hagree
            exact (List.pairwise_append.mp hagree).2.1
          rw [matchMarkers]
          cases hopen : token.unmatchedOpenMarker with
          | none =>
              dsimp only
              rw [Option.isSome_map]
              exact ih htidy.tail hagreeTail (by omega)
          | some m =>
              obtain ⟨rfl, hside, hmatchedTo, hcannot⟩ := unmatchedOpenMarker_eq hopen
              have hsized := (htidy.sound (.marker m) List.mem_cons_self).1
              obtain ⟨result, hfind, hfewer⟩ := @findClose_ends m id tokens next fuel hsized (by omega)
              have hspec := findClose_spec htidy.tail hsized hfind
              have hweight := hfewer.weight
              have hagree' : Agree (triples result.tokens) := hagreeTail.sublist hfewer.triples
              dsimp only
              rw [hfind]
              cases result with
              | unmatched rest next' =>
                  dsimp only
                  rw [Option.isSome_map]
                  exact ih (hspec.1.tidy htidy.tail) hagree' (by
                    simp only [Search.tokens] at hweight; omega)
              | matched close rest next' =>
                  dsimp only
                  rw [Option.isSome_map]
                  exact ih (hspec.1.tidy htidy.tail) hagree' (by
                    simp only [Search.tokens] at hweight; omega)
              | split size rest next' =>
                  obtain ⟨hkept, _, hthree, hsize, m', hfirst, hm', hother⟩ := hspec
                  have hnot : size ≠ 3 := by
                    intro heq
                    have hclose := mem_triples_of_firstClose hfirst (hm'.trans heq)
                    have hhead : (SpanToken.marker m).triple = some (true, m.tokenCharacter) := by
                      simp [SpanToken.triple, hside, hmatchedTo, hcannot, hthree]
                    rw [triples_cons, hhead] at hagree
                    have hsame := List.rel_of_pairwise_cons hagree (hfewer.triples.subset hclose) rfl rfl
                    exact hother ⟨hsame.symm, by omega⟩
                  have hfirst' : m.size - size ≠ 3 := by omega
                  have hkept' := hkept.cons htidy rfl rfl (htidy.sound _ List.mem_cons_self)
                  have hsplit := (hkept'.tidy htidy).split true
                    (show 1 ≤ m.size - size ∧ m.size - size ≤ 3 by omega) hsize
                  have hthreeWeight := weight_three hmatchedTo hcannot hthree
                  dsimp only
                  rw [Option.isSome_map]
                  refine ih hsplit ?_ ?_
                  · rw [triples_cons, triples_cons, triple_newMarker hfirst', triple_newMarker hnot]
                    exact hagree'
                  · rw [weight_cons, weight_cons, weight_newMarker hfirst', weight_newMarker hnot]
                    simp only [Search.tokens] at hweight
                    omega

end Loop

/-! ### The marks of a text -/

def Span.triple : Span → Option (Bool × UInt8)
  | .text _ => none
  | .mark m => if m.size = 3 then some (m.openMarker, m.tokenCharacter) else none

theorem triples_spanTokens (spans : List Span) (next : Nat) :
    triples (spanTokens spans next).1 = spans.filterMap Span.triple := by
  induction spans generalizing next with
  | nil => rfl
  | cons span spans ih =>
      cases span with
      | text s =>
          rw [spanTokens, triples_cons, ih]
          rfl
      | mark m =>
          rw [spanTokens, triples_cons, ih]
          by_cases h : m.size = 3
          · simp [newMarker, SpanToken.triple, Span.triple, h]
          · simp [newMarker, SpanToken.triple, Span.triple, h]

theorem SpanToken.weight_le (token : SpanToken) : token.weight ≤ 3 := by
  by_cases h : token.triple = none
  · simp [SpanToken.weight, h]
  · simp [SpanToken.weight, h]

theorem weight_spanTokens (spans : List Span) (next : Nat) :
    weight (spanTokens spans next).1 ≤ 3 * spans.length := by
  induction spans generalizing next with
  | nil => exact le_rfl
  | cons span spans ih =>
      cases span with
      | text s =>
          have hrest := ih next
          have hone := (SpanToken.rawText s).weight_le
          rw [spanTokens, weight_cons, List.length_cons]
          omega
      | mark m =>
          have hrest := ih (next + 1)
          have hone := (newMarker m.openMarker m.tokenCharacter m.size next).weight_le
          rw [spanTokens, weight_cons, List.length_cons]
          omega

/-- **The loops end** where the marks of three agree, after three turns for each span. -/
theorem emphasis_ends {fuel : Nat} {spans : List Span} (h : Agree (spans.filterMap Span.triple))
    (hfuel : 3 * spans.length < fuel) : (processBoldAndItalicSpans fuel spans).isSome := by
  have hweight := weight_spanTokens spans 0
  rw [processBoldAndItalicSpans, Option.isSome_map]
  apply matchMarkers_ends (spanTokens_spec spans 0).1
  · rw [triples_spanTokens]
    exact h
  · omega

/-- `***a*b**`. -/
theorem emphasis_ends_example : (processBoldAndItalicSpans 16
    [.mark ⟨true, byte '*', 3, .inl rfl, by decide⟩, .text (lit "a"),
      .mark ⟨false, byte '*', 1, .inl rfl, by decide⟩, .text (lit "b"),
      .mark ⟨false, byte '*', 2, .inl rfl, by decide⟩]).isSome :=
  emphasis_ends (by decide) (by decide)

/-! ### Where they do not -/

section Never

variable {m m' : BoldOrItalicMarker} {tokens before : List SpanToken} {id : Int} {next : Nat}

/-- The close-marker of three is what the search comes back with. -/
theorem findClose_three {fuel : Nat} (hthree : m.size = 3) (hfirst : firstClose tokens = some m')
    (hthree' : m'.size = 3) (hother : m'.tokenCharacter ≠ m.tokenCharacter) :
    findClose m id fuel tokens next = none ∨ findClose m id fuel tokens next = some (.split 3 tokens next) := by
  induction fuel generalizing tokens with
  | zero => exact .inl rfl
  | succ fuel ih =>
      cases tokens with
      | nil => cases hfirst
      | cons token tokens =>
          rw [firstClose, List.findSome?_cons] at hfirst
          rw [findClose]
          cases hclose : token.unmatchedCloseMarker with
          | none =>
              rw [hclose] at hfirst
              obtain hrun | hrun := ih hfirst
              · exact .inl (by rw [hrun]; rfl)
              · exact .inr (by rw [hrun]; rfl)
          | some m'' =>
              rw [hclose] at hfirst
              obtain rfl : m'' = m' := Option.some.inj hfirst
              refine .inr ?_
              simp [hthree, hthree', hother]

theorem matchMarkers_never (fuel : Nat) (hopen : m.isUnmatchedOpenMarker = true) (hthree : m.size = 3)
    (hfirst : firstClose tokens = some m') (hthree' : m'.size = 3)
    (hother : m'.tokenCharacter ≠ m.tokenCharacter) :
    matchMarkers fuel (.marker m :: tokens) id next = none := by
  cases fuel with
  | zero => rfl
  | succ fuel =>
      have hmarker : (SpanToken.marker m).unmatchedOpenMarker = some m := if_pos hopen
      rw [matchMarkers, hmarker]
      dsimp only
      obtain hfind | hfind := @findClose_three m m' tokens id next fuel hthree hfirst hthree' hother
      · rw [hfind]
      · rw [hfind]
        dsimp only
        rw [hthree, matchMarkers_zero hfirst hthree']
        rfl

/-- The tokens that are passed before do not help. -/
theorem matchMarkers_past (hbefore : ∀ token ∈ before, token.unmatchedOpenMarker = none)
    (h : ∀ fuel, matchMarkers fuel tokens id next = none) (fuel : Nat) :
    matchMarkers fuel (before ++ tokens) id next = none := by
  induction before generalizing fuel with
  | nil => exact h fuel
  | cons token before ih =>
      cases fuel with
      | zero => rfl
      | succ fuel =>
          have hrest := ih (fun token' htoken' => hbefore token' (List.mem_cons_of_mem _ htoken')) fuel
          rw [List.cons_append, matchMarkers, hbefore token List.mem_cons_self]
          dsimp only
          rw [hrest]
          rfl

end Never

theorem spanTokens_append (first second : List Span) (next : Nat) :
    (spanTokens (first ++ second) next).1
      = (spanTokens first next).1 ++ (spanTokens second (spanTokens first next).2).1 := by
  induction first generalizing next with
  | nil => rfl
  | cons span first ih =>
      cases span with
      | text s => rw [List.cons_append, spanTokens, spanTokens, ih]; rfl
      | mark m => rw [List.cons_append, spanTokens, spanTokens, ih]; rfl

/-- The side of a mark. -/
def Span.side : Span → Option Bool
  | .text _ => none
  | .mark m => some m.openMarker

theorem mem_spanTokens {spans : List Span} {next : Nat} {token : SpanToken}
    (h : token ∈ (spanTokens spans next).1) : (∃ s, token = .rawText s) ∨
      ∃ m address, .mark m ∈ spans ∧ token = newMarker m.openMarker m.tokenCharacter m.size address := by
  induction spans generalizing next with
  | nil => cases h
  | cons span spans ih =>
      cases span with
      | text s =>
          obtain rfl | h := List.mem_cons.mp h
          · exact .inl ⟨s, rfl⟩
          · obtain htext | ⟨m, address, hmem, heq⟩ := ih h
            · exact .inl htext
            · exact .inr ⟨m, address, List.mem_cons_of_mem _ hmem, heq⟩
      | mark m =>
          obtain rfl | h := List.mem_cons.mp h
          · exact .inr ⟨m, next, List.mem_cons_self, rfl⟩
          · obtain htext | ⟨m', address, hmem, heq⟩ := ih h
            · exact .inl htext
            · exact .inr ⟨m', address, List.mem_cons_of_mem _ hmem, heq⟩

theorem unmatchedOpenMarker_spanTokens {spans : List Span} (h : ∀ span ∈ spans, span.side ≠ some true)
    (next : Nat) : ∀ token ∈ (spanTokens spans next).1, token.unmatchedOpenMarker = none := by
  intro token htoken
  obtain ⟨s, rfl⟩ | ⟨m, address, hmem, rfl⟩ := mem_spanTokens htoken
  · rfl
  · have hside : m.openMarker = false := by simpa [Span.side] using h _ hmem
    rw [hside]
    rfl

theorem firstClose_spanTokens {spans : List Span} (h : ∀ span ∈ spans, span.side ≠ some false)
    (next : Nat) (tokens : List SpanToken) :
    firstClose ((spanTokens spans next).1 ++ tokens) = firstClose tokens := by
  have hnone : (spanTokens spans next).1.findSome? SpanToken.unmatchedCloseMarker = none := by
    apply List.findSome?_eq_none_iff.mpr
    intro token htoken
    obtain ⟨s, rfl⟩ | ⟨m, address, hmem, rfl⟩ := mem_spanTokens htoken
    · rfl
    · have hside : m.openMarker = true := by simpa [Span.side] using h _ hmem
      rw [hside]
      rfl
  rw [firstClose, List.findSome?_append, hnone]
  rfl

/-- **The loops do not end** where an open-marker of three comes to a close-marker of three with
another character. -/
theorem emphasis_never_ends {before mid rest : List Span} {m m' : Mark}
    (hbefore : ∀ span ∈ before, span.side ≠ some true) (hopen : m.openMarker = true) (hthree : m.size = 3)
    (hmid : ∀ span ∈ mid, span.side ≠ some false) (hclose : m'.openMarker = false) (hthree' : m'.size = 3)
    (hother : m'.tokenCharacter ≠ m.tokenCharacter) (fuel : Nat) :
    processBoldAndItalicSpans fuel (before ++ .mark m :: (mid ++ .mark m' :: rest)) = none := by
  rw [processBoldAndItalicSpans, Option.map_eq_none_iff, spanTokens_append]
  apply matchMarkers_past (unmatchedOpenMarker_spanTokens hbefore 0)
  intro fuel
  rw [spanTokens, spanTokens_append, spanTokens]
  exact matchMarkers_never fuel (by simp [BoldOrItalicMarker.isUnmatchedOpenMarker, hopen]) hthree
    (by rw [firstClose_spanTokens hmid, hclose]; rfl) hthree' hother

/-- `***a___`. -/
theorem emphasis_never_ends_example : processBoldAndItalicSpans 1000
    ([] ++ .mark ⟨true, byte '*', 3, .inl rfl, by decide⟩ ::
      ([.text (lit "a")] ++ .mark ⟨false, byte '_', 3, .inr rfl, by decide⟩ :: [])) = none :=
  emphasis_never_ends (by simp) rfl rfl (by simp [Span.side]) rfl rfl (by decide) 1000

end JustEnough
