/-
The stack of the config parser.

Beside its tree `Parse` keeps pointers to the open blocks, a count of them, and the
type of the previous token.  It takes the top of the stack, the last statement of the
block behind it, and pops, without asking whether there is one; what makes that safe is
how the three go together with the tree (`StackInvariant`), before every turn of the
loop (`Iterations`).

The pointers are not followed through the loop.  A state of the loop represents a state
of the machine of `Proofs/Grammar.lean`, where a block that is open is a frame with the
words in front of its brace, so that the depth and the place of every open block can be
read off the frames.  What the machine does not say is that no statement lacks words and
no word is empty (`Partial.Sound`).  That needs a fact about the tokenizer, a token of
type `TOKEN_TYPE_NORMAL` has a character in it (`parseToken_normal_ne_nil`), and it is
what the loader relies on when it reads the first token of a statement
(`WellWorded.of_parse`).
-/
import JustEnough.Proofs.Grammar

namespace JustEnough

/-! ### Statements anywhere in a tree -/

/-- The statement stands in the config itself, or in a block below it. -/
inductive InTree : NginxConfig → NginxConfigStatement → Prop
  | here {config : NginxConfig} {statement : NginxConfigStatement} (h : statement ∈ config) :
      InTree config statement
  | inside {config block : NginxConfig} {outer statement : NginxConfigStatement}
      (hmem : outer ∈ config) (hblock : outer.childBlock = some block) (h : InTree block statement) :
      InTree config statement

/-- There is a token, and no token is empty. -/
def Worded (tokens : List Str) : Prop := tokens ≠ [] ∧ ∀ token ∈ tokens, token ≠ []

/-- So it is for every statement in the tree. -/
def WellWorded (config : NginxConfig) : Prop :=
  ∀ statement, InTree config statement → Worded statement.tokens

theorem wellWorded_nil : WellWorded [] := by
  intro statement h
  cases h with
  | here h => cases h
  | inside hmem _ _ => cases hmem

theorem WellWorded.append {c d : NginxConfig} (hc : WellWorded c) (hd : WellWorded d) :
    WellWorded (c ++ d) := by
  intro statement h
  cases h with
  | here h =>
      rcases List.mem_append.mp h with h | h
      · exact hc statement (.here h)
      · exact hd statement (.here h)
  | inside hmem hblock h =>
      rcases List.mem_append.mp hmem with hmem | hmem
      · exact hc statement (.inside hmem hblock h)
      · exact hd statement (.inside hmem hblock h)

theorem wellWorded_singleton {tokens : List Str} {childBlock : Option NginxConfig}
    (htokens : Worded tokens) (hchild : ∀ block, childBlock = some block → WellWorded block) :
    WellWorded [.mk tokens childBlock] := by
  intro statement h
  cases h with
  | here h =>
      rw [List.mem_singleton.mp h]
      exact htokens
  | inside hmem hblock h =>
      rw [List.mem_singleton.mp hmem] at hblock
      exact hchild _ hblock statement h

/-! ### The turns of the loop -/

/-- The variables at the head of the `while` loop, and the input that is left. -/
inductive Iterations (input : Str) : ParserState → Str → Prop
  | init : Iterations input (.initial []) input
  /-- `continue;` -/
  | comment {st : ParserState} {s value rest : Str} (h : Iterations input st s)
      (htoken : parseToken s = (.comment, value, rest)) : Iterations input st rest
  | turn {st st' : ParserState} {s value rest : Str} {tokenType : TokenType}
      (h : Iterations input st s) (htoken : parseToken s = (tokenType, value, rest))
      (herror : tokenType ≠ .error) (hcomment : tokenType ≠ .comment)
      (hturn : parseTurn st tokenType value = .ok (.next st')) : Iterations input st' rest

/-- They are the turns of `Parse`: it still has the rest of the loop to do. -/
theorem Iterations.parse_eq {input rest : Str} {st : ParserState} (h : Iterations input st rest) :
    parse input = parseFrom st rest := by
  induction h with
  | init => rfl
  | comment _ htoken ih => rw [ih, parseFrom_comment htoken]
  | turn _ htoken herror hcomment hturn ih =>
      rw [ih, parseFrom_turn htoken herror hcomment, hturn]
      rfl

/-- `above` points to the child block of the last statement of the block `below` points to. -/
def IsLastBlock (config : NginxConfig) (above below : Pointer) : Prop :=
  ∃ before tokens block, NginxConfig.deref below config = .ok (before ++ [.mk tokens (some block)]) ∧
    NginxConfig.deref above config = .ok block ∧ above = before.length :: below

/-- How the stack, the count and the previous token go together with the tree. -/
structure StackInvariant (st : ParserState) : Prop where
  depth : (st.configStack.length : Int) = st.bracketParity + 1
  /-- The caller's config is at the bottom. -/
  bottom : st.configStack.getLast? = some []
  /-- From the top down, each entry belongs to the next one. -/
  nested : st.configStack.IsChain (IsLastBlock st.config)
  /-- After a word the top entry ends in a statement with a token and without a block. -/
  normal : st.lastTokenType = .normal → ∃ pointer before tokens, st.top = .ok pointer ∧
    NginxConfig.deref pointer st.config = .ok (before ++ [.mk tokens none]) ∧ tokens ≠ []
  worded : WellWorded st.config

/-- What a turn takes for granted. -/
structure TurnSafe (st : ParserState) (tokenType : TokenType) (value : Str) : Prop where
  /-- There is a top of the stack and a last statement wherever one is used. -/
  defined : ∀ e, parseTurn st tokenType value ≠ .error e
  /-- A pop leaves the caller's config on the stack. -/
  pops : ∀ st', parseTurn st tokenType value = .ok (.next st') → tokenType = .endBlock →
    2 ≤ st.configStack.length
  /-- The statement that gets a block has none. -/
  opens : ∀ st', parseTurn st tokenType value = .ok (.next st') → tokenType = .startBlock →
    ∃ pointer before tokens, st.top = .ok pointer ∧
      NginxConfig.deref pointer st.config = .ok (before ++ [.mk tokens none])

/-! ### A machine whose words are there -/

/-- Every statement of the machine has its words. -/
structure Partial.Sound (p : Partial) : Prop where
  /-- The blocks still open have words in front of their brace. -/
  frames : ∀ frame ∈ p.frames, WellWorded frame.before ∧ Worded frame.words
  done : WellWorded p.done
  words : ∀ w ∈ p.words, w ≠ []

namespace Partial.Sound

variable {p p' : Partial}

theorem start : Partial.start.Sound :=
  ⟨by simp [Partial.start], wellWorded_nil, by simp [Partial.start]⟩

theorem next {t : Token} (h : p.Sound) (ht : ∀ w, t = .word w → w ≠ [])
    (hnext : p.next t = some p') : p'.Sound := by
  cases t with
  | word w =>
      obtain rfl := Option.some.inj hnext
      refine ⟨h.frames, h.done, fun v hv => ?_⟩
      rcases List.mem_append.mp hv with hv | hv
      · exact h.words v hv
      · rw [List.mem_singleton.mp hv]
        exact ht w rfl
  | semicolon =>
      obtain ⟨hwords, hsome⟩ := Option.ite_none_left_eq_some.mp hnext
      obtain rfl := Option.some.inj hsome
      have hlast : WellWorded [.mk p.words none] :=
        wellWorded_singleton ⟨hwords, h.words⟩ fun block hblock => by cases hblock
      exact ⟨h.frames, h.done.append hlast, by simp⟩
  | openBrace =>
      obtain ⟨hwords, hsome⟩ := Option.ite_none_left_eq_some.mp hnext
      obtain rfl := Option.some.inj hsome
      refine ⟨fun frame hframe => ?_, wellWorded_nil, by simp⟩
      rcases List.mem_cons.mp hframe with hframe | hframe
      · rw [hframe]
        exact ⟨h.done, hwords, h.words⟩
      · exact h.frames frame hframe
  | closeBrace =>
      rcases hframes : p.frames with _ | ⟨frame, frames⟩
      · simp [Partial.next, hframes] at hnext
      · by_cases hwords : p.words = []
        · have hsome :
              some ⟨frames, frame.before ++ [.mk frame.words (some p.done)], []⟩ = some p' := by
            rw [← hnext]
            simp [Partial.next, hframes, hwords]
          obtain rfl := Option.some.inj hsome
          have hall := h.frames
          rw [hframes] at hall
          obtain ⟨hbefore, hfwords⟩ := hall frame (by simp)
          have hlast : WellWorded [.mk frame.words (some p.done)] :=
            wellWorded_singleton hfwords fun block hblock => Option.some.inj hblock ▸ h.done
          exact ⟨fun other hother => hall other (by simp [hother]), hbefore.append hlast, by simp⟩
        · simp [Partial.next, hframes, hwords] at hnext

end Partial.Sound

/-- Frames with their words around a block with its own. -/
theorem wellWorded_plug {frames : List Frame} {c : NginxConfig}
    (hframes : ∀ frame ∈ frames, WellWorded frame.before ∧ Worded frame.words)
    (hc : WellWorded c) : WellWorded (plug frames c) := by
  induction frames generalizing c with
  | nil => exact hc
  | cons frame frames ih =>
      obtain ⟨hbefore, hwords⟩ := hframes frame (by simp)
      have hlast : WellWorded [.mk frame.words (some c)] :=
        wellWorded_singleton hwords fun block hblock => Option.some.inj hblock ▸ hc
      exact ih (fun other hother => hframes other (by simp [hother])) (hbefore.append hlast)

/-! ### What the frames say about the stack -/

theorem getLast?_tails {α : Type} (l : List α) : l.tails.getLast? = some [] := by
  induction l with
  | nil => rfl
  | cons a l ih => simp [List.getLast?_cons, ih]

theorem isChain_blockPtr (frames : List Frame) (c : NginxConfig) :
    (frames.tails.map blockPtr).IsChain (IsLastBlock (plug frames c)) := by
  induction frames generalizing c with
  | nil => simp
  | cons frame frames ih =>
      have hrest := ih (frame.before ++ [.mk frame.words (some c)])
      have hlast : IsLastBlock (plug (frame :: frames) c) (blockPtr (frame :: frames))
          (blockPtr frames) :=
        ⟨frame.before, frame.words, c, deref_plug frames _, deref_plug (frame :: frames) c, rfl⟩
      cases frames with
      | nil => exact List.isChain_cons_cons.mpr ⟨hlast, hrest⟩
      | cons next frames => exact List.isChain_cons_cons.mpr ⟨hlast, hrest⟩

section Stack

variable {p : Partial} {st : ParserState}

/-- **A state that represents a sound machine has its stack in order.** -/
theorem Represents.stackInvariant (h : Represents p st) (hsound : p.Sound) : StackInvariant st where
  depth := by
    rw [h.stack, h.parity, List.length_map, List.length_tails]
    omega
  bottom := by
    rw [h.stack, List.getLast?_map, getLast?_tails]
    rfl
  nested := by
    rw [h.stack, h.config]
    exact isChain_blockPtr p.frames _
  normal := by
    intro hnormal
    have hwords := h.normal_iff.mp hnormal
    refine ⟨blockPtr p.frames, p.done, p.words, top_eq h.stack, ?_, hwords⟩
    rw [h.within hwords, deref_plug]
  worded := by
    rw [h.config]
    apply wellWorded_plug hsound.frames
    apply hsound.done.append
    unfold Partial.unfinished
    split
    · exact wellWorded_nil
    · rename_i hwords
      exact wellWorded_singleton ⟨hwords, hsound.words⟩ fun block hblock => by cases hblock

end Stack

/-! ### One turn -/

/-- A token of that type has a character, whatever the state it was begun in. -/
theorem parseTokenFrom_normal_ne_nil {state : TokenParserState} {value input token rest : Str}
    (hvalue : state = .tokenTypeNormal → value ≠ [])
    (h : parseTokenFrom state value input = (.normal, token, rest)) : token ≠ [] := by
  fun_induction parseTokenFrom state value input
  all_goals simp_all
  -- What is left are the closing quotes, which are part of the token.
  all_goals
    rw [← h.1]
    simp

theorem parseToken_normal_ne_nil {input token rest : Str}
    (h : parseToken input = (.normal, token, rest)) : token ≠ [] := by
  refine parseTokenFrom_normal_ne_nil ?_ h
  intro hstate
  cases hstate

section Turn

variable {p : Partial} {st : ParserState} {tokenType : TokenType} {value : Str}

/-- A turn is one for a token of the grammar, or the loop ends with it. -/
theorem parseTurn_cases (st : ParserState) (tokenType : TokenType) (value : Str) :
    (∃ t : Token, (∀ w, t = .word w → tokenType = .normal ∧ w = value) ∧
      parseTurn st tokenType value = parseTurn st t.type t.value) ∨
    parseTurn st tokenType value = .ok .bad ∨ parseTurn st tokenType value = .ok .accept := by
  cases tokenType with
  | normal => exact Or.inl ⟨.word value, by simp, rfl⟩
  | statementEnd => exact Or.inl ⟨.semicolon, by simp, rfl⟩
  | startBlock => exact Or.inl ⟨.openBrace, by simp, rfl⟩
  | endBlock => exact Or.inl ⟨.closeBrace, by simp, rfl⟩
  | start => exact Or.inr (Or.inl rfl)
  | comment => exact Or.inr (Or.inl rfl)
  | error => exact Or.inr (Or.inl rfl)
  | eof =>
      simp only [parseTurn]
      split
      · simp
      · split <;> simp

/-- A turn that goes on is a move of the machine, and a turn that does not ends the loop. -/
theorem Represents.turn_cases (h : Represents p st) (tokenType : TokenType) (value : Str) :
    (∃ t p' st', (∀ w, t = .word w → tokenType = .normal ∧ w = value) ∧ p.next t = some p' ∧
      parseTurn st tokenType value = .ok (.next st') ∧ Represents p' st') ∨
    parseTurn st tokenType value = .ok .bad ∨ parseTurn st tokenType value = .ok .accept := by
  rcases parseTurn_cases st tokenType value with ⟨t, hword, ht⟩ | hends
  · rw [ht]
    rcases parseTurn_represents h t with ⟨p', st', hnext, hturn, h'⟩ | ⟨-, hturn⟩
    · exact Or.inl ⟨t, p', st', hword, hnext, hturn, h'⟩
    · exact Or.inr (Or.inl hturn)
  · exact Or.inr hends

theorem Represents.turn_defined (h : Represents p st) (tokenType : TokenType) (value : Str) :
    ∀ e, parseTurn st tokenType value ≠ .error e := by
  intro e
  rcases h.turn_cases tokenType value with ⟨-, -, st', -, -, hturn, -⟩ | hturn | hturn
  · simp [hturn]
  · simp [hturn]
  · simp [hturn]

/-- **A turn that goes on leads to a sound machine again.** -/
theorem Represents.turn_sound {st' : ParserState} (h : Represents p st) (hsound : p.Sound)
    (hvalue : tokenType = .normal → value ≠ [])
    (hturn : parseTurn st tokenType value = .ok (.next st')) :
    ∃ p', Represents p' st' ∧ p'.Sound := by
  rcases h.turn_cases tokenType value with ⟨t, p', st'', hword, hnext, hgoes, h'⟩ | hends | hends
  · obtain rfl : st'' = st' := by simpa [hgoes] using hturn
    refine ⟨p', h', hsound.next (fun w hw => ?_) hnext⟩
    obtain ⟨hnormal, rfl⟩ := hword w hw
    exact hvalue hnormal
  · simp [hends] at hturn
  · simp [hends] at hturn

/-- With the stack in order, a pop and a new block find what they need. -/
theorem StackInvariant.turnSafe (h : StackInvariant st)
    (hdefined : ∀ e, parseTurn st tokenType value ≠ .error e) : TurnSafe st tokenType value where
  defined := hdefined
  pops := by
    intro st' hturn htype
    subst htype
    have hparity : ¬st.bracketParity ≤ 0 := by
      intro hparity
      simp only [parseTurn, if_pos hparity, ite_self] at hturn
      cases Except.ok.inj hturn
    have hdepth := h.depth
    omega
  opens := by
    intro st' hturn htype
    subst htype
    have hnormal : st.lastTokenType = .normal := by
      by_contra hother
      simp only [parseTurn, if_pos hother] at hturn
      cases Except.ok.inj hturn
    obtain ⟨pointer, before, tokens, htop, hlast, -⟩ := h.normal hnormal
    exact ⟨pointer, before, tokens, htop, hlast⟩

end Turn

/-! ### All turns -/

section Run

variable {input rest : Str} {st : ParserState}

theorem Iterations.sound (h : Iterations input st rest) : ∃ p, Represents p st ∧ p.Sound := by
  induction h with
  | init => exact ⟨.start, Represents.start, Partial.Sound.start⟩
  | comment _ _ ih => exact ih
  | turn _ htoken _ _ hturn ih =>
      obtain ⟨p, hrep, hsound⟩ := ih
      refine hrep.turn_sound hsound (fun hnormal => ?_) hturn
      rw [hnormal] at htoken
      exact parseToken_normal_ne_nil htoken

/-- Whatever the loop returns, it returns it with the tree of one of its turns. -/
theorem Iterations.ends (h : Iterations input st rest) :
    ∃ valid st' rest', Iterations input st' rest' ∧ parseFrom st rest = .ok (valid, st'.config) := by
  induction hn : rest.length using Nat.strong_induction_on generalizing st rest with
  | _ n ih =>
      subst hn
      rcases htoken : parseToken rest with ⟨tokenType, value, rest'⟩
      by_cases herror : tokenType = .error
      · rw [herror] at htoken
        exact ⟨false, st, rest, h, parseFrom_error htoken⟩
      by_cases hcomment : tokenType = .comment
      · rw [hcomment] at htoken
        rw [parseFrom_comment htoken]
        exact ih _ (parseToken_lt htoken (by simp)) (.comment h htoken) rfl
      rw [parseFrom_turn htoken herror hcomment]
      rcases hturn : parseTurn st tokenType value with e | turn
      · obtain ⟨p, hrep, -⟩ := h.sound
        exact absurd hturn (hrep.turn_defined tokenType value e)
      rcases turn with st' | _ | _
      · have heof : tokenType ≠ .eof := by
          intro heof
          rw [heof] at hturn
          exact parseTurn_eof hturn
        exact ih _ (parseToken_lt htoken heof) (.turn h htoken herror hcomment hturn) rfl
      · exact ⟨true, st, rest, h, rfl⟩
      · exact ⟨false, st, rest, h, rfl⟩

/-- **Whatever the parser makes of a text, it leaves statements with words.** -/
theorem WellWorded.of_parse {valid : Bool} {config : NginxConfig}
    (h : parse input = .ok (valid, config)) : WellWorded config := by
  obtain ⟨valid', st, rest, hturn, hends⟩ := (@Iterations.init input).ends
  have hparse : parse input = .ok (valid', st.config) := hends
  rw [h] at hparse
  obtain ⟨-, rfl⟩ := Prod.mk.inj (Except.ok.inj hparse)
  obtain ⟨p, hrep, hsound⟩ := hturn.sound
  exact (hrep.stackInvariant hsound).worded

end Run

/--
**The stack of the parser.**  Before and after every turn of the loop the stack, the count
and the previous token go together with the tree, and the next turn finds what it needs.
So `Parse` always returns, and every statement in the tree it leaves has a first token,
whether it has accepted the text or not.
-/
theorem parser_stack_invariant (input : Str) :
    (∀ st rest, Iterations input st rest → parse input = parseFrom st rest ∧ StackInvariant st ∧
      ∀ tokenType value rest', parseToken rest = (tokenType, value, rest') →
        TurnSafe st tokenType value) ∧
      ∃ valid config, parse input = .ok (valid, config) ∧ WellWorded config := by
  constructor
  · intro st rest h
    obtain ⟨p, hrep, hsound⟩ := h.sound
    have hstack := hrep.stackInvariant hsound
    exact ⟨h.parse_eq, hstack,
      fun tokenType value _ _ => hstack.turnSafe (hrep.turn_defined tokenType value)⟩
  · obtain ⟨valid, config, hparse⟩ := parse_total input
    exact ⟨valid, config, hparse, .of_parse hparse⟩

end JustEnough
