/-
The parser accepts the config grammar and builds the derivation tree.

    config    ::= statement+
    statement ::= word+ (';' | '{' statement* '}')

Between the grammar and the code stands a machine (`Partial`) that keeps what an
unfinished config consists of: for each block still open the statements before it and
the words in front of its brace, then the statements finished in the innermost block,
then the words of a statement that has not ended.  The code holds the same
information in another form.  Its tree already contains the open blocks, its stack
holds pointers down the last statement of each, and a counter and the previous token
say where it is (`Represents`).

One turn of the parser is one move of the machine, or a rejection by both
(`parseTurn_represents`), so a whole run is a run of the machine.  The machine reads
exactly the grammar: a move keeps that the tokens so far derive what the machine
holds (`Partial.Reads`), and a derivation drives it to the end
(`IsBlock.run`).
-/
import JustEnough.Proofs.Lexer

namespace JustEnough

/-! ### The grammar and its trees -/

mutual

inductive IsStatement : List Token → NginxConfigStatement → Prop
  | simple {words : List Str} (hwords : words ≠ []) :
      IsStatement (words.map .word ++ [.semicolon]) (.mk words none)
  | block {words : List Str} {ts : List Token} {child : List NginxConfigStatement}
      (hwords : words ≠ []) (h : IsBlock ts child) :
      IsStatement (words.map .word ++ .openBrace :: (ts ++ [.closeBrace])) (.mk words (some child))

/-- `statement*` -/
inductive IsBlock : List Token → List NginxConfigStatement → Prop
  | nil : IsBlock [] []
  | cons {ts us : List Token} {statement : NginxConfigStatement}
      {rest : List NginxConfigStatement} (h : IsStatement ts statement) (hrest : IsBlock us rest) :
      IsBlock (ts ++ us) (statement :: rest)

end

/-- `statement+` -/
def IsConfig (ts : List Token) (c : NginxConfig) : Prop := IsBlock ts c ∧ c ≠ []

theorem IsBlock.append {ts us : List Token} {c d : NginxConfig} (h : IsBlock ts c)
    (h' : IsBlock us d) : IsBlock (ts ++ us) (c ++ d) := by
  induction c generalizing ts with
  | nil =>
      cases h
      exact h'
  | cons s c ih =>
      cases h with
      | cons hs hc =>
          rw [List.append_assoc]
          exact .cons hs (ih hc)

theorem IsStatement.toBlock {ts : List Token} {s : NginxConfigStatement} (h : IsStatement ts s) :
    IsBlock ts [s] := by
  simpa using IsBlock.cons h .nil

/-! ### A machine that reads it -/

/-- A block still open: the statements before it, and the words in front of its brace. -/
structure Frame where
  before : NginxConfig
  words : List Str

/-- A config read so far. -/
structure Partial where
  /-- The open blocks, innermost first. -/
  frames : List Frame
  /-- The finished statements of the innermost open block. -/
  done : NginxConfig
  /-- The words of a statement that has not ended. -/
  words : List Str

namespace Partial

def start : Partial := ⟨[], [], []⟩

def next (p : Partial) : Token → Option Partial
  | .word w => some { p with words := p.words ++ [w] }
  | .semicolon =>
    if p.words = [] then none else some ⟨p.frames, p.done ++ [.mk p.words none], []⟩
  | .openBrace =>
    if p.words = [] then none else some ⟨⟨p.done, p.words⟩ :: p.frames, [], []⟩
  | .closeBrace =>
    match p.frames with
    | [] => none
    | frame :: frames =>
      if p.words = [] then some ⟨frames, frame.before ++ [.mk frame.words (some p.done)], []⟩
      else none

def run (p : Partial) (ts : List Token) : Option Partial := ts.foldlM next p

/-- Nothing is open, and there is at least one statement. -/
def Complete (p : Partial) : Prop := p.frames = [] ∧ p.words = [] ∧ p.done ≠ []

@[simp] theorem run_nil (p : Partial) : p.run [] = some p := rfl

theorem run_append (p : Partial) (ts us : List Token) :
    p.run (ts ++ us) = (p.run ts).bind (run · us) := by
  simp [run, List.foldlM_append]

theorem run_cons (p : Partial) (t : Token) (ts : List Token) :
    p.run (t :: ts) = (p.next t).bind (run · ts) := rfl

theorem run_words (p : Partial) (ws : List Str) :
    p.run (ws.map .word) = some { p with words := p.words ++ ws } := by
  induction ws generalizing p with
  | nil => simp
  | cons w ws ih => simp [run_cons, next, ih]

/-! ### A derivation drives the machine to its end -/

mutual

theorem run_statement {ts : List Token} {s : NginxConfigStatement} (h : IsStatement ts s)
    (frames : List Frame) (done : NginxConfig) :
    run ⟨frames, done, []⟩ ts = some ⟨frames, done ++ [s], []⟩ := by
  cases h with
  | simple hwords => simp [run_append, run_words, run_cons, next, hwords]
  | block hwords h =>
      simp [run_append, run_words, run_cons, next, hwords, run_block h]

theorem run_block {ts : List Token} {c : List NginxConfigStatement} (h : IsBlock ts c)
    (frames : List Frame) (done : NginxConfig) :
    run ⟨frames, done, []⟩ ts = some ⟨frames, done ++ c, []⟩ := by
  cases h with
  | nil => simp
  | cons h hrest => simp [run_append, run_statement h, run_block hrest]

end

/-! ### A run of the machine is a derivation -/

/-- The tokens up to the innermost open brace. -/
inductive FramesRead : List Frame → List Token → Prop
  | nil : FramesRead [] []
  | cons {frames : List Frame} {ts us : List Token} {frame : Frame} (h : FramesRead frames ts)
      (hbefore : IsBlock us frame.before) (hwords : frame.words ≠ []) :
      FramesRead (frame :: frames) (ts ++ us ++ frame.words.map .word ++ [.openBrace])

/-- The tokens read so far derive what the machine holds. -/
def Reads (p : Partial) (ts : List Token) : Prop :=
  ∃ opened us, FramesRead p.frames opened ∧ IsBlock us p.done ∧
    ts = opened ++ us ++ p.words.map .word

theorem Reads.start : Reads start [] := ⟨[], [], .nil, .nil, rfl⟩

theorem Reads.next {p p' : Partial} {ts : List Token} {t : Token} (h : p.Reads ts)
    (hnext : p.next t = some p') : p'.Reads (ts ++ [t]) := by
  obtain ⟨opened, us, hopened, hus, rfl⟩ := h
  cases t with
  | word w =>
      obtain rfl := Option.some.inj hnext
      exact ⟨opened, us, hopened, hus, by simp⟩
  | semicolon =>
      obtain ⟨hwords, hsome⟩ := Option.ite_none_left_eq_some.mp hnext
      obtain rfl := Option.some.inj hsome
      exact ⟨opened, _, hopened, hus.append (IsStatement.simple hwords).toBlock, by simp⟩
  | openBrace =>
      obtain ⟨hwords, hsome⟩ := Option.ite_none_left_eq_some.mp hnext
      obtain rfl := Option.some.inj hsome
      exact ⟨_, [], .cons hopened hus hwords, .nil, by simp⟩
  | closeBrace =>
      simp only [Partial.next] at hnext
      split at hnext
      · cases hnext
      · rename_i frame frames hframes
        split at hnext
        · rename_i hwords
          obtain rfl := Option.some.inj hnext
          rw [hframes] at hopened
          cases hopened with
          | cons hopened hbefore hfwords =>
              exact ⟨_, _, hopened, hbefore.append (IsStatement.block hfwords hus).toBlock,
                by simp [hwords]⟩
        · cases hnext

theorem Reads.run {p p' : Partial} {ts us : List Token} (h : p.Reads ts)
    (hrun : p.run us = some p') : p'.Reads (ts ++ us) := by
  induction us generalizing p ts with
  | nil =>
      obtain rfl : p = p' := by simpa using hrun
      simpa using h
  | cons t us ih =>
      rw [run_cons, Option.bind_eq_some_iff] at hrun
      obtain ⟨q, hq, hrun⟩ := hrun
      simpa using ih (h.next hq) hrun

/-- **The machine reads exactly the grammar.** -/
theorem isConfig_iff (ts : List Token) (c : NginxConfig) :
    IsConfig ts c ↔ ∃ p, start.run ts = some p ∧ p.Complete ∧ p.done = c := by
  constructor
  · rintro ⟨h, hne⟩
    exact ⟨⟨[], c, []⟩, run_block h [] [], ⟨rfl, rfl, hne⟩, rfl⟩
  · rintro ⟨p, hrun, ⟨hframes, hwords, hne⟩, rfl⟩
    obtain ⟨opened, us, hopened, hus, hts⟩ := Reads.start.run hrun
    rw [hframes] at hopened
    cases hopened
    obtain rfl : ts = us := by simpa [hwords] using hts
    exact ⟨hus, hne⟩

end Partial

/-! ### What the code holds instead -/

/-- The tree with the open blocks in it, `c` being the content of the innermost. -/
def plug : List Frame → NginxConfig → NginxConfig
  | [], c => c
  | frame :: frames, c => plug frames (frame.before ++ [.mk frame.words (some c)])

/-- The pointer to the innermost open block. -/
def blockPtr (frames : List Frame) : Pointer := frames.map (·.before.length)

theorem deref_cons_of_ok {i : Nat} {parent : Pointer} {config block : NginxConfig}
    (h : NginxConfig.deref parent config = .ok block) :
    NginxConfig.deref (i :: parent) config = NginxConfig.childOf i block := by
  simp [NginxConfig.deref, h]

theorem deref_plug (frames : List Frame) (c : NginxConfig) :
    NginxConfig.deref (blockPtr frames) (plug frames c) = .ok c := by
  induction frames generalizing c with
  | nil => rfl
  | cons frame frames ih =>
      refine (deref_cons_of_ok (ih _)).trans ?_
      simp [NginxConfig.childOf]

theorem modifyAt_plug (frames : List Frame) (f : NginxConfig → Except Fault NginxConfig)
    (c : NginxConfig) :
    NginxConfig.modifyAt (blockPtr frames) f (plug frames c) = (f c).map (plug frames) := by
  induction frames generalizing f c with
  | nil => cases h : f c <;> simp [blockPtr, plug, NginxConfig.modifyAt, Except.map, h]
  | cons frame frames ih =>
      show NginxConfig.modifyAt (blockPtr frames) (NginxConfig.modifyChild frame.before.length f)
        (plug frames _) = _
      rw [ih]
      cases h : f c <;> simp [NginxConfig.modifyChild, Except.map, h, plug]

theorem modifyBack_append (f : NginxConfigStatement → NginxConfigStatement) (c : NginxConfig)
    (s : NginxConfigStatement) : NginxConfig.modifyBack f (c ++ [s]) = .ok (c ++ [f s]) := by
  simp [NginxConfig.modifyBack]

namespace Partial

/-- The statement that has not ended, as it stands in the tree. -/
def unfinished (p : Partial) : NginxConfig := if p.words = [] then [] else [.mk p.words none]

/-- The types the previous token can have. -/
def lastTypes (p : Partial) : List TokenType :=
  if p.words ≠ [] then [.normal]
  else if p.done ≠ [] then [.statementEnd, .endBlock]
  else if p.frames ≠ [] then [.startBlock]
  else [.start]

end Partial

/-- The parser's variables hold what the machine holds. -/
structure Represents (p : Partial) (st : ParserState) : Prop where
  config : st.config = plug p.frames (p.done ++ p.unfinished)
  stack : st.configStack = p.frames.tails.map blockPtr
  last : st.lastTokenType ∈ p.lastTypes
  parity : st.bracketParity = p.frames.length

theorem Represents.start : Represents .start (.initial []) :=
  ⟨rfl, rfl, by decide, rfl⟩

section Turn

variable {frames : List Frame} {c : NginxConfig} {st : ParserState}

theorem top_eq (hstack : st.configStack = frames.tails.map blockPtr) :
    st.top = .ok (blockPtr frames) := by
  unfold ParserState.top
  cases frames <;> simp [hstack]

theorem modifyTop_eq (hconfig : st.config = plug frames c)
    (hstack : st.configStack = frames.tails.map blockPtr)
    (f : NginxConfig → Except Fault NginxConfig) :
    st.modifyTop f = (f c).map fun c' => { st with config := plug frames c' } := by
  unfold ParserState.modifyTop
  rw [top_eq hstack, hconfig]
  show (NginxConfig.modifyAt (blockPtr frames) f (plug frames c) >>= fun config => _) = _
  rw [modifyAt_plug]
  cases f c <;> rfl

theorem pushToken_first (hlast : st.lastTokenType ≠ .normal) (hconfig : st.config = plug frames c)
    (hstack : st.configStack = frames.tails.map blockPtr) (token : Str) :
    st.pushToken token
      = .ok { st with config := plug frames (c ++ [.mk [token] none]) } := by
  unfold ParserState.pushToken
  rw [if_pos hlast, modifyTop_eq hconfig hstack]
  refine (@modifyTop_eq frames (c ++ [.mk [] none])
    { st with config := plug frames (c ++ [.mk [] none]) } rfl hstack _).trans ?_
  rw [modifyBack_append]
  rfl

theorem pushToken_more {words : List Str} (hlast : st.lastTokenType = .normal)
    (hconfig : st.config = plug frames (c ++ [.mk words none]))
    (hstack : st.configStack = frames.tails.map blockPtr) (token : Str) :
    st.pushToken token
      = .ok { st with config := plug frames (c ++ [.mk (words ++ [token]) none]) } := by
  unfold ParserState.pushToken
  rw [if_neg (by simp [hlast])]
  show st.modifyTop _ = _
  rw [modifyTop_eq hconfig hstack, modifyBack_append]
  rfl

theorem openBlock_eq {words : List Str} (hconfig : st.config = plug frames (c ++ [.mk words none]))
    (hstack : st.configStack = frames.tails.map blockPtr) :
    st.openBlock = .ok { st with
      config := plug (⟨c, words⟩ :: frames) []
      configStack := ((⟨c, words⟩ : Frame) :: frames).tails.map blockPtr
      bracketParity := st.bracketParity + 1 } := by
  have hmodify : st.modifyTop (NginxConfig.modifyBack (·.resetChild))
      = .ok { st with config := plug (⟨c, words⟩ :: frames) [] } := by
    rw [modifyTop_eq hconfig hstack, modifyBack_append]
    rfl
  have hderef : NginxConfig.deref (blockPtr frames) st.config = .ok (c ++ [.mk words none]) := by
    rw [hconfig, deref_plug]
  unfold ParserState.openBlock
  rw [top_eq hstack, hmodify]
  show (NginxConfig.deref (blockPtr frames) st.config >>= fun block => _) = _
  rw [hderef]
  simp [Bind.bind, Except.bind, Pure.pure, Except.pure, blockPtr, hstack]

end Turn

/-! ### One turn of the parser is one move of the machine -/

/-- Both go on, and still agree, or both reject. -/
def TurnAgrees (p : Partial) (st : ParserState) (t : Token) : Prop :=
  (∃ p' st', p.next t = some p' ∧ parseTurn st t.type t.value = .ok (.next st') ∧
    Represents p' st') ∨
  (p.next t = none ∧ parseTurn st t.type t.value = .ok .bad)

section Agrees

variable {p : Partial} {st : ParserState}

theorem Represents.normal_iff (h : Represents p st) : st.lastTokenType = .normal ↔ p.words ≠ [] := by
  have hlast := h.last
  unfold Partial.lastTypes at hlast
  split_ifs at hlast <;> simp_all
  rcases hlast with hlast | hlast <;> simp [hlast]

theorem Represents.between (h : Represents p st) (hwords : p.words = []) :
    st.config = plug p.frames p.done := by
  simpa [Partial.unfinished, hwords] using h.config

theorem Represents.within (h : Represents p st) (hwords : p.words ≠ []) :
    st.config = plug p.frames (p.done ++ [.mk p.words none]) := by
  simpa [Partial.unfinished, hwords] using h.config

theorem Represents.word (h : Represents p st) (w : Str) : TurnAgrees p st (.word w) := by
  have hany : st.lastTokenType ∈ [.start, .statementEnd, .startBlock, .endBlock, .normal] := by
    have hlast := h.last
    unfold Partial.lastTypes at hlast
    split_ifs at hlast <;> simp_all
    rcases hlast with hlast | hlast <;> simp [hlast]
  refine Or.inl ⟨_, { st with
    config := plug p.frames (p.done ++ [.mk (p.words ++ [w]) none]), lastTokenType := .normal },
    rfl, ?_, ?_⟩
  · have hpush : st.pushToken w = .ok { st with
        config := plug p.frames (p.done ++ [.mk (p.words ++ [w]) none]) } := by
      by_cases hwords : p.words = []
      · rw [pushToken_first (fun hn => h.normal_iff.mp hn hwords) (h.between hwords) h.stack]
        simp [hwords]
      · exact pushToken_more (h.normal_iff.mpr hwords) (h.within hwords) h.stack w
    simp only [Token.type, Token.value, parseTurn, if_pos hany, hpush]
    rfl
  · exact ⟨by simp [Partial.unfinished], h.stack, by simp [Partial.lastTypes], h.parity⟩

theorem Represents.semicolon (h : Represents p st) : TurnAgrees p st .semicolon := by
  by_cases hwords : p.words = []
  · refine Or.inr ⟨by simp [Partial.next, hwords], ?_⟩
    have hlast : st.lastTokenType ≠ .normal := fun hn => h.normal_iff.mp hn hwords
    simp [Token.type, parseTurn, hlast]
  · refine Or.inl ⟨_, { st with lastTokenType := .statementEnd }, if_neg hwords, ?_, ?_⟩
    · simp [Token.type, parseTurn, h.normal_iff.mpr hwords]
    · exact ⟨by simpa [Partial.unfinished] using h.within hwords, h.stack,
        by simp [Partial.lastTypes], h.parity⟩

theorem Represents.openBrace (h : Represents p st) : TurnAgrees p st .openBrace := by
  by_cases hwords : p.words = []
  · refine Or.inr ⟨by simp [Partial.next, hwords], ?_⟩
    have hlast : st.lastTokenType ≠ .normal := fun hn => h.normal_iff.mp hn hwords
    simp [Token.type, parseTurn, hlast]
  · refine Or.inl ⟨_, { st with
      config := plug (⟨p.done, p.words⟩ :: p.frames) []
      configStack := ((⟨p.done, p.words⟩ : Frame) :: p.frames).tails.map blockPtr
      lastTokenType := .startBlock
      bracketParity := st.bracketParity + 1 }, if_neg hwords, ?_, ?_⟩
    · simp only [Token.type, parseTurn]
      rw [if_neg (by simp [h.normal_iff.mpr hwords]), openBlock_eq (h.within hwords) h.stack]
      rfl
    · exact ⟨by simp [Partial.unfinished], rfl, by simp [Partial.lastTypes],
        by simp [h.parity]⟩

theorem Represents.closeBrace (h : Represents p st) : TurnAgrees p st .closeBrace := by
  by_cases hwords : p.words = []
  · cases hframes : p.frames with
    | nil =>
        refine Or.inr ⟨by simp [Partial.next, hframes], ?_⟩
        have hparity : st.bracketParity ≤ 0 := by simp [h.parity, hframes]
        simp [Token.type, parseTurn, hparity]
    | cons frame frames =>
        have hlast : st.lastTokenType ∈ [.statementEnd, .endBlock, .startBlock] := by
          have hlast := h.last
          simp only [Partial.lastTypes, hwords, hframes] at hlast
          split_ifs at hlast <;> simp_all
          rcases hlast with hlast | hlast <;> simp [hlast]
        have hparity : ¬st.bracketParity ≤ 0 := by
          rw [h.parity, hframes, List.length_cons]
          omega
        refine Or.inl ⟨⟨frames, frame.before ++ [.mk frame.words (some p.done)], []⟩,
          { st.closeBlock with lastTokenType := .endBlock }, ?_, ?_, ?_⟩
        · simp [Partial.next, hframes, hwords]
        · simp only [Token.type, parseTurn]
          rw [if_neg (not_not.mpr hlast), if_neg hparity]
        · refine ⟨?_, ?_, by simp [Partial.lastTypes], ?_⟩
          · simpa [hframes, plug, Partial.unfinished, ParserState.closeBlock] using h.between hwords
          · simp [ParserState.closeBlock, h.stack, hframes]
          · simp [ParserState.closeBlock, h.parity, hframes]
  · refine Or.inr ⟨?_, ?_⟩
    · simp only [Partial.next]
      split <;> simp [hwords]
    · simp [Token.type, parseTurn, h.normal_iff.mpr hwords]

/-- **One turn of the parser is one move of the machine.** -/
theorem parseTurn_represents (h : Represents p st) (t : Token) : TurnAgrees p st t := by
  cases t with
  | word w => exact h.word w
  | semicolon => exact h.semicolon
  | openBrace => exact h.openBrace
  | closeBrace => exact h.closeBrace

/-- The end of the input is accepted exactly when the machine is complete. -/
theorem atEof_represents (h : Represents p st) :
    p.Complete ∧ atEof st = .ok (true, p.done) ∨
      ¬p.Complete ∧ atEof st = .ok (false, st.config) := by
  by_cases hc : p.Complete
  · obtain ⟨hframes, hwords, hdone⟩ := hc
    refine Or.inl ⟨⟨hframes, hwords, hdone⟩, ?_⟩
    have hlast := h.last
    rw [Partial.lastTypes, if_neg (not_not.mpr hwords), if_pos hdone] at hlast
    have hparity : st.bracketParity = 0 := by simp [h.parity, hframes]
    have hconfig : st.config = p.done := by simpa [hframes, plug] using h.between hwords
    simp [atEof, hparity, hconfig, List.mem_pair.mp hlast]
  · refine Or.inr ⟨hc, ?_⟩
    have hreject : ¬(st.lastTokenType ∈ [.statementEnd, .endBlock] ∧ st.bracketParity = 0) := by
      rintro ⟨hmem, hparity⟩
      have hframes : p.frames = [] := by
        have := h.parity.symm.trans hparity
        exact List.length_eq_zero_iff.mp (by exact_mod_cast this)
      have hlast := h.last
      unfold Partial.lastTypes at hlast
      split_ifs at hlast with hwords hdone
      · exact hc ⟨hframes, not_not.mp (fun hw => by simp_all), by simp_all⟩
      · exact hc ⟨hframes, not_not.mp hwords, hdone⟩
      all_goals simp_all
    rw [atEof, decide_eq_false hreject]

/-- **A run of the parser is a run of the machine.** -/
theorem feed_represents (finish : ParserState → Except Fault (Bool × NginxConfig))
    (h : Represents p st) (ts : List Token) :
    (∃ p' st', p.run ts = some p' ∧ Represents p' st' ∧ feed finish st ts = finish st') ∨
      (p.run ts = none ∧ ∃ c, feed finish st ts = .ok (false, c)) := by
  induction ts generalizing p st with
  | nil => exact Or.inl ⟨p, st, rfl, h, rfl⟩
  | cons t ts ih =>
      rcases parseTurn_represents h t with ⟨p', st', hnext, hturn, h'⟩ | ⟨hnext, hturn⟩
      · simpa [feed, hturn, afterTurn, Partial.run_cons, hnext] using ih h'
      · exact Or.inr ⟨by simp [Partial.run_cons, hnext], st.config, by simp [feed, hturn, afterTurn]⟩

end Agrees

/-! ### The language of the parser -/

/-- A quote that is never closed is rejected, whatever comes before it. -/
theorem parse_unterminated {s : Str} {ts : List Token} (h : LexesUpTo Unterminated s ts) :
    ∃ c, parse s = .ok (false, c) := by
  have hrun : parse s = feed (fun st => .ok (false, st.config)) (.initial []) ts :=
    parseFrom_eq_feed (fun s hs st => by
      obtain ⟨value, hvalue⟩ := parseToken_unterminated hs
      exact parseFrom_error hvalue) h _
  rcases feed_represents _ Represents.start ts with ⟨p, st, -, -, hfeed⟩ | ⟨-, c, hfeed⟩
  · exact ⟨_, hrun.trans hfeed⟩
  · exact ⟨c, hrun.trans hfeed⟩

theorem parse_dangling {s : Str} {ts : List Token} (h : LexesUpTo Dangling s ts) :
    parse s = feed atEof (.initial []) ts :=
  parseFrom_eq_feed (fun s hs st => by
    obtain ⟨value, hvalue⟩ := parseToken_dangling hs
    exact parseFrom_eof hvalue) h _

/-- The parser never looks through a bad pointer: it always says yes or no. -/
theorem parse_total (s : Str) : ∃ valid c, parse s = .ok (valid, c) := by
  obtain ⟨ts, h | h⟩ := exists_lexes s
  · rw [parse_dangling h]
    rcases feed_represents atEof Represents.start ts with ⟨p, st, -, -, hfeed⟩ | ⟨-, c, hfeed⟩
    · exact ⟨_, _, hfeed⟩
    · exact ⟨false, c, hfeed⟩
  · obtain ⟨c, hc⟩ := parse_unterminated h
    exact ⟨false, c, hc⟩

/-- The tokens of a text decide what the parser makes of it. -/
theorem parse_of_lexes {s : Str} {ts : List Token} {c : NginxConfig}
    (h : LexesUpTo Dangling s ts) : parse s = .ok (true, c) ↔ IsConfig ts c := by
  rw [parse_dangling h, Partial.isConfig_iff]
  rcases feed_represents atEof Represents.start ts with ⟨p, st, hrun, hrep, hfeed⟩ | ⟨hrun, c', hfeed⟩
  · rw [hrun, hfeed]
    rcases atEof_represents hrep with ⟨hcomplete, heof⟩ | ⟨hincomplete, heof⟩
    · simp [heof, hcomplete]
    · simp [heof, hincomplete]
  · simp [hrun, hfeed]

/-- **The accepted texts are those that lex, up to a tail to drop, to the tokens of a tree.** -/
theorem parse_eq_true_iff {s : Str} {c : NginxConfig} :
    parse s = .ok (true, c) ↔ ∃ ts, LexesUpTo Dangling s ts ∧ IsConfig ts c := by
  constructor
  · intro hparse
    obtain ⟨ts, h | h⟩ := exists_lexes s
    · exact ⟨ts, h, (parse_of_lexes h).mp hparse⟩
    · obtain ⟨c', hc'⟩ := parse_unterminated h
      rw [hc'] at hparse
      simp at hparse
  · rintro ⟨ts, h, hconfig⟩
    exact (parse_of_lexes h).mpr hconfig

/--
**The config grammar.**  For a text that ends in a newline the parser says yes or no;
it says yes exactly when the text lexes to the tokens of a derivation, and then the
tree it has built is the derivation tree.
-/
theorem parse_newline_iff (text : Str) :
    (∃ valid c, parse (text ++ lit "\n") = .ok (valid, c)) ∧
      ∀ c, parse (text ++ lit "\n") = .ok (true, c) ↔
        ∃ ts, Lexes (text ++ lit "\n") ts ∧ IsConfig ts c := by
  refine ⟨parse_total _, fun c => ?_⟩
  rw [parse_eq_true_iff]
  constructor
  · rintro ⟨ts, h, hconfig⟩
    exact ⟨ts, lexes_of_newline h (Or.inr (by simp [lit])), hconfig⟩
  · rintro ⟨ts, h, hconfig⟩
    exact ⟨ts, h.mono fun s hs => Or.inl hs, hconfig⟩

end JustEnough
