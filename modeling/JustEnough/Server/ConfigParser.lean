/-
`config_parser.cc`: the printer, the tokenizer and the parser of config files.

The parser builds the tree while it reads.  `config_stack` holds pointers to the
blocks that are still open; here a pointer is the place of a block in the tree, the
index of the statement it belongs to in front of the pointer to the block that
statement stands in.  Looking through a pointer to a block that is not there, or at
the last statement of an empty block, has no meaning in C++ and is a fault here.

`bracket_parity` is an `int` in the source and an integer here: it only counts blocks
that are open, each of them a live heap object.
-/
import JustEnough.Lib.Strings

namespace JustEnough

/-! ### Config trees -/

/-- `child_block_` is null for a statement without a block. -/
inductive NginxConfigStatement
  | mk (tokens : List Str) (childBlock : Option (List NginxConfigStatement))
  deriving BEq, Repr

/-- A config is its `statements_`. -/
abbrev NginxConfig := List NginxConfigStatement

def NginxConfigStatement.tokens : NginxConfigStatement → List Str
  | .mk tokens _ => tokens

def NginxConfigStatement.childBlock : NginxConfigStatement → Option NginxConfig
  | .mk _ childBlock => childBlock

/-- Two spaces for each level. -/
def indent (depth : Nat) : Str := (List.replicate depth (lit "  ")).flatten

mutual

def NginxConfig.toString (depth : Nat) : List NginxConfigStatement → Str
  | [] => []
  | statement :: rest =>
    NginxConfigStatement.toString depth statement ++ NginxConfig.toString depth rest

def NginxConfigStatement.toString (depth : Nat) : NginxConfigStatement → Str
  | .mk tokens childBlock =>
    indent depth ++ List.intercalate (lit " ") tokens ++ childBlockToString depth childBlock ++
      lit "\n"

/-- The block of a statement, or the semicolon it has instead. -/
def childBlockToString (depth : Nat) : Option (List NginxConfigStatement) → Str
  | some childBlock =>
    lit " \x7b\n" ++ NginxConfig.toString (depth + 1) childBlock ++ indent depth ++ lit "\x7d"
  | none => lit ";"

end

/-! ### Tokens -/

inductive TokenType
  | start
  | normal
  | startBlock
  | endBlock
  | comment
  | statementEnd
  | eof
  | error
  deriving DecidableEq, Repr

inductive TokenParserState
  | initialWhitespace
  | singleQuote
  | doubleQuote
  | tokenTypeComment
  | tokenTypeNormal
  deriving DecidableEq, Repr

/-- The single quote; the double quote is `byte '"'`. -/
def quote : UInt8 := 39

/-- What ends a run of other characters.  A carriage return is not among them. -/
def endsNormal (c : UInt8) : Bool :=
  c = byte ' ' || c = byte '\t' || c = byte '\n' || c = byte ';' || c = byte '\x7b' ||
    c = byte '\x7d' || c = byte '"' || c = quote

/--
The loop of `ParseToken`, from a state and the value so far: the type of the token,
its value, and the input left.  A character that ends a run is put back.
-/
def parseTokenFrom : TokenParserState → Str → Str → TokenType × Str × Str
  | state, value, [] =>
    if state = .singleQuote ∨ state = .doubleQuote then (.error, value, []) else (.eof, value, [])
  | .initialWhitespace, value, c :: input =>
    if c = byte '\x7b' then (.startBlock, [c], input)
    else if c = byte '\x7d' then (.endBlock, [c], input)
    else if c = byte '#' then parseTokenFrom .tokenTypeComment [c] input
    else if c = byte '"' then parseTokenFrom .doubleQuote [c] input
    else if c = quote then parseTokenFrom .singleQuote [c] input
    else if c = byte ';' then (.statementEnd, [c], input)
    else if c = byte ' ' ∨ c = byte '\t' ∨ c = byte '\n' ∨ c = byte '\r' then
      parseTokenFrom .initialWhitespace value input
    else parseTokenFrom .tokenTypeNormal (value ++ [c]) input
  | .singleQuote, value, c :: input =>
    if c = quote then (.normal, value ++ [c], input)
    else parseTokenFrom .singleQuote (value ++ [c]) input
  | .doubleQuote, value, c :: input =>
    if c = byte '"' then (.normal, value ++ [c], input)
    else parseTokenFrom .doubleQuote (value ++ [c]) input
  | .tokenTypeComment, value, c :: input =>
    if c = byte '\n' ∨ c = byte '\r' then (.comment, value, input)
    else parseTokenFrom .tokenTypeComment (value ++ [c]) input
  | .tokenTypeNormal, value, c :: input =>
    if endsNormal c then (.normal, value, c :: input)
    else parseTokenFrom .tokenTypeNormal (value ++ [c]) input

def parseToken (input : Str) : TokenType × Str × Str :=
  parseTokenFrom .initialWhitespace [] input

/-! ### Blocks behind pointers -/

/-- The place of a block: the innermost index first, `[]` for the config itself. -/
abbrev Pointer := List Nat

namespace NginxConfig

/-- The block of statement `i`. -/
def childOf (i : Nat) (config : NginxConfig) : Except Fault NginxConfig :=
  match config[i]? with
  | some (.mk _ (some child)) => .ok child
  | _ => .error .undefinedBehaviour

/-- Change the block of statement `i`. -/
def modifyChild (i : Nat) (f : NginxConfig → Except Fault NginxConfig) (config : NginxConfig) :
    Except Fault NginxConfig :=
  match config[i]? with
  | some (.mk tokens (some child)) =>
    (f child).map fun child' => config.set i (.mk tokens (some child'))
  | _ => .error .undefinedBehaviour

def deref : Pointer → NginxConfig → Except Fault NginxConfig
  | [], config => .ok config
  | i :: parent, config =>
    match deref parent config with
    | .ok block => childOf i block
    | .error e => .error e

/-- Change the block behind a pointer. -/
def modifyAt : Pointer → (NginxConfig → Except Fault NginxConfig) → NginxConfig →
    Except Fault NginxConfig
  | [], f, config => f config
  | i :: parent, f, config => modifyAt parent (modifyChild i f) config

/-- Change `statements_.back()`. -/
def modifyBack (f : NginxConfigStatement → NginxConfigStatement) (config : NginxConfig) :
    Except Fault NginxConfig :=
  match config.getLast? with
  | some statement => .ok (config.dropLast ++ [f statement])
  | none => .error .undefinedBehaviour

end NginxConfig

def NginxConfigStatement.pushToken (token : Str) (statement : NginxConfigStatement) :
    NginxConfigStatement :=
  .mk (statement.tokens ++ [token]) statement.childBlock

/-- `child_block_.reset(new NginxConfig)`. -/
def NginxConfigStatement.resetChild (statement : NginxConfigStatement) : NginxConfigStatement :=
  .mk statement.tokens (some [])

/-! ### The parser -/

/-- The tree being built and the variables of `Parse`. -/
structure ParserState where
  config : NginxConfig
  configStack : List Pointer
  lastTokenType : TokenType
  bracketParity : Int
  deriving BEq, Repr

namespace ParserState

/-- Before the first token. -/
def initial (config : NginxConfig) : ParserState :=
  { config, configStack := [[]], lastTokenType := .start, bracketParity := 0 }

/-- `config_stack.top()`. -/
def top (st : ParserState) : Except Fault Pointer :=
  match st.configStack with
  | pointer :: _ => .ok pointer
  | [] => .error .undefinedBehaviour

/-- Change the block on top of the stack. -/
def modifyTop (st : ParserState) (f : NginxConfig → Except Fault NginxConfig) :
    Except Fault ParserState := do
  let pointer ← st.top
  let config ← NginxConfig.modifyAt pointer f st.config
  return { st with config }

/-- A token of type `TOKEN_TYPE_NORMAL`, which starts a statement or goes on with one. -/
def pushToken (st : ParserState) (token : Str) : Except Fault ParserState := do
  let st ← if st.lastTokenType ≠ .normal then
    st.modifyTop fun config => .ok (config ++ [.mk [] none]) else .ok st
  st.modifyTop (NginxConfig.modifyBack (·.pushToken token))

/-- A `{`: the last statement gets a block, and that block is pushed. -/
def openBlock (st : ParserState) : Except Fault ParserState := do
  let pointer ← st.top
  let block ← NginxConfig.deref pointer st.config
  let st ← st.modifyTop (NginxConfig.modifyBack (·.resetChild))
  return { st with
    configStack := ((block.length - 1) :: pointer) :: st.configStack
    bracketParity := st.bracketParity + 1 }

/-- A `}`. -/
def closeBlock (st : ParserState) : ParserState :=
  { st with configStack := st.configStack.tail, bracketParity := st.bracketParity - 1 }

end ParserState

/-- How one turn of the loop in `Parse` ends. -/
inductive Turn
  | next (st : ParserState)
  /-- `return true;` -/
  | accept
  /-- `break;` -/
  | bad

/-- One turn of the loop, for a token that is neither an error nor a comment. -/
def parseTurn (st : ParserState) (tokenType : TokenType) (token : Str) : Except Fault Turn :=
  match tokenType with
  | .normal =>
    if st.lastTokenType ∈ [.start, .statementEnd, .startBlock, .endBlock, .normal] then
      (st.pushToken token).map fun st' => .next { st' with lastTokenType := .normal }
    else .ok .bad
  | .statementEnd =>
    if st.lastTokenType ≠ .normal then .ok .bad
    else .ok (.next { st with lastTokenType := .statementEnd })
  | .startBlock =>
    if st.lastTokenType ≠ .normal then .ok .bad
    else st.openBlock.map fun st' => .next { st' with lastTokenType := .startBlock }
  | .endBlock =>
    if st.lastTokenType ∉ [.statementEnd, .endBlock, .startBlock] then .ok .bad
    else if st.bracketParity ≤ 0 then .ok .bad
    else .ok (.next { st.closeBlock with lastTokenType := .endBlock })
  | .eof =>
    if st.lastTokenType ∉ [.statementEnd, .endBlock] then .ok .bad
    else if st.bracketParity ≠ 0 then .ok .bad
    else .ok .accept
  | _ => .ok .bad

theorem parseTokenFrom_length (state : TokenParserState) (value input : Str) :
    (parseTokenFrom state value input).2.2.length ≤ input.length := by
  fun_induction parseTokenFrom state value input <;> simp_all <;> omega

/-- A token takes at least one character off the input, even where the last one is put back. -/
theorem parseToken_lt {input token rest : Str} {tokenType : TokenType}
    (h : parseToken input = (tokenType, token, rest)) (heof : tokenType ≠ .eof) :
    rest.length < input.length := by
  unfold parseToken at h
  induction input with
  | nil =>
      simp only [parseTokenFrom] at h
      simp_all
  | cons c input ih =>
      have hrest : ∀ state value, parseTokenFrom state value input = (tokenType, token, rest) →
          rest.length < (c :: input).length := by
        intro state value hfrom
        have := parseTokenFrom_length state value input
        rw [hfrom] at this
        exact Nat.lt_succ_of_le this
      simp only [parseTokenFrom] at h
      split_ifs at h
      all_goals first | exact hrest _ _ h | simp_all

theorem parseTurn_eof {st st' : ParserState} {token : Str} :
    parseTurn st .eof token ≠ .ok (.next st') := by
  simp only [parseTurn]
  split
  · simp
  · split <;> simp

/-- The `while (true)` loop of `Parse`: whether it returned true, and the tree it has built. -/
def parseFrom (st : ParserState) (input : Str) : Except Fault (Bool × NginxConfig) :=
  match _htoken : parseToken input with
  | (tokenType, token, rest) =>
    if tokenType = .error then .ok (false, st.config)
    else if _hcomment : tokenType = .comment then parseFrom st rest
    else
      match _hturn : parseTurn st tokenType token with
      | .ok (.next st') => parseFrom st' rest
      | .ok .accept => .ok (true, st.config)
      | .ok .bad => .ok (false, st.config)
      | .error e => .error e
termination_by input.length
decreasing_by
  · exact parseToken_lt _htoken (by simp [_hcomment])
  · exact parseToken_lt _htoken (by rintro rfl; exact parseTurn_eof _hturn)

/-- `Parse` into an empty config. -/
def parse (input : Str) : Except Fault (Bool × NginxConfig) := parseFrom (.initial []) input

end JustEnough
