/-
Loading a config into options that have been loaded before, and statements without a block.

`Agrees` says what two loads of one text have in common while they run, whatever the
options were: all that a statement has set, and of the handlers those of the statements
so far, with the earlier ones behind them.  A turn of the loop keeps it
(`loadStatement_alike`), so the answers are the same, and so are all settings but the
handlers: of those the earlier ones are still there, and a load ends up with the handlers
of a new `Options` exactly when it declares every path again (`load_independent_iff`).

A `path`, a `default` and a `realm` have to have a block, and nothing asks whether they
do: without one, `addPath` and its like look at the number of tokens and then through a
null pointer (`missing_block_iff`).
-/
import JustEnough.Proofs.Options

namespace JustEnough

/-! ### Two runs of one computation -/

section Alike

variable {ε α β : Type} {R : α → α → Prop} {S : β → β → Prop}

/-- Both throw the same, or both are refused, or both give something. -/
inductive Alike (R : α → α → Prop) : Except ε (Option α) → Except ε (Option α) → Prop
  | threw (e : ε) : Alike R (.error e) (.error e)
  | refused : Alike R (.ok none) (.ok none)
  | gave {a a' : α} (h : R a a') : Alike R (.ok (some a)) (.ok (some a'))

/-- What a computation that does not depend on the run is used for. -/
theorem Alike.of_map {γ : Type} {f f' : γ → α} (h : ∀ c, R (f c) (f' c))
    (x : Except ε (Option γ)) : Alike R (x.map (·.map f)) (x.map (·.map f')) := by
  cases x with
  | error e => exact .threw e
  | ok o =>
      cases o with
      | none => exact .refused
      | some c => exact .gave (h c)

theorem Alike.map {f f' : α → β} {x x' : Except ε (Option α)} (h : Alike R x x')
    (hf : ∀ a a', R a a' → S (f a) (f' a')) :
    Alike S (x.map (·.map f)) (x'.map (·.map f')) := by
  cases h with
  | threw e => exact .threw e
  | refused => exact .refused
  | gave h => exact .gave (hf _ _ h)

/-- Whether something was given does not tell the runs apart. -/
theorem Alike.answer {x x' : Except ε (Option α)} (h : Alike R x x') :
    x.map Option.isSome = x'.map Option.isSome := by
  cases h <;> rfl

end Alike

variable {H K : Type} {registry : Registry H}

/-! ### What two loads have in common -/

/--
The options of two loads, where the handlers of the first were `old` before: `port` and
`thread` say whether these have been set.
-/
structure Agrees (old : Std.TreeMap Str H) (port thread : Bool) (opt opt' : LoadedOptions H) :
    Prop where
  port : port = true → opt.port = opt'.port
  thread : thread = true → opt.thread = opt'.thread
  default : opt.defaultHandler = opt'.defaultHandler
  auth : opt.auth = opt'.auth
  handlers : ∀ path : Str, opt.handlerMap[path]? = opt'.handlerMap[path]?.or old[path]?

/-- The same between two turns of the loop. -/
structure AgreesLoading (old : Std.TreeMap Str H) (st st' : Loading H) : Prop where
  issetPort : st.issetPort = st'.issetPort
  issetThread : st.issetThread = st'.issetThread
  opt : Agrees old st.issetPort st.issetThread st.opt st'.opt

section Add

variable {old : Std.TreeMap Str H} {port thread : Bool} {opt opt' : LoadedOptions H}

namespace LoadedOptions

theorem addHandler_alike (registry : Registry H) (h : Agrees old port thread opt opt')
    (type path : Str) (block : NginxConfig) :
    Alike (Agrees old port thread) (opt.addHandler registry type path block)
      (opt'.addHandler registry type path block) := by
  unfold addHandler
  split
  · exact .refused
  · rename_i handlerType htype
    split
    · exact .threw _
    · cases handlerType.delete path block with
      | error e => exact .threw e
      | ok _ => exact .refused
    · rename_i handler hhandler
      by_cases hpath : path = []
      · rw [if_pos hpath, if_pos hpath]
        exact .gave ⟨h.port, h.thread, rfl, h.auth, h.handlers⟩
      · rw [if_neg hpath, if_neg hpath]
        refine .gave ⟨h.port, h.thread, h.default, h.auth, fun other => ?_⟩
        show (opt.handlerMap.insert path handler)[other]?
          = (opt'.handlerMap.insert path handler)[other]?.or old[other]?
        rw [Std.TreeMap.getElem?_insert, Std.TreeMap.getElem?_insert]
        by_cases hother : compare path other = .eq
        · rw [if_pos hother, if_pos hother]
          rfl
        · rw [if_neg hother, if_neg hother]
          exact h.handlers other

theorem addPath_alike (h : Agrees old port thread opt opt') (statement : NginxConfigStatement) :
    Alike (Agrees old port thread) (opt.addPath registry statement)
      (opt'.addPath registry statement) := by
  unfold addPath
  split
  · split
    · exact .threw _
    · exact addHandler_alike registry h _ _ _
  · exact .refused

theorem addDefaultHandler_alike (h : Agrees old port thread opt opt')
    (statement : NginxConfigStatement) :
    Alike (Agrees old port thread) (opt.addDefaultHandler registry statement)
      (opt'.addDefaultHandler registry statement) := by
  unfold addDefaultHandler
  split
  · split
    · exact .threw _
    · exact addHandler_alike registry h _ _ _
  · exact .refused

theorem addAuthenticationRealm_alike (h : Agrees old port thread opt opt')
    (statement : NginxConfigStatement) :
    Alike (Agrees old port thread) (opt.addAuthenticationRealm statement)
      (opt'.addAuthenticationRealm statement) := by
  unfold addAuthenticationRealm
  rw [h.auth]
  split
  · split
    · exact .threw _
    · split
      · exact .refused
      · split
        · exact .threw _
        · exact .gave ⟨h.port, h.thread, h.default, rfl, h.handlers⟩
  · exact .refused

theorem addPort_alike (h : Agrees old port thread opt opt') (statement : NginxConfigStatement) :
    Alike (Agrees old true thread) (opt.addPort statement) (opt'.addPort statement) :=
  Alike.of_map (fun _ => ⟨fun _ => rfl, h.thread, h.default, h.auth, h.handlers⟩) _

theorem addThread_alike (h : Agrees old port thread opt opt') (statement : NginxConfigStatement) :
    Alike (Agrees old port true) (opt.addThread statement) (opt'.addThread statement) :=
  Alike.of_map (fun _ => ⟨h.port, fun _ => rfl, h.default, h.auth, h.handlers⟩) _

end LoadedOptions

end Add

section Loop

variable {old : Std.TreeMap Str H} {st st' : Loading H}

/-- **A turn of the loop** goes the same way in both loads. -/
theorem loadStatement_alike (registry : Registry H) (h : AgreesLoading old st st')
    (statement : NginxConfigStatement) :
    Alike (AgreesLoading old) (loadStatement registry statement st)
      (loadStatement registry statement st') := by
  have hkeep : ∀ opt opt' : LoadedOptions H, Agrees old st.issetPort st.issetThread opt opt' →
      AgreesLoading old { st with opt } { st' with opt := opt' } :=
    fun opt opt' hopt => ⟨h.issetPort, h.issetThread, hopt⟩
  unfold loadStatement
  split
  · exact .threw _
  · exact .refused
  rename_i key second rest htokens
  by_cases hport : key = lit "port"
  · rw [if_pos hport, if_pos hport, ← h.issetPort]
    by_cases hset : st.issetPort = true
    · rw [if_pos hset, if_pos hset]
      exact .refused
    · rw [if_neg hset, if_neg hset]
      exact (LoadedOptions.addPort_alike h.opt statement).map fun opt opt' hopt =>
        ⟨rfl, h.issetThread, hopt⟩
  rw [if_neg hport, if_neg hport]
  by_cases hthreads : key = lit "threads"
  · rw [if_pos hthreads, if_pos hthreads, ← h.issetThread]
    by_cases hset : st.issetThread = true
    · rw [if_pos hset, if_pos hset]
      exact .refused
    · rw [if_neg hset, if_neg hset]
      exact (LoadedOptions.addThread_alike h.opt statement).map fun opt opt' hopt =>
        ⟨h.issetPort, rfl, hopt⟩
  rw [if_neg hthreads, if_neg hthreads]
  by_cases hpath : key = lit "path"
  · rw [if_pos hpath, if_pos hpath]
    exact (LoadedOptions.addPath_alike h.opt statement).map hkeep
  rw [if_neg hpath, if_neg hpath]
  by_cases hdefault : key = lit "default"
  · rw [if_pos hdefault, if_pos hdefault]
    exact (LoadedOptions.addDefaultHandler_alike h.opt statement).map hkeep
  rw [if_neg hdefault, if_neg hdefault]
  by_cases hrealm : key = lit "realm"
  · rw [if_pos hrealm, if_pos hrealm]
    exact (LoadedOptions.addAuthenticationRealm_alike h.opt statement).map hkeep
  · rw [if_neg hrealm, if_neg hrealm]
    exact .refused

theorem loadStatements_alike (registry : Registry H) (config : NginxConfig) :
    ∀ {st st' : Loading H}, AgreesLoading old st st' →
      Alike (AgreesLoading old) (loadStatements registry config st)
        (loadStatements registry config st') := by
  induction config with
  | nil =>
      intro st st' h
      exact .gave h
  | cons statement rest ih =>
      intro st st' h
      have hstep := loadStatement_alike registry h statement
      simp only [loadStatements]
      generalize loadStatement registry statement st = next at hstep
      generalize loadStatement registry statement st' = next' at hstep
      cases hstep with
      | threw e => exact .threw e
      | refused => exact .refused
      | gave hnext => exact ih hnext

theorem settled_agrees (h : AgreesLoading old st st') (hset : st.issetPort = true) :
    Agrees old true true (settled st) (settled st') := by
  unfold settled
  rw [← h.issetThread]
  by_cases hthread : st.issetThread = true
  · rw [if_pos hthread, if_pos hthread]
    exact ⟨fun _ => h.opt.port hset, fun _ => h.opt.thread hthread, h.opt.default, h.opt.auth,
      h.opt.handlers⟩
  · rw [if_neg hthread, if_neg hthread]
    exact ⟨fun _ => h.opt.port hset, fun _ => rfl, h.opt.default, h.opt.auth, h.opt.handlers⟩

theorem finish_alike (h : AgreesLoading old st st') :
    Alike (Agrees old true true) (finish registry st) (finish registry st') := by
  by_cases hset : st.issetPort = true
  · have hsettled := settled_agrees h hset
    rw [finish_of_port hset, finish_of_port (h.issetPort ▸ hset), hsettled.default]
    cases hdefault : (settled st').defaultHandler with
    | some handler => exact .gave hsettled
    | none =>
        have hadd := LoadedOptions.addHandler_alike registry hsettled (lit "NotFoundHandler") [] []
        show Alike _ (((settled st).addHandler registry (lit "NotFoundHandler") [] []).map _)
          (((settled st').addHandler registry (lit "NotFoundHandler") [] []).map _)
        generalize (settled st).addHandler registry (lit "NotFoundHandler") [] [] = added at hadd ⊢
        generalize (settled st').addHandler registry (lit "NotFoundHandler") [] [] = added'
          at hadd ⊢
        cases hadd with
        | threw e => exact .threw e
        | refused => exact .gave hsettled
        | gave hboth => exact .gave hboth
  · have hunset : st.issetPort = false := by simpa using hset
    rw [finish, finish, if_pos hunset, if_pos (h.issetPort ▸ hunset)]
    exact .refused

end Loop

/-! ### Two loads of one text -/

/-- A text that parses is loaded by the loop and what follows it. -/
theorem loadOptionsFromStream_parsed {text : Str} {config : NginxConfig}
    (hparse : parse text = .ok (true, config)) (opt : LoadedOptions H) :
    loadOptionsFromStream registry text opt
      = (loadStatements registry config (starting opt)).bind
          (·.elim (.ok none) (finish registry)) := by
  rw [loadOptionsFromStream, hparse]
  cases hload : loadStatements registry config (starting opt) with
  | error e =>
      rw [starting] at hload
      simp only [hload]
      rfl
  | ok o =>
      rw [starting] at hload
      simp only [hload]
      cases o <;> rfl

/-- **Two loads of one text** give the same answer, and options that agree. -/
theorem loadOptionsFromStream_alike (registry : Registry H) (text : Str) (opt : LoadedOptions H) :
    Alike (Agrees opt.handlerMap true true) (loadOptionsFromStream registry text opt)
      (loadOptionsFromStream registry text .fresh) := by
  have hstart : AgreesLoading opt.handlerMap (starting opt) (starting .fresh) := by
    refine ⟨rfl, rfl, ?_, ?_, rfl, rfl, fun path => ?_⟩
    · intro hfalse
      cases hfalse
    · intro hfalse
      cases hfalse
    · simp [starting, LoadedOptions.fresh]
  obtain ⟨parsed, config, hparse⟩ := parse_total text
  cases parsed with
  | false =>
      rw [loadOptionsFromStream, loadOptionsFromStream, hparse]
      exact .refused
  | true =>
      rw [loadOptionsFromStream_parsed hparse, loadOptionsFromStream_parsed hparse]
      have hloop := loadStatements_alike registry config hstart
      generalize loadStatements registry config (starting opt) = stopped at hloop
      generalize loadStatements registry config (starting .fresh) = stopped' at hloop
      cases hloop with
      | threw e => exact .threw e
      | refused => exact .refused
      | gave hst => exact finish_alike hst

/-- The settings of two options are the same, the handlers known by their types. -/
structure SameSettings (kind : H → K) (opt opt' : LoadedOptions H) : Prop where
  port : opt.port = opt'.port
  thread : opt.thread = opt'.thread
  handlers : ∀ path : Str, opt.handlerMap[path]?.map kind = opt'.handlerMap[path]?.map kind
  default : opt.defaultHandler.map kind = opt'.defaultHandler.map kind
  realms : opt.auth = opt'.auth

/-- The settings are the same where no earlier handler shows through. -/
theorem Agrees.sameSettings_iff {kind : H → K} {old : Std.TreeMap Str H}
    {opt opt' : LoadedOptions H} (h : Agrees old true true opt opt') :
    SameSettings kind opt opt' ↔ ∀ path ∈ old, path ∈ opt'.handlerMap := by
  constructor
  · intro hsame path hold
    have hpath := hsame.handlers path
    rw [h.handlers path] at hpath
    rw [Std.TreeMap.mem_iff_isSome_getElem?] at hold ⊢
    cases hnew : opt'.handlerMap[path]? with
    | some handler => rfl
    | none =>
        rw [hnew] at hpath
        obtain ⟨handler, hhandler⟩ := Option.isSome_iff_exists.mp hold
        rw [hhandler] at hpath
        cases hpath
  · intro hcovered
    refine ⟨h.port rfl, h.thread rfl, fun path => ?_, congrArg _ h.default, h.auth⟩
    rw [h.handlers path]
    cases hnew : opt'.handlerMap[path]? with
    | some handler => rfl
    | none =>
        have hnot : path ∉ old := by
          intro hold
          have hmem := hcovered path hold
          rw [Std.TreeMap.mem_iff_isSome_getElem?, hnew] at hmem
          cases hmem
        rw [Std.TreeMap.getElem?_eq_none hnot]
        rfl

/-- The keys of a new `Options` are the paths the config declares. -/
theorem mem_handlerMap_iff {text : Str} {config : NginxConfig} {opt : LoadedOptions H}
    (hparse : parse text = .ok (true, config))
    (hload : loadOptionsFromStream registry text .fresh = .ok (some opt)) (path : Str) :
    path ∈ opt.handlerMap ↔
      ∃ statement ∈ config, statement.tokens.take 2 = [lit "path", path] := by
  obtain ⟨config', st, hparse', hloaded, hfinish⟩ := loadOptionsFromStream_eq_some hload
  obtain rfl : config' = config := by
    rw [hparse] at hparse'
    cases hparse'
    rfl
  rw [(finish_keeps hfinish).2]
  exact mem_iff_of_rel hloaded.handlers path

/-! ### Statements without a block -/

/-- The statements that are to have a block, by key, and their number of tokens. -/
def blockStatements : List (Str × Nat) := [(lit "path", 3), (lit "default", 2), (lit "realm", 2)]

/-- A statement that is to have a block and ends with a semicolon instead. -/
def LacksBlock (statement : NginxConfigStatement) (n : Nat) : Prop :=
  statement.childBlock = none ∧
    ∃ key, statement.tokens.head? = some key ∧ (key, n) ∈ blockStatements

/-- The load of that text comes to that statement, in that state. -/
def ComesTo (registry : Registry H) (text : Str) (opt : LoadedOptions H)
    (statement : NginxConfigStatement) (st : Loading H) : Prop :=
  ∃ before after, parse text = .ok (true, before ++ statement :: after) ∧
    loadStatements registry before (starting opt) = .ok (some st)

/-- A statement to have a block that the load comes to makes it return false. -/
def RejectsMissing (registry : Registry H) (text : Str) (opt : LoadedOptions H) : Prop :=
  ∀ statement n st, ComesTo registry text opt statement st → LacksBlock statement n →
    loadOptionsFromStream registry text opt = .ok none

/-- The load reads through the absent block of a statement it comes to. -/
def ReadsAbsent (registry : Registry H) (text : Str) (opt : LoadedOptions H) : Prop :=
  ∃ statement st, ComesTo registry text opt statement st ∧ statement.childBlock = none ∧
    loadStatement registry statement st = .error .undefinedBehaviour

section Missing

variable {statement : NginxConfigStatement} {n : Nat} {st : Loading H}

theorem addPath_lacksBlock (h : statement.childBlock = none) (opt : LoadedOptions H) :
    opt.addPath registry statement
      = if statement.tokens.length = 3 then .error .undefinedBehaviour else .ok none := by
  unfold LoadedOptions.addPath
  split
  · rename_i htokens
    rw [h, htokens]
    rfl
  · rename_i hother
    refine (if_neg fun hlen => ?_).symm
    obtain ⟨a, b, c, htokens⟩ := List.length_eq_three.mp hlen
    exact hother a b c htokens

theorem addDefaultHandler_lacksBlock (h : statement.childBlock = none) (opt : LoadedOptions H) :
    opt.addDefaultHandler registry statement
      = if statement.tokens.length = 2 then .error .undefinedBehaviour else .ok none := by
  unfold LoadedOptions.addDefaultHandler
  split
  · rename_i htokens
    rw [h, htokens]
    rfl
  · rename_i hother
    refine (if_neg fun hlen => ?_).symm
    obtain ⟨a, b, htokens⟩ := List.length_eq_two.mp hlen
    exact hother a b htokens

theorem addAuthenticationRealm_lacksBlock (h : statement.childBlock = none)
    (opt : LoadedOptions H) :
    opt.addAuthenticationRealm statement
      = if statement.tokens.length = 2 then .error .undefinedBehaviour else .ok none := by
  unfold LoadedOptions.addAuthenticationRealm
  split
  · rename_i htokens
    rw [h, htokens]
    rfl
  · rename_i hother
    refine (if_neg fun hlen => ?_).symm
    obtain ⟨a, b, htokens⟩ := List.length_eq_two.mp hlen
    exact hother a b htokens

/-- A call that gives nothing gives nothing to go on with. -/
theorem map_lacksBlock {α β : Type} {c : Prop} [Decidable c] (f : α → β) :
    ((if c then .error .undefinedBehaviour else .ok none : Except Fault (Option α)).map (·.map f))
      = if c then .error .undefinedBehaviour else .ok none := by
  by_cases hc : c
  · rw [if_pos hc, if_pos hc]
    rfl
  · rw [if_neg hc, if_neg hc]
    rfl

/-- **Only the number of tokens is asked for** where the block is missing. -/
theorem loadStatement_lacksBlock (registry : Registry H) (h : LacksBlock statement n)
    (st : Loading H) :
    loadStatement registry statement st
      = if statement.tokens.length = n then .error .undefinedBehaviour else .ok none := by
  obtain ⟨hnone, key, hhead, hmem⟩ := h
  obtain ⟨rest, htokens⟩ := List.head?_eq_some_iff.mp hhead
  have hkeys : key = lit "path" ∧ n = 3 ∨ key = lit "default" ∧ n = 2 ∨
      key = lit "realm" ∧ n = 2 := by
    simpa [blockStatements] using hmem
  unfold loadStatement
  split
  · rename_i hnil
    rw [hnil] at htokens
    cases htokens
  · rename_i only honly
    refine (if_neg fun hlen => ?_).symm
    rw [honly, List.length_singleton] at hlen
    omega
  · rename_i key' second more htokens'
    obtain rfl : key' = key := by
      rw [htokens'] at htokens
      exact (List.cons.inj htokens).1
    rcases hkeys with ⟨rfl, rfl⟩ | ⟨rfl, rfl⟩ | ⟨rfl, rfl⟩
    · rw [if_neg (by decide), if_neg (by decide), if_pos rfl, addPath_lacksBlock hnone,
        map_lacksBlock]
    · rw [if_neg (by decide), if_neg (by decide), if_neg (by decide), if_pos rfl,
        addDefaultHandler_lacksBlock hnone, map_lacksBlock]
    · rw [if_neg (by decide), if_neg (by decide), if_neg (by decide), if_neg (by decide), if_pos rfl,
        addAuthenticationRealm_lacksBlock hnone, map_lacksBlock]

/-- No number that cannot be read is undefined behaviour. -/
theorem stoi_error_ne {s : Str} {e : Fault} (h : stoi s = .error e) : e ≠ .undefinedBehaviour := by
  unfold stoi at h
  split at h
  · cases h
    simp
  · split at h
    · cases h
    · cases h
      simp

theorem boundedValue_error_ne {lo hi : Nat} {e : Fault}
    (h : LoadedOptions.boundedValue lo hi statement = .error e) : e ≠ .undefinedBehaviour := by
  unfold LoadedOptions.boundedValue at h
  split at h
  · split at h
    · rename_i err herr
      cases h
      exact stoi_error_ne herr
    · split at h
      · cases h
      · cases h
  · cases h

/-- A `map` throws only what it is applied to. -/
theorem error_of_map {α β : Type} {x : Except Fault α} {f : α → β} {e : Fault}
    (h : x.map f = .error e) : x = .error e := by
  cases x with
  | error e' =>
      cases h
      rfl
  | ok a => cases h

/-- What has no meaning is what adds a handler or a realm. -/
theorem undefined_cases (hne : statement.tokens ≠ [])
    (h : loadStatement registry statement st = .error .undefinedBehaviour) :
    ∃ key, statement.tokens.head? = some key ∧
      (key = lit "path" ∧ st.opt.addPath registry statement = .error .undefinedBehaviour ∨
        key = lit "default" ∧
          st.opt.addDefaultHandler registry statement = .error .undefinedBehaviour ∨
        key = lit "realm" ∧ st.opt.addAuthenticationRealm statement = .error .undefinedBehaviour) := by
  unfold loadStatement at h
  split at h
  · rename_i hnil
    exact absurd hnil hne
  · cases h
  · rename_i key second more htokens
    refine ⟨key, by rw [htokens]; rfl, ?_⟩
    by_cases hport : key = lit "port"
    · rw [if_pos hport] at h
      split at h
      · cases h
      · exact absurd rfl (boundedValue_error_ne (error_of_map (error_of_map h)))
    rw [if_neg hport] at h
    by_cases hthreads : key = lit "threads"
    · rw [if_pos hthreads] at h
      split at h
      · cases h
      · exact absurd rfl (boundedValue_error_ne (error_of_map (error_of_map h)))
    rw [if_neg hthreads] at h
    by_cases hpath : key = lit "path"
    · rw [if_pos hpath] at h
      exact Or.inl ⟨hpath, error_of_map h⟩
    rw [if_neg hpath] at h
    by_cases hdefault : key = lit "default"
    · rw [if_pos hdefault] at h
      exact Or.inr (Or.inl ⟨hdefault, error_of_map h⟩)
    rw [if_neg hdefault] at h
    by_cases hrealm : key = lit "realm"
    · rw [if_pos hrealm] at h
      exact Or.inr (Or.inr ⟨hrealm, error_of_map h⟩)
    · rw [if_neg hrealm] at h
      cases h

/-- Undefined behaviour at a statement without a block is that block being looked at. -/
theorem lacksBlock_of_undefined (hnone : statement.childBlock = none) (hne : statement.tokens ≠ [])
    (h : loadStatement registry statement st = .error .undefinedBehaviour) :
    ∃ n, LacksBlock statement n ∧ statement.tokens.length = n := by
  obtain ⟨key, hhead, hcases⟩ := undefined_cases hne h
  obtain ⟨n, hmem⟩ : ∃ n, (key, n) ∈ blockStatements := by
    rcases hcases with ⟨rfl, -⟩ | ⟨rfl, -⟩ | ⟨rfl, -⟩
    · exact ⟨3, by simp [blockStatements]⟩
    · exact ⟨2, by simp [blockStatements]⟩
    · exact ⟨2, by simp [blockStatements]⟩
  have hlacks : LacksBlock statement n := ⟨hnone, key, hhead, hmem⟩
  refine ⟨n, hlacks, ?_⟩
  by_contra hlen
  rw [loadStatement_lacksBlock registry hlacks, if_neg hlen] at h
  cases h

theorem loadStatements_append {before : NginxConfig} (after : NginxConfig) :
    ∀ st : Loading H, loadStatements registry (before ++ after) st
      = (loadStatements registry before st).bind
          (·.elim (.ok none) (loadStatements registry after)) := by
  induction before with
  | nil =>
      intro st
      rfl
  | cons statement before ih =>
      intro st
      simp only [List.cons_append, loadStatements]
      cases loadStatement registry statement st with
      | error e => rfl
      | ok o =>
          cases o with
          | none => rfl
          | some st' => exact ih st'

/-- Where a statement fails, the load fails with it. -/
theorem ComesTo.load_stops {text : Str} {opt : LoadedOptions H}
    (h : ComesTo registry text opt statement st)
    (hstops : ∀ st', loadStatement registry statement st ≠ .ok (some st')) :
    loadOptionsFromStream registry text opt
      = (loadStatement registry statement st).map fun _ => none := by
  obtain ⟨before, after, hparse, hbefore⟩ := h
  rw [loadOptionsFromStream_parsed hparse, loadStatements_append, hbefore]
  show ((loadStatements registry (statement :: after) st).bind _) = _
  simp only [loadStatements]
  cases hnext : loadStatement registry statement st with
  | error e => rfl
  | ok o =>
      cases o with
      | none => rfl
      | some st' => exact absurd hnext (hstops st')

/-- A statement has a first token. -/
theorem ComesTo.tokens_ne_nil {text : Str} {opt : LoadedOptions H}
    (h : ComesTo registry text opt statement st) : statement.tokens ≠ [] := by
  obtain ⟨before, after, hparse, -⟩ := h
  have hmem : statement ∈ before ++ statement :: after := by simp
  exact (WellWorded.of_parse hparse statement (.here hmem)).1

/-- What a load makes of a statement it comes to that lacks its block. -/
theorem ComesTo.load_lacksBlock {text : Str} {opt : LoadedOptions H}
    (h : ComesTo registry text opt statement st) (hlacks : LacksBlock statement n) :
    loadOptionsFromStream registry text opt
      = if statement.tokens.length = n then .error .undefinedBehaviour else .ok none := by
  have hstatement := loadStatement_lacksBlock registry hlacks st
  rw [h.load_stops, hstatement]
  · split <;> rfl
  · intro st' hst
    rw [hstatement] at hst
    split at hst <;> cases hst

end Missing

/--
**Missing blocks are rejected** exactly where the statements that lack them have the wrong
number of tokens as well.
-/
theorem missing_block_iff (registry : Registry H) (text : Str) (opt : LoadedOptions H) :
    RejectsMissing registry text opt ∧ ¬ReadsAbsent registry text opt ↔
      ∀ statement n st, ComesTo registry text opt statement st → LacksBlock statement n →
        statement.tokens.length ≠ n := by
  constructor
  · rintro ⟨hrejects, -⟩ statement n st hcomes hlacks hlen
    have hrejected := hrejects statement n st hcomes hlacks
    rw [hcomes.load_lacksBlock hlacks, if_pos hlen] at hrejected
    cases hrejected
  · intro hwrong
    constructor
    · intro statement n st hcomes hlacks
      rw [hcomes.load_lacksBlock hlacks, if_neg (hwrong statement n st hcomes hlacks)]
    · rintro ⟨statement, st, hcomes, hnone, hreads⟩
      obtain ⟨n, hlacks, hlen⟩ := lacksBlock_of_undefined hnone hcomes.tokens_ne_nil hreads
      exact hwrong statement n st hcomes hlacks hlen

/-- Two statements without blocks can be told by their tokens. -/
theorem parse_two {text : Str} {us vs : List Str}
    (h : (parse text).toOption.map (fun r => (r.1, r.2.map fun statement =>
        (statement.tokens, statement.childBlock.isNone))) = some (true, [(us, true), (vs, true)])) :
    parse text = .ok (true, [.mk us none] ++ .mk vs none :: []) := by
  have hplain : ∀ {statement : NginxConfigStatement} {ws : List Str},
      (statement.tokens, statement.childBlock.isNone) = (ws, true) → statement = .mk ws none := by
    intro statement ws hshape
    obtain ⟨tokens, block⟩ := statement
    obtain ⟨rfl, hblock⟩ := Prod.mk.inj hshape
    rw [Option.isNone_iff_eq_none] at hblock
    exact congrArg _ hblock
  obtain ⟨parsed, config, hparse⟩ := parse_total text
  rw [hparse] at h ⊢
  obtain ⟨rfl, hconfig⟩ := Prod.mk.inj (Option.some.inj h)
  obtain ⟨s, rest, rfl, hs, hrest⟩ := List.map_eq_cons_iff.mp hconfig
  obtain ⟨t, rest', rfl, ht, hnil⟩ := List.map_eq_cons_iff.mp hrest
  rw [List.map_eq_nil_iff.mp hnil, hplain hs, hplain ht]
  rfl

/-- A `path` with a type and a semicolon. -/
theorem missing_block_read :
    ∃ statement st, ComesTo exampleRegistry (lit "port 8080; path /a EchoHandler;") .fresh
        statement st ∧
      LacksBlock statement 3 ∧
      loadOptionsFromStream exampleRegistry (lit "port 8080; path /a EchoHandler;") .fresh
        = .error .undefinedBehaviour := by
  have hparse : parse (lit "port 8080; path /a EchoHandler;")
      = .ok (true, [.mk [lit "port", lit "8080"] none] ++
          .mk [lit "path", lit "/a", lit "EchoHandler"] none :: []) :=
    parse_two (by decide +kernel)
  obtain ⟨st, hst⟩ := exists_of_isSome_join (x := loadStatements exampleRegistry
    [.mk [lit "port", lit "8080"] none] (starting .fresh)) (by decide +kernel)
  have hcomes : ComesTo exampleRegistry (lit "port 8080; path /a EchoHandler;") .fresh
      (.mk [lit "path", lit "/a", lit "EchoHandler"] none) st := ⟨_, _, hparse, hst⟩
  have hlacks : LacksBlock (.mk [lit "path", lit "/a", lit "EchoHandler"] none) 3 :=
    ⟨rfl, lit "path", rfl, by simp [blockStatements]⟩
  refine ⟨_, st, hcomes, hlacks, ?_⟩
  rw [hcomes.load_lacksBlock hlacks]
  rfl

/-! ### Loads without a meaning -/

/-- Making a handler has no meaning, or deleting it when `Init` has failed. -/
def HandlerUndefined (registry : Registry H) (type path : Str) (block : NginxConfig) : Prop :=
  ∃ handlerType, createByName registry type = some handlerType ∧
    (handlerType.init path block = .error .undefinedBehaviour ∨
      handlerType.init path block = .ok none ∧
        handlerType.delete path block = .error .undefinedBehaviour)

/-- A statement the load has no meaning at: its block is missing, or its handler is undefined. -/
inductive Meaningless (registry : Registry H) (statement : NginxConfigStatement) : Prop
  | missing {n : Nat} (hlacks : LacksBlock statement n) (hlen : statement.tokens.length = n)
  | path {path type : Str} {block : NginxConfig}
      (htokens : statement.tokens = [lit "path", path, type])
      (hblock : statement.childBlock = some block) (h : HandlerUndefined registry type path block)
  | default {type : Str} {block : NginxConfig} (htokens : statement.tokens = [lit "default", type])
      (hblock : statement.childBlock = some block) (h : HandlerUndefined registry type [] block)

/-- The load of that text comes to its end, in that state. -/
def ComesToEnd (registry : Registry H) (text : Str) (opt : LoadedOptions H) (st : Loading H) : Prop :=
  ∃ config, parse text = .ok (true, config) ∧
    loadStatements registry config (starting opt) = .ok (some st)

/-- The load has a meaning everywhere it comes to. -/
structure Meaningful (registry : Registry H) (text : Str) (opt : LoadedOptions H) : Prop where
  statements : ∀ statement st, ComesTo registry text opt statement st →
    ¬Meaningless registry statement
  /-- Where no default handler is given, one is made in the end. -/
  notFound : ∀ st, ComesToEnd registry text opt st → st.issetPort = true →
    st.opt.defaultHandler = none → ¬HandlerUndefined registry (lit "NotFoundHandler") [] []

section Meaning

variable {statement : NginxConfigStatement} {st st' : Loading H}

theorem addHandler_undefined_iff {type path : Str} {block : NginxConfig} {opt : LoadedOptions H} :
    opt.addHandler registry type path block = .error .undefinedBehaviour ↔
      HandlerUndefined registry type path block := by
  unfold LoadedOptions.addHandler HandlerUndefined
  cases htype : createByName registry type with
  | none => simp
  | some handlerType =>
      cases hinit : handlerType.init path block with
      | error e => simp [hinit]
      | ok o =>
          cases o with
          | none =>
              cases hdelete : handlerType.delete path block <;> simp [hinit, hdelete, Except.map]
          | some handler =>
              refine iff_of_false ?_ ?_
              · simp only [hinit]
                split <;> simp
              · rintro ⟨other, hother, hfault⟩
                cases hother
                simp [hinit] at hfault

/-- **Where a statement has no meaning**, for a load that has its realms. -/
theorem loadStatement_undefined_iff (hne : statement.tokens ≠ []) (hauth : st.opt.auth ≠ none) :
    loadStatement registry statement st = .error .undefinedBehaviour ↔
      Meaningless registry statement := by
  constructor
  · intro h
    cases hblock : statement.childBlock with
    | none =>
        obtain ⟨n, hlacks, hlen⟩ := lacksBlock_of_undefined hblock hne h
        exact .missing hlacks hlen
    | some block =>
        obtain ⟨key, hhead, hcases⟩ := undefined_cases hne h
        rcases hcases with ⟨rfl, hadd⟩ | ⟨rfl, hadd⟩ | ⟨-, hadd⟩
        · unfold LoadedOptions.addPath at hadd
          split at hadd
          · rename_i first path type htokens
            rw [htokens, List.head?_cons, Option.some.injEq] at hhead
            subst hhead
            rw [hblock] at hadd
            exact .path htokens hblock (addHandler_undefined_iff.mp hadd)
          · cases hadd
        · unfold LoadedOptions.addDefaultHandler at hadd
          split at hadd
          · rename_i first type htokens
            rw [htokens, List.head?_cons, Option.some.injEq] at hhead
            subst hhead
            rw [hblock] at hadd
            exact .default htokens hblock (addHandler_undefined_iff.mp hadd)
          · cases hadd
        · unfold LoadedOptions.addAuthenticationRealm at hadd
          obtain ⟨auth, hsome⟩ := Option.ne_none_iff_exists'.mp hauth
          rw [hsome] at hadd
          split at hadd
          · rw [hblock] at hadd
            cases hcredentials : LoadedOptions.credentials ∅ block <;> simp [hcredentials] at hadd
          · cases hadd
  · intro h
    cases h with
    | missing hlacks hlen => rw [loadStatement_lacksBlock registry hlacks, if_pos hlen]
    | path htokens hblock h =>
        unfold loadStatement
        rw [htokens]
        simp only
        rw [if_neg (by decide), if_neg (by decide), if_true]
        simp [LoadedOptions.addPath, htokens, hblock, addHandler_undefined_iff.mpr h, Except.map]
    | default htokens hblock h =>
        unfold loadStatement
        rw [htokens]
        simp only
        rw [if_neg (by decide), if_neg (by decide), if_neg (by decide), if_true]
        simp [LoadedOptions.addDefaultHandler, htokens, hblock, addHandler_undefined_iff.mpr h,
          Except.map]

/-- The loop has no meaning where a statement it comes to has none. -/
theorem loadStatements_undefined_iff {config : NginxConfig} :
    ∀ {st : Loading H}, loadStatements registry config st = .error .undefinedBehaviour ↔
      ∃ before statement after st', config = before ++ statement :: after ∧
        loadStatements registry before st = .ok (some st') ∧
        loadStatement registry statement st' = .error .undefinedBehaviour := by
  intro st
  constructor
  · induction config generalizing st with
    | nil =>
        intro h
        cases h
    | cons statement rest ih =>
        intro h
        simp only [loadStatements] at h
        cases hnext : loadStatement registry statement st with
        | error e =>
            rw [hnext] at h
            cases h
            exact ⟨[], statement, rest, st, rfl, rfl, hnext⟩
        | ok o =>
            rw [hnext] at h
            cases o with
            | none => cases h
            | some next =>
                obtain ⟨before, statement', after, st', rfl, hbefore, hfault⟩ := ih h
                refine ⟨statement :: before, statement', after, st', rfl, ?_, hfault⟩
                simp only [loadStatements, hnext]
                exact hbefore
  · rintro ⟨before, statement, after, st', rfl, hbefore, hfault⟩
    rw [loadStatements_append, hbefore]
    show loadStatements registry (statement :: after) st' = _
    simp only [loadStatements, hfault]

/-- The realms are there from the start. -/
theorem loadStatements_auth {config : NginxConfig}
    (hwords : ∀ statement ∈ config, ∀ token ∈ statement.tokens, token ≠ []) :
    ∀ {st : Loading H}, loadStatements registry config st = .ok (some st') → st.opt.auth ≠ none →
      st'.opt.auth ≠ none := by
  induction config with
  | nil =>
      intro st h hauth
      cases h
      exact hauth
  | cons statement rest ih =>
      intro st h hauth
      simp only [loadStatements] at h
      cases hnext : loadStatement registry statement st with
      | error e =>
          rw [hnext] at h
          cases h
      | ok o =>
          rw [hnext] at h
          cases o with
          | none => cases h
          | some next =>
              refine ih (fun s hs => hwords s (by simp [hs])) h ?_
              cases loadStatement_loads (hwords statement (by simp)) hnext with
              | realm hsome hdeclares => simp
              | port => exact hauth
              | threads => exact hauth
              | path => exact hauth
              | default => exact hauth

theorem finish_undefined_iff : finish registry st = .error .undefinedBehaviour ↔
    st.issetPort = true ∧ st.opt.defaultHandler = none ∧
      HandlerUndefined registry (lit "NotFoundHandler") [] [] := by
  by_cases hset : st.issetPort = true
  · rw [finish_of_port hset, ← (settled_fields st).2.1, ← @addHandler_undefined_iff _ _ _ _ _
      (settled st)]
    cases hdefault : (settled st).defaultHandler with
    | some handler => simp
    | none =>
        cases hadd : (settled st).addHandler registry (lit "NotFoundHandler") [] [] <;>
          simp [hset, Except.map]
  · rw [finish, if_pos (by simpa using hset)]
    simp [hset]

/-- **Which loads have a meaning.** -/
theorem load_defined_iff (registry : Registry H) (text : Str) (opt : LoadedOptions H) :
    loadOptionsFromStream registry text opt ≠ .error .undefinedBehaviour ↔
      Meaningful registry text opt := by
  obtain ⟨parsed, config, hparse⟩ := parse_total text
  have hsame : ∀ {config'}, parse text = .ok (true, config') → parsed = true ∧ config' = config := by
    intro config' hparse'
    rw [hparse] at hparse'
    cases hparse'
    exact ⟨rfl, rfl⟩
  cases parsed with
  | false =>
      refine iff_of_true ?_ ⟨?_, ?_⟩
      · rw [loadOptionsFromStream, hparse]
        simp
      · rintro statement st ⟨before, after, hparse', -⟩
        cases (hsame hparse').1
      · rintro st ⟨config', hparse', -⟩
        cases (hsame hparse').1
  | true =>
      have hwords := fun statement hmem => WellWorded.of_parse hparse statement (.here hmem)
      have hloop : loadStatements registry config (starting opt) = .error .undefinedBehaviour ↔
          ∃ statement st, ComesTo registry text opt statement st ∧
            Meaningless registry statement := by
        have hmeaning : ∀ {statement st}, ComesTo registry text opt statement st →
            (loadStatement registry statement st = .error .undefinedBehaviour ↔
              Meaningless registry statement) := by
          intro statement st hcomes
          have hne := hcomes.tokens_ne_nil
          obtain ⟨before, after, hparse', hbefore⟩ := hcomes
          obtain rfl := (hsame hparse').2
          refine loadStatement_undefined_iff hne (loadStatements_auth ?_ hbefore (by simp [starting]))
          exact fun s hs => (hwords s (by simp [hs])).2
        rw [loadStatements_undefined_iff]
        constructor
        · rintro ⟨before, statement, after, st, rfl, hbefore, hfault⟩
          have hcomes : ComesTo registry text opt statement st := ⟨before, after, hparse, hbefore⟩
          exact ⟨statement, st, hcomes, (hmeaning hcomes).mp hfault⟩
        · rintro ⟨statement, st, hcomes, hless⟩
          have hfault := (hmeaning hcomes).mpr hless
          obtain ⟨before, after, hparse', hbefore⟩ := hcomes
          exact ⟨before, statement, after, st, ((hsame hparse').2).symm, hbefore, hfault⟩
      rw [loadOptionsFromStream_parsed hparse]
      constructor
      · intro hdefined
        refine ⟨fun statement st hcomes hless => hdefined ?_, fun st hend hset hdefault hhandler =>
          hdefined ?_⟩
        · rw [hloop.mpr ⟨statement, st, hcomes, hless⟩]
          rfl
        · obtain ⟨config', hparse', hst⟩ := hend
          obtain rfl := (hsame hparse').2
          rw [hst]
          exact finish_undefined_iff.mpr ⟨hset, hdefault, hhandler⟩
      · intro hmeaningful hundefined
        cases hst : loadStatements registry config (starting opt) with
        | error e =>
            rw [hst] at hundefined
            cases hundefined
            obtain ⟨statement, st, hcomes, hless⟩ := hloop.mp hst
            exact hmeaningful.statements statement st hcomes hless
        | ok o =>
            rw [hst] at hundefined
            cases o with
            | none => cases hundefined
            | some st =>
                obtain ⟨hset, hdefault, hhandler⟩ := finish_undefined_iff.mp hundefined
                exact hmeaningful.notFound st ⟨config, hparse, hst⟩ hset hdefault hhandler

end Meaning

/-! ### Independence of earlier loads -/

/--
**Loading into any options at all**, such as loads leave, gives an answer, and the one a
new `Options` gives, exactly if the text has a meaning wherever the load comes; and where it
loads, the same settings exactly if every handler from before has its path declared again.
-/
theorem load_independent_iff (registry : Registry H) (kind : H → K) (text : Str)
    (opt : LoadedOptions H) :
    (loadOptionsFromStream registry text opt ≠ .error .undefinedBehaviour ∧
        (loadOptionsFromStream registry text opt).map Option.isSome
          = (loadOptionsFromStream registry text .fresh).map Option.isSome ↔
      Meaningful registry text opt) ∧
      ∀ config loaded fresh, parse text = .ok (true, config) →
        loadOptionsFromStream registry text opt = .ok (some loaded) →
        loadOptionsFromStream registry text .fresh = .ok (some fresh) →
        (SameSettings kind loaded fresh ↔ ∀ path ∈ opt.handlerMap,
          ∃ statement ∈ config, statement.tokens.take 2 = [lit "path", path]) := by
  have halike := loadOptionsFromStream_alike registry text opt
  constructor
  · rw [load_defined_iff, and_iff_left halike.answer]
  · intro config loaded fresh hparse hload hfresh
    rw [hload, hfresh] at halike
    cases halike with
    | gave hagrees =>
        rw [hagrees.sameSettings_iff]
        exact forall₂_congr fun path _ => mem_handlerMap_iff hparse hfresh path

/-- A load that succeeds leaves what it returned true for. -/
theorem optionsLeft_of_loads {text : Str} {opt opt' : LoadedOptions H}
    (h : loadOptionsFromStream registry text opt = .ok (some opt')) :
    optionsLeft registry text opt = some opt' := by
  obtain ⟨parsed, config, hparse⟩ := parse_total text
  cases parsed with
  | false =>
      rw [loadOptionsFromStream, hparse] at h
      cases h
  | true =>
      rw [loadOptionsFromStream_parsed hparse] at h
      cases hload : loadStatements registry config (starting opt) with
      | error e =>
          rw [hload] at h
          cases h
      | ok o =>
          rw [hload] at h
          cases o with
          | none => cases h
          | some st =>
              have hfinish : finish registry st = .ok (some opt') := h
              simp only [optionsLeft, hparse, hload, finished, hfinish]

/-- And one that has no meaning leaves nothing. -/
theorem optionsLeft_eq_none {text : Str} {opt : LoadedOptions H} :
    optionsLeft registry text opt = none ↔
      loadOptionsFromStream registry text opt = .error .undefinedBehaviour := by
  obtain ⟨parsed, config, hparse⟩ := parse_total text
  cases parsed with
  | false => simp [optionsLeft, loadOptionsFromStream, hparse]
  | true =>
      rw [loadOptionsFromStream_parsed hparse, optionsLeft, hparse]
      cases hload : loadStatements registry config (starting opt) with
      | error e => cases e <;> simp [hload, Except.bind]
      | ok o =>
          cases o with
          | none => simp [hload, Except.bind]
          | some st =>
              simp only [hload]
              show finished registry st = none ↔ finish registry st = _
              rw [finished]
              cases hfinish : finish registry st with
              | error e => cases e <;> simp
              | ok o => cases o <;> simp

def echoConfig : Str := lit "port 8080; path /a EchoHandler \x7b\x7d"

/-- What was loaded, and something about it that can be computed. -/
theorem exists_of_join_map {α β : Type} {x : Except Fault (Option α)} {f : α → β} {b : β}
    (h : x.toOption.join.map f = some b) : ∃ a, x = .ok (some a) ∧ f a = b := by
  obtain ⟨a, ha, hb⟩ := Option.map_eq_some_iff.mp h
  obtain ⟨a', ha'⟩ := exists_of_isSome_join (x := x) (by rw [ha]; rfl)
  rw [ha'] at ha
  cases ha
  exact ⟨a, ha', hb⟩

/-- A new `Options` that has loaded a text, and what another load makes of it. -/
theorem exists_of_loaded_twice {β : Type} (first text : Str) {f : LoadedOptions (Str × Str) → β}
    {b : β} (h : ((optionsAfter exampleRegistry [first]).bind fun left =>
      ((loadOptionsFromStream exampleRegistry text left).toOption.join.map f)) = some b) :
    ∃ left opt, optionsAfter exampleRegistry [first] = some left ∧
      loadOptionsFromStream exampleRegistry text left = .ok (some opt) ∧ f opt = b := by
  obtain ⟨left, hleft, hjoin⟩ := Option.bind_eq_some_iff.mp h
  obtain ⟨opt, hload, hf⟩ := exists_of_join_map hjoin
  exact ⟨left, opt, hleft, hload, hf⟩

theorem load_independent_example :
    ∃ config left opt opt', optionsAfter exampleRegistry [echoConfig] = some left ∧
      parse echoConfig = .ok (true, config) ∧
      loadOptionsFromStream exampleRegistry echoConfig left = .ok (some opt) ∧
      loadOptionsFromStream exampleRegistry echoConfig .fresh = .ok (some opt') ∧
      (SameSettings Prod.fst opt opt' ↔ ∀ path ∈ left.handlerMap,
        ∃ statement ∈ config, statement.tokens.take 2 = [lit "path", path]) := by
  obtain ⟨left, opt, hleft, hload, -⟩ := exists_of_loaded_twice echoConfig echoConfig
    (f := fun _ => ()) (b := ()) (by decide +kernel)
  obtain ⟨opt', hfresh⟩ := exists_of_isSome_join
    (x := loadOptionsFromStream exampleRegistry echoConfig .fresh) (by decide +kernel)
  obtain ⟨config, st, hparse, -⟩ := loadOptionsFromStream_eq_some hfresh
  exact ⟨config, left, opt, opt', hleft, hparse, hload, hfresh,
    (load_independent_iff exampleRegistry Prod.fst echoConfig left).2 config opt opt' hparse hload
      hfresh⟩

/-- The handler of a config is still there after one without it. -/
theorem stale_handler_kept :
    ∃ left opt opt', optionsAfter exampleRegistry [echoConfig] = some left ∧
      loadOptionsFromStream exampleRegistry (lit "port 8080;") left = .ok (some opt) ∧
      loadOptionsFromStream exampleRegistry (lit "port 8080;") .fresh = .ok (some opt') ∧
      lit "/a" ∈ opt.handlerMap ∧ lit "/a" ∉ opt'.handlerMap ∧
      ¬SameSettings Prod.fst opt opt' := by
  obtain ⟨left, opt, hleft, hload, hkept⟩ := exists_of_loaded_twice echoConfig
    (lit "port 8080;") (f := fun opt => opt.handlerMap.contains (lit "/a")) (b := true)
    (by decide +kernel)
  obtain ⟨opt', hfresh, hnot⟩ := exists_of_join_map
    (x := loadOptionsFromStream exampleRegistry (lit "port 8080;") .fresh)
    (f := fun opt => opt.handlerMap.contains (lit "/a")) (b := false) (by decide +kernel)
  have hmem : lit "/a" ∈ opt.handlerMap := Std.TreeMap.mem_iff_contains.mpr hkept
  have hnmem : lit "/a" ∉ opt'.handlerMap := by
    rw [Std.TreeMap.mem_iff_contains, hnot]
    simp
  refine ⟨left, opt, opt', hleft, hload, hfresh, hmem, hnmem, fun hsame => ?_⟩
  have hpath := hsame.handlers (lit "/a")
  rw [Std.TreeMap.getElem?_eq_none hnmem] at hpath
  rw [Std.TreeMap.mem_iff_isSome_getElem?] at hmem
  obtain ⟨handler, hhandler⟩ := Option.isSome_iff_exists.mp hmem
  rw [hhandler] at hpath
  cases hpath

end JustEnough
