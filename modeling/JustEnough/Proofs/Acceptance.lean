/-
Which configurations load.

`Proofs/Options.lean` says what the options are after a load that returned true.  Here is
when a load does: the text parses, every statement is one of the five kinds with values
that kind takes, there is one `port` and at most one `threads`.  None of it looks at the
order of the statements, so a config loads in every order of them or in none, although a
load changes the options as it goes (`loads_iff`).

A turn of the loop fails for a statement that is not of the five kinds whatever the options
are, and for one that is, only if its number has been set before.
-/
import JustEnough.Proofs.Loading

namespace JustEnough

variable {H : Type}

/-- A statement of one of the five kinds, which a load takes where it has no such number yet. -/
inductive Admissible (registry : Registry H) (statement : NginxConfigStatement) : Prop
  | port {value : Str} {n : Nat} (htokens : statement.tokens = [lit "port", value])
      (hvalue : stoi value = .ok n) (hlo : minPort ≤ n) (hhi : n ≤ maxPort)
  | threads {value : Str} {n : Nat} (htokens : statement.tokens = [lit "threads", value])
      (hvalue : stoi value = .ok n) (hlo : 1 ≤ n) (hhi : n ≤ maxThreads)
  | path {path : Str} {handler : H} (h : PathHandler registry path statement handler)
  | default {handler : H} (h : DefaultHandler registry statement handler)
  | realm {name : Str} {block : NginxConfig} (htokens : statement.tokens = [lit "realm", name])
      (hblock : statement.childBlock = some block) (h : ∀ inner ∈ block, inner.tokens.length = 3)

/-- What a load asks of the statements of a config. -/
structure WellFormed (registry : Registry H) (config : NginxConfig) : Prop where
  admissible : ∀ statement ∈ config, Admissible registry statement
  onePort : (statementsOf (lit "port") config).length = 1
  threads : (statementsOf (lit "threads") config).length ≤ 1

/-! ### One turn of the loop -/

theorem credentials_isSome_iff (authMap : Std.TreeMap Str Str) {block : NginxConfig} :
    (LoadedOptions.credentials authMap block).isSome = true ↔
      ∀ inner ∈ block, inner.tokens.length = 3 := by
  induction block generalizing authMap with
  | nil => simp [LoadedOptions.credentials]
  | cons statement rest ih =>
      rw [List.forall_mem_cons, LoadedOptions.credentials]
      split
      · rename_i key username pass htokens
        rw [ih, htokens]
        simp
      · rename_i hnot
        constructor
        · intro h
          cases h
        · intro h
          obtain ⟨a, b, c, htokens⟩ := List.length_eq_three.mp h.1
          exact absurd htokens (hnot a b c)

/-- A statement that was taken is of one of the five kinds. -/
theorem admissible_of_load {registry : Registry H} {statement : NginxConfigStatement}
    (hwords : ∀ token ∈ statement.tokens, token ≠ []) {st st' : Loading H}
    (h : loadStatement registry statement st = .ok (some st')) : Admissible registry statement := by
  cases loadStatement_loads hwords h with
  | port htokens hunset hvalue hlo hhi => exact .port htokens hvalue hlo hhi
  | threads htokens hunset hvalue hlo hhi => exact .threads htokens hvalue hlo hhi
  | path hhandler hne => exact .path hhandler
  | default hhandler => exact .default hhandler
  | @realm name auth realm hauth hdeclares =>
      obtain ⟨block, htokens, hblock, -⟩ := hdeclares
      refine .realm htokens hblock ?_
      rw [← credentials_isSome_iff ∅]
      by_contra hnone
      rw [Bool.not_eq_true, Option.isSome_eq_false_iff, Option.isNone_iff_eq_none] at hnone
      have hload : loadStatement registry statement st
          = (st.opt.addAuthenticationRealm statement).map (·.map fun opt => { st with opt }) := by
        simp only [loadStatement, htokens]
        rfl
      rw [hload] at h
      simp [LoadedOptions.addAuthenticationRealm, htokens, hblock, hnone, Except.map] at h

/-- A handler that can be made is added. -/
theorem addHandler_of_creates {registry : Registry H} {type path : Str} {block : NginxConfig}
    {handler : H} (h : Creates registry type path block handler) (opt : LoadedOptions H) :
    ∃ opt', opt.addHandler registry type path block = .ok (some opt') ∧ opt'.auth = opt.auth := by
  obtain ⟨init, hinit, hnew⟩ := h
  by_cases hpath : path = []
  · refine ⟨{ opt with defaultHandler := some handler }, ?_, rfl⟩
    subst hpath
    simp [LoadedOptions.addHandler, hinit, hnew]
  · refine ⟨{ opt with handlerMap := opt.handlerMap.insert path handler }, ?_, rfl⟩
    simp [LoadedOptions.addHandler, hinit, hnew, hpath]

/-- A number in range is read. -/
theorem boundedValue_of_range {statement : NginxConfigStatement} {key value : Str} {lo hi n : Nat}
    (htokens : statement.tokens = [key, value]) (hvalue : stoi value = .ok n) (hlo : lo ≤ n)
    (hhi : n ≤ hi) (hmax : hi < 2 ^ 31) :
    LoadedOptions.boundedValue lo hi statement = .ok (some n) := by
  rw [LoadedOptions.boundedValue_eq hmax htokens, hvalue]
  simp [Except.map, hlo, hhi]

/-- A statement of one of the five kinds is taken, unless its number has been set. -/
theorem load_of_admissible {registry : Registry H} {statement : NginxConfigStatement}
    (h : Admissible registry statement) {st : Loading H} (hauth : st.opt.auth.isSome = true)
    (hport : statement.tokens.head? = some (lit "port") → st.issetPort = false)
    (hthreads : statement.tokens.head? = some (lit "threads") → st.issetThread = false) :
    ∃ st', loadStatement registry statement st = .ok (some st') ∧
      st'.opt.auth.isSome = true ∧
      st'.issetPort = (st.issetPort || decide (statement.tokens.head? = some (lit "port"))) ∧
      st'.issetThread
        = (st.issetThread || decide (statement.tokens.head? = some (lit "threads"))) := by
  cases h with
  | @port value n htokens hvalue hlo hhi =>
      have hunset := hport (by rw [htokens]; rfl)
      have hbounded := boundedValue_of_range htokens hvalue hlo hhi (by decide)
      refine ⟨{ st with opt := { st.opt with port := toUnsigned 16 n }, issetPort := true }, ?_,
        hauth, ?_, ?_⟩
      · simp only [loadStatement, htokens]
        rw [if_pos trivial, if_neg (by simp [hunset]), LoadedOptions.addPort, hbounded]
        rfl
      · simp [htokens]
      · have hne : lit "port" ≠ lit "threads" := by decide
        simp [htokens, hne]
  | @threads value n htokens hvalue hlo hhi =>
      have hunset := hthreads (by rw [htokens]; rfl)
      have hbounded := boundedValue_of_range htokens hvalue hlo hhi (by decide)
      have hne : lit "threads" ≠ lit "port" := by decide
      refine ⟨{ st with opt := { st.opt with thread := toUnsigned 32 n }, issetThread := true }, ?_,
        hauth, ?_, ?_⟩
      · simp only [loadStatement, htokens]
        rw [if_neg hne, if_pos trivial, if_neg (by simp [hunset]), LoadedOptions.addThread, hbounded]
        rfl
      · simp [htokens, hne]
      · simp [htokens]
  | @path path handler hhandler =>
      obtain ⟨type, block, htokens, hblock, hcreates⟩ := hhandler
      obtain ⟨opt, hopt, hsame⟩ := addHandler_of_creates hcreates st.opt
      have hneport : lit "path" ≠ lit "port" := by decide
      have hnethreads : lit "path" ≠ lit "threads" := by decide
      refine ⟨{ st with opt }, ?_, by rw [← hauth, ← hsame], ?_, ?_⟩
      · simp only [loadStatement, htokens]
        rw [if_neg hneport, if_neg hnethreads, if_pos trivial]
        simp [LoadedOptions.addPath, htokens, hblock, hopt, Except.map]
      · simp [htokens, hneport]
      · simp [htokens, hnethreads]
  | @default handler hhandler =>
      obtain ⟨type, block, htokens, hblock, hcreates⟩ := hhandler
      obtain ⟨opt, hopt, hsame⟩ := addHandler_of_creates hcreates st.opt
      have hneport : lit "default" ≠ lit "port" := by decide
      have hnethreads : lit "default" ≠ lit "threads" := by decide
      have hnepath : lit "default" ≠ lit "path" := by decide
      refine ⟨{ st with opt }, ?_, by rw [← hauth, ← hsame], ?_, ?_⟩
      · simp only [loadStatement, htokens]
        rw [if_neg hneport, if_neg hnethreads, if_neg hnepath, if_pos trivial]
        simp [LoadedOptions.addDefaultHandler, htokens, hblock, hopt, Except.map]
      · simp [htokens, hneport]
      · simp [htokens, hnethreads]
  | @realm name block htokens hblock hall =>
      obtain ⟨users, husers⟩ := Option.isSome_iff_exists.mp
        ((credentials_isSome_iff ∅).mpr hall)
      obtain ⟨auth, hsome⟩ := Option.isSome_iff_exists.mp hauth
      have hneport : lit "realm" ≠ lit "port" := by decide
      have hnethreads : lit "realm" ≠ lit "threads" := by decide
      have hnepath : lit "realm" ≠ lit "path" := by decide
      have hnedefault : lit "realm" ≠ lit "default" := by decide
      refine ⟨{ st with
        opt := { st.opt with auth := some (auth.addRealm { realm := name, users }) } }, ?_, rfl, ?_, ?_⟩
      · simp only [loadStatement, htokens]
        rw [if_neg hneport, if_neg hnethreads, if_neg hnepath, if_neg hnedefault, if_pos trivial]
        simp [LoadedOptions.addAuthenticationRealm, htokens, hblock, husers, hsome, Except.map]
      · simp [htokens, hneport]
      · simp [htokens, hnethreads]

/-! ### The loop -/

theorem statementsOf_cons (key : Str) (statement : NginxConfigStatement) (rest : NginxConfig) :
    (statementsOf key (statement :: rest)).length
      = (decide (statement.tokens.head? = some key)).toNat + (statementsOf key rest).length := by
  by_cases h : statement.tokens.head? = some key
  · simp [statementsOf, h, Nat.add_comm]
  · simp [statementsOf, h]

/-- Of a run of the loop that went through, every statement was taken. -/
theorem admissible_of_loads {registry : Registry H} {rest : NginxConfig} {st st' : Loading H}
    (hwords : ∀ statement ∈ rest, ∀ token ∈ statement.tokens, token ≠ [])
    (h : loadStatements registry rest st = .ok (some st')) :
    ∀ statement ∈ rest, Admissible registry statement := by
  induction rest generalizing st with
  | nil => exact List.forall_mem_nil _
  | cons statement rest ih =>
      rw [List.forall_mem_cons] at hwords ⊢
      simp only [loadStatements] at h
      split at h
      · cases h
      · cases h
      · rename_i next hnext
        exact ⟨admissible_of_load hwords.1 hnext, ih hwords.2 h⟩

/-- The loop goes through statements of the five kinds, if no number is set twice. -/
theorem loads_of_admissible {registry : Registry H} {rest : NginxConfig} (st : Loading H)
    (hall : ∀ statement ∈ rest, Admissible registry statement)
    (hauth : st.opt.auth.isSome = true)
    (hport : st.issetPort.toNat + (statementsOf (lit "port") rest).length ≤ 1)
    (hthreads : st.issetThread.toNat + (statementsOf (lit "threads") rest).length ≤ 1) :
    ∃ st', loadStatements registry rest st = .ok (some st') ∧
      st'.issetPort.toNat = st.issetPort.toNat + (statementsOf (lit "port") rest).length := by
  induction rest generalizing st with
  | nil => exact ⟨st, rfl, rfl⟩
  | cons statement rest ih =>
      rw [List.forall_mem_cons] at hall
      rw [statementsOf_cons] at hport hthreads ⊢
      obtain ⟨next, hnext, hauth', hport', hthreads'⟩ := load_of_admissible hall.1 hauth
        (fun hkey => by cases hset : st.issetPort <;> simp_all)
        (fun hkey => by cases hset : st.issetThread <;> simp_all)
      have hports : next.issetPort.toNat = st.issetPort.toNat
          + (decide (statement.tokens.head? = some (lit "port"))).toNat := by
        rw [hport']
        cases hset : st.issetPort <;> simp_all
      have hthreadss : next.issetThread.toNat = st.issetThread.toNat
          + (decide (statement.tokens.head? = some (lit "threads"))).toNat := by
        rw [hthreads']
        cases hset : st.issetThread <;> simp_all
      obtain ⟨st', hst', hcount⟩ := ih next hall.2 hauth' (by omega) (by omega)
      refine ⟨st', ?_, by omega⟩
      simp only [loadStatements, hnext]
      exact hst'

/-! ### The load -/

/-- What follows the loop fails for want of a port only. -/
theorem finish_of_notFound {registry : Registry H} (hnotFound : HasNotFoundHandler registry)
    {st : Loading H} (hset : st.issetPort = true) :
    ∃ opt, finish registry st = .ok (some opt) := by
  rw [finish_of_port hset]
  cases (settled st).defaultHandler with
  | some handler => exact ⟨_, rfl⟩
  | none =>
      obtain ⟨init, hinit, hall⟩ := hnotFound
      obtain ⟨handler, hnew⟩ := hall [] []
      have hname : createByName registry (lit "NotFoundHandler") = some init := by
        have hstring : cString (lit "NotFoundHandler") = lit "NotFoundHandler" := by decide
        rw [createByName, hstring, hinit]
      obtain ⟨opt, hopt, -⟩ := addHandler_of_creates ⟨init, hname, hnew⟩ (settled st)
      refine ⟨opt, ?_⟩
      rw [Option.elim_none, hopt]
      rfl

/-- Loading that text into these options returns true. -/
def CanLoad (registry : Registry H) (text : Str) (opt : LoadedOptions H) : Prop :=
  ∃ opt', loadOptionsFromStream registry text opt = .ok (some opt')

theorem canLoad_fresh_iff {registry : Registry H} (hnotFound : HasNotFoundHandler registry)
    {text : Str} {config : NginxConfig} (hparse : parse text = .ok (true, config)) :
    CanLoad registry text .fresh ↔ WellFormed registry config := by
  constructor
  · intro ⟨opt, h⟩
    obtain ⟨config', st', hparse', hloaded, hfinish⟩ := loadOptionsFromStream_eq_some h
    obtain rfl : config' = config := by
      rw [hparse] at hparse'
      cases hparse'
      rfl
    rw [loadOptionsFromStream_parsed hparse] at h
    have hset := (finish_eq_some hfinish).1
    refine ⟨?_, ?_, ?_⟩
    · cases hloop : loadStatements registry config' (starting .fresh) with
      | error e =>
          rw [hloop] at h
          cases h
      | ok o =>
          cases o with
          | none =>
              rw [hloop] at h
              cases h
          | some st =>
              refine admissible_of_loads ?_ hloop
              intro statement hmem
              exact (WellWorded.of_parse hparse statement (.here hmem)).2
    · obtain ⟨hunset, -⟩ | ⟨-, ⟨statement, value, honly, -⟩, -⟩ := hloaded.port
      · rw [hset] at hunset
        cases hunset
      · rw [honly]
        rfl
    · obtain ⟨-, hnone⟩ | ⟨-, ⟨statement, value, honly, -⟩, -⟩ := hloaded.threads
      · simp [hnone]
      · simp [honly]
  · intro hwell
    have hports := hwell.onePort
    obtain ⟨st, hst, hcount⟩ := loads_of_admissible (starting .fresh) hwell.admissible rfl
      (Nat.le_of_eq (by rw [hports]; rfl))
      (Nat.le_trans (Nat.le_of_eq (Nat.zero_add _)) hwell.threads)
    have hset : st.issetPort = true := by
      rw [hports] at hcount
      cases hport : st.issetPort with
      | true => rfl
      | false => simp [hport, starting] at hcount
    obtain ⟨opt, hopt⟩ := finish_of_notFound hnotFound hset
    refine ⟨opt, ?_⟩
    rw [loadOptionsFromStream_parsed hparse, hst]
    exact hopt

/-- The answer does not depend on the options it is loaded into. -/
theorem canLoad_iff {registry : Registry H} (hnotFound : HasNotFoundHandler registry)
    {text : Str} {config : NginxConfig} (hparse : parse text = .ok (true, config))
    (opt : LoadedOptions H) : CanLoad registry text opt ↔ WellFormed registry config := by
  rw [← canLoad_fresh_iff hnotFound hparse, CanLoad, CanLoad]
  have halike := loadOptionsFromStream_alike registry text opt
  generalize loadOptionsFromStream registry text opt = result at halike ⊢
  generalize loadOptionsFromStream registry text .fresh = fresh at halike ⊢
  cases halike with
  | threw e => simp
  | refused => simp
  | gave h => simp

theorem WellFormed.perm {registry : Registry H} {config config' : NginxConfig}
    (hperm : config.Perm config') (h : WellFormed registry config) : WellFormed registry config' := by
  have hsame : ∀ key, (statementsOf key config').length = (statementsOf key config).length :=
    fun key => (hperm.filter _).length_eq.symm
  refine ⟨?_, ?_, ?_⟩
  · intro statement hmem
    exact h.admissible statement (hperm.mem_iff.mpr hmem)
  · rw [hsame]
    exact h.onePort
  · rw [hsame]
    exact h.threads

/--
**Which configs load**, into any options: those that parse to statements of the five kinds
with one `port` and at most one `threads`, in whatever order these stand.
-/
theorem loads_iff (registry : Registry H) (hnotFound : HasNotFoundHandler registry) (text : Str)
    (opt : LoadedOptions H) :
    (CanLoad registry text opt ↔
      ∃ config, parse text = .ok (true, config) ∧ WellFormed registry config) ∧
    ∀ text' config config', parse text = .ok (true, config) → parse text' = .ok (true, config') →
      config.Perm config' → (CanLoad registry text opt ↔ CanLoad registry text' opt) := by
  refine ⟨?_, ?_⟩
  · obtain ⟨parsed, config, hparse⟩ := parse_total text
    cases parsed with
    | true =>
        rw [canLoad_iff hnotFound hparse]
        simp [hparse]
    | false =>
        constructor
        · intro hload
          obtain ⟨opt', h⟩ := hload
          rw [loadOptionsFromStream, hparse] at h
          cases h
        · intro hformed
          obtain ⟨config', hparse', _⟩ := hformed
          rw [hparse] at hparse'
          cases hparse'
  · intro text' config config' hparse hparse' hperm
    rw [canLoad_iff hnotFound hparse, canLoad_iff hnotFound hparse']
    exact ⟨WellFormed.perm hperm, WellFormed.perm hperm.symm⟩

theorem exampleRegistry_hasNotFound : HasNotFoundHandler exampleRegistry :=
  ⟨_, rfl, fun path _ => ⟨(lit "NotFoundHandler", path), rfl⟩⟩

theorem loads_iff_example :
    ∃ config, parse exampleConfig = .ok (true, config) ∧ WellFormed exampleRegistry config :=
  (loads_iff exampleRegistry exampleRegistry_hasNotFound exampleConfig .fresh).1.mp
    (exists_of_isSome_join (by decide +kernel))

end JustEnough
