/-
What a loaded configuration means.

A config that loads has one `port` and at most one `threads`; of several `path`
statements with one path, of several `default`s and of several realms of one name the
last counts, and so it does for the users of a realm (`loadOptionsFromStream_describes`).

The loop adds one statement at a time to what it has described so far
(`LoadedFrom.step`), and there are five ways for it to go on (`Loads`).  That a `path`
statement never sets the default handler, for which `addHandler` would take it if its
path were empty, rests on the parser: no token of its trees is empty
(`WellWorded.of_parse`).
-/
import JustEnough.Server.Options
import JustEnough.Proofs.ParserStack

namespace JustEnough

/-! ### The statements that count -/

/-- The statements with that key. -/
def statementsOf (key : Str) (config : NginxConfig) : NginxConfig :=
  config.filter fun statement => statement.tokens.head? = some key

/-- The last statement with that key. -/
def lastOf (key : Str) (config : NginxConfig) : Option NginxConfigStatement :=
  config.reverse.find? fun statement => statement.tokens.head? = some key

/-- The last statement with that key for that name. -/
def lastFor (key name : Str) (config : NginxConfig) : Option NginxConfigStatement :=
  config.reverse.find? fun statement => statement.tokens.take 2 = [key, name]

section Last

variable {key name : Str} {statement : NginxConfigStatement}

theorem statementsOf_concat (config : NginxConfig) :
    statementsOf key (config ++ [statement])
      = statementsOf key config ++ if statement.tokens.head? = some key then [statement] else [] := by
  simp [statementsOf, List.filter_cons]

theorem lastOf_concat (config : NginxConfig) :
    lastOf key (config ++ [statement])
      = if statement.tokens.head? = some key then some statement else lastOf key config := by
  by_cases h : statement.tokens.head? = some key <;> simp [lastOf, h]

theorem lastFor_concat (config : NginxConfig) :
    lastFor key name (config ++ [statement])
      = if statement.tokens.take 2 = [key, name] then some statement
        else lastFor key name config := by
  by_cases h : statement.tokens.take 2 = [key, name] <;> simp [lastFor, h]

theorem lastFor_isSome_iff {config : NginxConfig} :
    (lastFor key name config).isSome = true ↔
      ∃ statement ∈ config, statement.tokens.take 2 = [key, name] := by
  simp [lastFor]

/-- A statement with another key is not for the name either. -/
theorem take_ne_of_head {statement : NginxConfigStatement}
    (h : statement.tokens.head? ≠ some key) : statement.tokens.take 2 ≠ [key, name] := by
  intro htake
  have hhead : (statement.tokens.take 2).head? = some key := by rw [htake]; rfl
  exact h (by simpa [List.head?_take] using hhead)

end Last

/-- The password a statement gives a user. -/
def credentialOf (username : Str) (statement : NginxConfigStatement) : Option Str :=
  if statement.tokens.take 2 = [lit "credentials", username] then statement.tokens[2]? else none

/-- The last password a block gives a user. -/
def lastCredential (block : NginxConfig) (username : Str) : Option Str :=
  block.reverse.findSome? (credentialOf username)

/-! ### What a config describes -/

variable {H : Type}

/-- A handler of that type, initialised with that path and block. -/
def Creates (registry : Registry H) (type path : Str) (block : NginxConfig) (handler : H) : Prop :=
  ∃ handlerType, createByName registry type = some handlerType ∧
    handlerType.init path block = .ok (some handler)

def PathHandler (registry : Registry H) (path : Str) (statement : NginxConfigStatement)
    (handler : H) : Prop :=
  ∃ type block, statement.tokens = [lit "path", path, type] ∧ statement.childBlock = some block ∧
    Creates registry type path block handler

def DefaultHandler (registry : Registry H) (statement : NginxConfigStatement) (handler : H) : Prop :=
  ∃ type block, statement.tokens = [lit "default", type] ∧ statement.childBlock = some block ∧
    Creates registry type [] block handler

/-- The realm a statement declares: its name, and for each user the last password in its block. -/
def DeclaresRealm (name : Str) (statement : NginxConfigStatement) (realm : AuthenticationRealm) :
    Prop :=
  ∃ block, statement.tokens = [lit "realm", name] ∧ statement.childBlock = some block ∧
    realm.realm = name ∧ ∀ username, realm.users[username]? = lastCredential block username

/-- The one statement with that key, and its value. -/
def OnlyValue (key : Str) (config : NginxConfig) (n : Nat) : Prop :=
  ∃ statement value, statementsOf key config = [statement] ∧ statement.tokens = [key, value] ∧
    stoi value = .ok n

/-- What `opt` has from the statements of `config`. -/
structure Describes (registry : Registry H) (config : NginxConfig) (opt : LoadedOptions H) :
    Prop where
  port : OnlyValue (lit "port") config opt.port
  port_range : 1024 ≤ opt.port ∧ opt.port ≤ 65535
  threads : statementsOf (lit "threads") config = [] ∧ opt.thread = 8 ∨
    OnlyValue (lit "threads") config opt.thread
  thread_range : 1 ≤ opt.thread ∧ opt.thread ≤ 2000
  /-- The keys of `handlerMap` are the second tokens of the `path` statements. -/
  paths : ∀ path, path ∈ opt.handlerMap ↔
    ∃ statement ∈ config, statement.tokens.take 2 = [lit "path", path]
  /-- Under each of them stands the handler of the last statement with it. -/
  handlers : ∀ path, Option.Rel (PathHandler registry path) (lastFor (lit "path") path config)
    opt.handlerMap[path]?
  /-- No `path` statement is one for the default handler. -/
  noEmptyPath : [] ∉ opt.handlerMap
  /-- The default handler is that of the last `default` statement, or a `NotFoundHandler`. -/
  default : ∃ handler, opt.defaultHandler = some handler ∧
    (lastOf (lit "default") config).elim (Creates registry (lit "NotFoundHandler") [] [] handler)
      (DefaultHandler registry · handler)
  /-- The realms are the second tokens of the `realm` statements, each as declared last. -/
  realms : ∃ auth, opt.auth = some auth ∧
    (∀ name, name ∈ auth.realms ↔
      ∃ statement ∈ config, statement.tokens.take 2 = [lit "realm", name]) ∧
    ∀ name, Option.Rel (DeclaresRealm name) (lastFor (lit "realm") name config) auth.realms[name]?

/-! ### One turn of the loop -/

/-- The ways one turn of the loop can succeed. -/
inductive Loads (registry : Registry H) (statement : NginxConfigStatement) (st : Loading H) :
    Loading H → Prop
  | port {value : Str} {n : Nat} (htokens : statement.tokens = [lit "port", value])
      (hunset : st.issetPort = false) (hvalue : stoi value = .ok n) (hlo : minPort ≤ n)
      (hhi : n ≤ maxPort) :
      Loads registry statement st { st with opt := { st.opt with port := n }, issetPort := true }
  | threads {value : Str} {n : Nat} (htokens : statement.tokens = [lit "threads", value])
      (hunset : st.issetThread = false) (hvalue : stoi value = .ok n) (hlo : 1 ≤ n)
      (hhi : n ≤ maxThreads) :
      Loads registry statement st { st with opt := { st.opt with thread := n }, issetThread := true }
  | path {path : Str} {handler : H} (h : PathHandler registry path statement handler)
      (hne : path ≠ []) :
      Loads registry statement st { st with
        opt := { st.opt with handlerMap := st.opt.handlerMap.insert path handler } }
  | default {handler : H} (h : DefaultHandler registry statement handler) :
      Loads registry statement st { st with opt := { st.opt with defaultHandler := some handler } }
  | realm {name : Str} {auth : Authentication} {realm : AuthenticationRealm}
      (hauth : st.opt.auth = some auth) (h : DeclaresRealm name statement realm) :
      Loads registry statement st { st with opt := { st.opt with auth := some (auth.addRealm realm) } }

/-- Of a call that may throw and may return false: what it gave when the rest went on from it. -/
theorem map_map_eq_some {α β : Type} {x : Except Fault (Option α)} {f : α → β} {b : β}
    (h : x.map (·.map f) = .ok (some b)) : ∃ a, x = .ok (some a) ∧ f a = b := by
  cases x with
  | error e => cases h
  | ok o =>
      obtain ⟨a, ha, hb⟩ := Option.map_eq_some_iff.mp (Except.ok.inj h)
      exact ⟨a, by rw [ha], hb⟩

namespace LoadedOptions

theorem addHandler_eq_some {registry : Registry H} {type path : Str} {block : NginxConfig}
    {opt opt' : LoadedOptions H} (h : opt.addHandler registry type path block = .ok (some opt')) :
    ∃ handler, Creates registry type path block handler ∧ opt' =
      if path = [] then { opt with defaultHandler := some handler }
      else { opt with handlerMap := opt.handlerMap.insert path handler } := by
  unfold addHandler at h
  split at h
  · cases h
  · rename_i handlerType htype
    split at h
    · cases h
    · cases hdelete : handlerType.delete path block with
      | error e =>
          rw [hdelete] at h
          cases h
      | ok _ =>
          rw [hdelete] at h
          cases h
    · rename_i handler hhandler
      refine ⟨handler, ⟨handlerType, htype, hhandler⟩, ?_⟩
      split at h <;> cases h <;> rename_i hpath <;> simp [hpath]

/-- The bounds are compared as they are meant, since no negative number gets below them. -/
theorem boundedValue_eq {lo hi : Nat} (hhi : hi < 2 ^ 31) {statement : NginxConfigStatement}
    {key token : Str} (htokens : statement.tokens = [key, token]) :
    boundedValue lo hi statement
      = (stoi token).map fun n : Int => if lo ≤ n ∧ n ≤ hi then some n else none := by
  unfold boundedValue
  rw [htokens]
  cases hn : stoi token with
  | error e => simp only [hn, Except.map]
  | ok n =>
      have hrange := stoi_range hn
      simp only [hn, Except.map]
      by_cases hin : lo ≤ n ∧ n ≤ hi
      · have hbounds : ¬(toUnsigned 32 n > hi ∨ toUnsigned 32 n < lo) := by
          simp only [toUnsigned]
          omega
        rw [if_neg hbounds, if_pos hin]
      · have hbounds : toUnsigned 32 n > hi ∨ toUnsigned 32 n < lo := by
          simp only [toUnsigned]
          omega
        rw [if_pos hbounds, if_neg hin]

theorem boundedValue_eq_some {lo hi : Nat} (hhi : hi < 2 ^ 31) {statement : NginxConfigStatement}
    {n : Int} (h : boundedValue lo hi statement = .ok (some n)) :
    ∃ key value k, statement.tokens = [key, value] ∧ stoi value = .ok (k : Nat) ∧ n = k ∧ lo ≤ k ∧
      k ≤ hi := by
  by_cases hlen : statement.tokens.length = 2
  · obtain ⟨key, value, htokens⟩ := List.length_eq_two.mp hlen
    rw [boundedValue_eq hhi htokens] at h
    cases hn : stoi value with
    | error e =>
        rw [hn] at h
        cases h
    | ok m =>
        rw [hn] at h
        have hvalue : (if (lo : Int) ≤ m ∧ m ≤ hi then some m else none) = some n := Except.ok.inj h
        obtain ⟨hbounds, hmn⟩ := Option.ite_none_right_eq_some.mp hvalue
        obtain rfl := Option.some.inj hmn
        have hnonneg : 0 ≤ m := by omega
        lift m to Nat using hnonneg with k
        exact ⟨key, value, k, htokens, hn, rfl, by omega, by omega⟩
  · unfold boundedValue at h
    split at h
    · rename_i key value htokens
      simp [htokens] at hlen
    · cases h

/-- The map of a realm has for each user the last password. -/
theorem credentials_eq_some {block : NginxConfig} :
    ∀ {authMap users : Std.TreeMap Str Str}, credentials authMap block = some users →
      ∀ username, users[username]? = (lastCredential block username).or authMap[username]? := by
  induction block with
  | nil =>
      intro authMap users h username
      cases h
      simp [lastCredential]
  | cons statement rest ih =>
      intro authMap users h username
      simp only [credentials] at h
      split at h
      · rename_i key user pass htokens
        have hlast : lastCredential (statement :: rest) username
            = (lastCredential rest username).or (credentialOf username statement) := by
          simp [lastCredential]
        have hfirst : (credentialOf username statement).or authMap[username]?
            = (if key = lit "credentials" then authMap.insert user pass else authMap)[username]? := by
          by_cases hkey : key = lit "credentials"
          · by_cases huser : user = username
            · simp [credentialOf, htokens, hkey, huser]
            · have hcmp : compare user username ≠ .eq :=
                fun hc => huser (Std.LawfulEqCmp.eq_of_compare hc)
              simp [credentialOf, htokens, hkey, huser, Std.TreeMap.getElem?_insert, hcmp]
          · simp [credentialOf, htokens, hkey]
        rw [ih h username, hlast, Option.or_assoc, hfirst]
      · cases h

theorem addPath_eq_some {registry : Registry H} {statement : NginxConfigStatement}
    (hkey : statement.tokens.head? = some (lit "path")) (hwords : ∀ token ∈ statement.tokens, token ≠ [])
    {opt opt' : LoadedOptions H} (h : opt.addPath registry statement = .ok (some opt')) :
    ∃ path handler, path ≠ [] ∧ PathHandler registry path statement handler ∧
      opt' = { opt with handlerMap := opt.handlerMap.insert path handler } := by
  unfold addPath at h
  split at h
  · rename_i key path type htokens
    obtain rfl : key = lit "path" := by simpa [htokens] using hkey
    have hne : path ≠ [] := hwords path (by simp [htokens])
    split at h
    · cases h
    · rename_i block hblock
      obtain ⟨handler, hcreates, rfl⟩ := addHandler_eq_some h
      exact ⟨path, handler, hne, ⟨type, block, htokens, hblock, hcreates⟩, by rw [if_neg hne]⟩
  · cases h

theorem addDefaultHandler_eq_some {registry : Registry H} {statement : NginxConfigStatement}
    (hkey : statement.tokens.head? = some (lit "default")) {opt opt' : LoadedOptions H}
    (h : opt.addDefaultHandler registry statement = .ok (some opt')) :
    ∃ handler, DefaultHandler registry statement handler ∧
      opt' = { opt with defaultHandler := some handler } := by
  unfold addDefaultHandler at h
  split at h
  · rename_i key type htokens
    obtain rfl : key = lit "default" := by simpa [htokens] using hkey
    split at h
    · cases h
    · rename_i block hblock
      obtain ⟨handler, hcreates, rfl⟩ := addHandler_eq_some h
      exact ⟨handler, ⟨type, block, htokens, hblock, hcreates⟩, by rw [if_pos rfl]⟩
  · cases h

theorem addAuthenticationRealm_eq_some {statement : NginxConfigStatement}
    (hkey : statement.tokens.head? = some (lit "realm")) {opt opt' : LoadedOptions H}
    (h : opt.addAuthenticationRealm statement = .ok (some opt')) :
    ∃ name auth realm, opt.auth = some auth ∧ DeclaresRealm name statement realm ∧
      opt' = { opt with auth := some (auth.addRealm realm) } := by
  unfold addAuthenticationRealm at h
  split at h
  · rename_i key name htokens
    obtain rfl : key = lit "realm" := by simpa [htokens] using hkey
    split at h
    · cases h
    · rename_i block hblock
      split at h
      · cases h
      · rename_i users husers
        split at h
        · cases h
        · rename_i auth hauth
          cases h
          refine ⟨name, auth, { realm := name, users }, hauth, ⟨block, htokens, hblock, rfl, ?_⟩, rfl⟩
          intro username
          have hlast := credentials_eq_some husers username
          simpa using hlast
  · cases h

theorem addPort_eq_some {statement : NginxConfigStatement}
    (hkey : statement.tokens.head? = some (lit "port")) {opt opt' : LoadedOptions H}
    (h : opt.addPort statement = .ok (some opt')) :
    ∃ value n, statement.tokens = [lit "port", value] ∧ stoi value = .ok (n : Nat) ∧ minPort ≤ n ∧
      n ≤ maxPort ∧ opt' = { opt with port := n } := by
  obtain ⟨m, hm, rfl⟩ := map_map_eq_some h
  obtain ⟨key, value, n, htokens, hvalue, rfl, hlo, hhi⟩ := boundedValue_eq_some (by decide) hm
  obtain rfl : key = lit "port" := by simpa [htokens] using hkey
  have hport : toUnsigned 16 (n : Int) = n :=
    toUnsigned_of_lt (Nat.lt_of_le_of_lt hhi (by decide))
  exact ⟨value, n, htokens, hvalue, hlo, hhi, by rw [hport]⟩

theorem addThread_eq_some {statement : NginxConfigStatement}
    (hkey : statement.tokens.head? = some (lit "threads")) {opt opt' : LoadedOptions H}
    (h : opt.addThread statement = .ok (some opt')) :
    ∃ value n, statement.tokens = [lit "threads", value] ∧ stoi value = .ok (n : Nat) ∧ 1 ≤ n ∧
      n ≤ maxThreads ∧ opt' = { opt with thread := n } := by
  obtain ⟨m, hm, rfl⟩ := map_map_eq_some h
  obtain ⟨key, value, n, htokens, hvalue, rfl, hlo, hhi⟩ := boundedValue_eq_some (by decide) hm
  obtain rfl : key = lit "threads" := by simpa [htokens] using hkey
  have hthread : toUnsigned 32 (n : Int) = n :=
    toUnsigned_of_lt (Nat.lt_of_le_of_lt hhi (by decide))
  exact ⟨value, n, htokens, hvalue, hlo, hhi, by rw [hthread]⟩

end LoadedOptions

/-- **A turn of the loop that succeeds does one of five things.** -/
theorem loadStatement_loads {registry : Registry H} {statement : NginxConfigStatement}
    (hwords : ∀ token ∈ statement.tokens, token ≠ []) {st st' : Loading H}
    (h : loadStatement registry statement st = .ok (some st')) :
    Loads registry statement st st' := by
  unfold loadStatement at h
  split at h
  · cases h
  · cases h
  rename_i key second rest htokens
  have hhead : ∀ {k}, key = k → statement.tokens.head? = some k := by
    rintro k rfl
    rw [htokens]
    rfl
  by_cases hport : key = lit "port"
  · rw [if_pos hport] at h
    by_cases hset : st.issetPort = true
    · rw [if_pos hset] at h
      cases h
    · rw [if_neg hset] at h
      obtain ⟨opt, hopt, rfl⟩ := map_map_eq_some h
      obtain ⟨value, n, hvalue, hstoi, hlo, hhi, rfl⟩ :=
        LoadedOptions.addPort_eq_some (hhead hport) hopt
      exact .port hvalue (by simpa using hset) hstoi hlo hhi
  rw [if_neg hport] at h
  by_cases hthreads : key = lit "threads"
  · rw [if_pos hthreads] at h
    by_cases hset : st.issetThread = true
    · rw [if_pos hset] at h
      cases h
    · rw [if_neg hset] at h
      obtain ⟨opt, hopt, rfl⟩ := map_map_eq_some h
      obtain ⟨value, n, hvalue, hstoi, hlo, hhi, rfl⟩ :=
        LoadedOptions.addThread_eq_some (hhead hthreads) hopt
      exact .threads hvalue (by simpa using hset) hstoi hlo hhi
  rw [if_neg hthreads] at h
  by_cases hpath : key = lit "path"
  · rw [if_pos hpath] at h
    obtain ⟨opt, hopt, rfl⟩ := map_map_eq_some h
    obtain ⟨path, handler, hne, hhandler, rfl⟩ :=
      LoadedOptions.addPath_eq_some (hhead hpath) hwords hopt
    exact .path hhandler hne
  rw [if_neg hpath] at h
  by_cases hdefault : key = lit "default"
  · rw [if_pos hdefault] at h
    obtain ⟨opt, hopt, rfl⟩ := map_map_eq_some h
    obtain ⟨handler, hhandler, rfl⟩ := LoadedOptions.addDefaultHandler_eq_some (hhead hdefault) hopt
    exact .default hhandler
  rw [if_neg hdefault] at h
  by_cases hrealm : key = lit "realm"
  · rw [if_pos hrealm] at h
    obtain ⟨opt, hopt, rfl⟩ := map_map_eq_some h
    obtain ⟨name, auth, realm, hauth, hdeclares, rfl⟩ :=
      LoadedOptions.addAuthenticationRealm_eq_some (hhead hrealm) hopt
    exact .realm hauth hdeclares
  · rw [if_neg hrealm] at h
    cases h

/-! ### The loop -/

/-- A number that is set at most once: the flag says whether it has been. -/
def SetOnce (key : Str) (lo hi : Nat) (isset : Bool) (config : NginxConfig) (n : Nat) : Prop :=
  isset = false ∧ statementsOf key config = [] ∨
    isset = true ∧ OnlyValue key config n ∧ lo ≤ n ∧ n ≤ hi

/-- What the loop has made of the statements so far. -/
structure LoadedFrom (registry : Registry H) (config : NginxConfig) (st : Loading H) : Prop where
  port : SetOnce (lit "port") minPort maxPort st.issetPort config st.opt.port
  threads : SetOnce (lit "threads") 1 maxThreads st.issetThread config st.opt.thread
  handlers : ∀ path, Option.Rel (PathHandler registry path) (lastFor (lit "path") path config)
    st.opt.handlerMap[path]?
  noEmptyPath : [] ∉ st.opt.handlerMap
  default : Option.Rel (DefaultHandler registry) (lastOf (lit "default") config) st.opt.defaultHandler
  realms : ∃ auth, st.opt.auth = some auth ∧ ∀ name,
    Option.Rel (DeclaresRealm name) (lastFor (lit "realm") name config) auth.realms[name]?

section Concat

variable {key : Str} {statement : NginxConfigStatement} {config : NginxConfig}

/-- A statement with another key changes nothing for this one. -/
theorem SetOnce.skip {lo hi n : Nat} {isset : Bool} (h : SetOnce key lo hi isset config n)
    (hkey : statement.tokens.head? ≠ some key) :
    SetOnce key lo hi isset (config ++ [statement]) n := by
  have hsame : statementsOf key (config ++ [statement]) = statementsOf key config := by
    rw [statementsOf_concat, if_neg hkey, List.append_nil]
  unfold SetOnce OnlyValue at h ⊢
  rwa [hsame]

theorem SetOnce.set {lo hi n m : Nat} {value : Str} (h : SetOnce key lo hi false config m)
    (htokens : statement.tokens = [key, value]) (hvalue : stoi value = .ok n) (hlo : lo ≤ n)
    (hhi : n ≤ hi) : SetOnce key lo hi true (config ++ [statement]) n := by
  have hnone : statementsOf key config = [] := by
    rcases h with ⟨-, hnone⟩ | ⟨hfalse, -⟩
    · exact hnone
    · cases hfalse
  have honly : statementsOf key (config ++ [statement]) = [statement] := by
    rw [statementsOf_concat, hnone, htokens]
    simp
  exact Or.inr ⟨rfl, ⟨statement, value, honly, htokens, hvalue⟩, hlo, hhi⟩

theorem lastOf_skip (hkey : statement.tokens.head? ≠ some key) :
    lastOf key (config ++ [statement]) = lastOf key config := by
  rw [lastOf_concat, if_neg hkey]

theorem lastFor_skip {name : Str} (hkey : statement.tokens.head? ≠ some key) :
    lastFor key name (config ++ [statement]) = lastFor key name config := by
  rw [lastFor_concat, if_neg (take_ne_of_head hkey)]

/-- A statement for `name` is the last one for it, and for no other name. -/
theorem rel_insert {V : Type} {R : Str → NginxConfigStatement → V → Prop} {m : Std.TreeMap Str V}
    (h : ∀ name, Option.Rel (R name) (lastFor key name config) m[name]?) {name : Str}
    (htake : statement.tokens.take 2 = [key, name]) {v : V} (hv : R name statement v) :
    ∀ other, Option.Rel (R other) (lastFor key other (config ++ [statement]))
      (m.insert name v)[other]? := by
  intro other
  rw [lastFor_concat, htake]
  by_cases hother : name = other
  · subst hother
    rw [if_pos rfl, Std.TreeMap.getElem?_insert_self]
    exact .some hv
  · have hcmp : compare name other ≠ .eq := fun hc => hother (Std.LawfulEqCmp.eq_of_compare hc)
    rw [if_neg (by simpa using hother), Std.TreeMap.getElem?_insert, if_neg hcmp]
    exact h other

end Concat

/-- **One more statement described.** -/
theorem LoadedFrom.step {registry : Registry H} {config : NginxConfig}
    {statement : NginxConfigStatement} {st st' : Loading H} (h : LoadedFrom registry config st)
    (hloads : Loads registry statement st st') :
    LoadedFrom registry (config ++ [statement]) st' := by
  have hskip : ∀ {key k : Str} {rest : List Str}, statement.tokens = key :: rest → key ≠ k →
      statement.tokens.head? ≠ some k := by
    intro key k rest htokens hne
    rw [htokens]
    simpa using hne
  have hhandlers : ∀ {key : Str} {rest : List Str}, statement.tokens = key :: rest →
      key ≠ lit "path" → ∀ path, Option.Rel (PathHandler registry path)
        (lastFor (lit "path") path (config ++ [statement])) st.opt.handlerMap[path]? :=
    fun htokens hne path => by rw [lastFor_skip (hskip htokens hne)]; exact h.handlers path
  have hdefault : ∀ {key : Str} {rest : List Str}, statement.tokens = key :: rest →
      key ≠ lit "default" → Option.Rel (DefaultHandler registry)
        (lastOf (lit "default") (config ++ [statement])) st.opt.defaultHandler :=
    fun htokens hne => by rw [lastOf_skip (hskip htokens hne)]; exact h.default
  have hrealms : ∀ {key : Str} {rest : List Str}, statement.tokens = key :: rest →
      key ≠ lit "realm" → ∃ auth, st.opt.auth = some auth ∧ ∀ name, Option.Rel (DeclaresRealm name)
        (lastFor (lit "realm") name (config ++ [statement])) auth.realms[name]? := by
    intro key rest htokens hne
    obtain ⟨auth, hauth, hall⟩ := h.realms
    exact ⟨auth, hauth, fun name => by rw [lastFor_skip (hskip htokens hne)]; exact hall name⟩
  cases hloads with
  | port htokens hunset hvalue hlo hhi =>
      exact ⟨(hunset ▸ h.port).set htokens hvalue hlo hhi, h.threads.skip (hskip htokens (by decide)),
        hhandlers htokens (by decide), h.noEmptyPath, hdefault htokens (by decide),
        hrealms htokens (by decide)⟩
  | threads htokens hunset hvalue hlo hhi =>
      exact ⟨h.port.skip (hskip htokens (by decide)), (hunset ▸ h.threads).set htokens hvalue hlo hhi,
        hhandlers htokens (by decide), h.noEmptyPath, hdefault htokens (by decide),
        hrealms htokens (by decide)⟩
  | @path path handler hhandler hne =>
      have hhandler' := hhandler
      obtain ⟨type, block, htokens, -⟩ := hhandler'
      refine ⟨h.port.skip (hskip htokens (by decide)), h.threads.skip (hskip htokens (by decide)),
        rel_insert h.handlers (by rw [htokens]; rfl) hhandler, ?_, hdefault htokens (by decide),
        hrealms htokens (by decide)⟩
      have hcmp : compare path [] ≠ .eq := fun hc => hne (Std.LawfulEqCmp.eq_of_compare hc)
      simpa [Std.TreeMap.mem_insert, hcmp] using h.noEmptyPath
  | @default handler hhandler =>
      have hhandler' := hhandler
      obtain ⟨type, block, htokens, -⟩ := hhandler'
      refine ⟨h.port.skip (hskip htokens (by decide)), h.threads.skip (hskip htokens (by decide)),
        hhandlers htokens (by decide), h.noEmptyPath, ?_, hrealms htokens (by decide)⟩
      rw [lastOf_concat, if_pos (by rw [htokens]; rfl)]
      exact .some hhandler
  | @realm name auth realm hauth hdeclares =>
      have hdeclares' := hdeclares
      obtain ⟨block, htokens, -, rfl, -⟩ := hdeclares'
      obtain ⟨auth', hauth', hall⟩ := h.realms
      obtain rfl : auth' = auth := by simpa [hauth'] using hauth
      exact ⟨h.port.skip (hskip htokens (by decide)), h.threads.skip (hskip htokens (by decide)),
        hhandlers htokens (by decide), h.noEmptyPath, hdefault htokens (by decide), _, rfl,
        rel_insert hall (by rw [htokens]; rfl) hdeclares⟩

/-- **The loop describes the whole config.** -/
theorem loadStatements_loadedFrom {registry : Registry H} {rest : NginxConfig} :
    ∀ {done : NginxConfig} {st st' : Loading H}, LoadedFrom registry done st →
      (∀ statement ∈ rest, ∀ token ∈ statement.tokens, token ≠ []) →
      loadStatements registry rest st = .ok (some st') → LoadedFrom registry (done ++ rest) st' := by
  induction rest with
  | nil =>
      intro done st st' h _ hload
      cases hload
      simpa using h
  | cons statement rest ih =>
      intro done st st' h hwords hload
      simp only [loadStatements] at hload
      split at hload
      · cases hload
      · cases hload
      · rename_i next hnext
        have hfirst : ∀ token ∈ statement.tokens, token ≠ [] := hwords statement (by simp)
        have hstep := h.step (loadStatement_loads hfirst hnext)
        simpa using ih hstep (fun s hs => hwords s (by simp [hs])) hload

/-- The registry has a `NotFoundHandler`, whose `Init` always succeeds. -/
def HasNotFoundHandler (registry : Registry H) : Prop :=
  ∃ handlerType, registry (lit "NotFoundHandler") = some handlerType ∧
    ∀ path block, ∃ handler, handlerType.init path block = .ok (some handler)

/-- What stands in a map for the last statements has its keys from all of them. -/
theorem mem_iff_of_rel {V : Type} {key : Str} {config : NginxConfig}
    {R : Str → NginxConfigStatement → V → Prop} {m : Std.TreeMap Str V}
    (h : ∀ name, Option.Rel (R name) (lastFor key name config) m[name]?) (name : Str) :
    name ∈ m ↔ ∃ statement ∈ config, statement.tokens.take 2 = [key, name] := by
  rw [Std.TreeMap.mem_iff_isSome_getElem?, ← lastFor_isSome_iff]
  have hname := h name
  generalize lastFor key name config = last at hname
  generalize m[name]? = found at hname
  cases hname with
  | some => simp
  | none => simp

/-- The handlers and the realms are not touched by that. -/
theorem settled_fields (st : Loading H) :
    (settled st).handlerMap = st.opt.handlerMap ∧
      (settled st).defaultHandler = st.opt.defaultHandler ∧ (settled st).auth = st.opt.auth := by
  unfold settled
  split <;> exact ⟨rfl, rfl, rfl⟩

/-- **What follows the loop**, where the port has been set. -/
theorem finish_of_port {registry : Registry H} {st : Loading H} (hset : st.issetPort = true) :
    finish registry st = (settled st).defaultHandler.elim
      (((settled st).addHandler registry (lit "NotFoundHandler") [] []).map fun added =>
        some (added.getD (settled st)))
      fun _ => .ok (some (settled st)) := by
  rw [finish, if_neg (by simp [hset])]
  show (_ : Except Fault (Option (LoadedOptions H))) = (settled st).defaultHandler.elim _ _
  unfold settled
  simp only
  generalize (if st.issetThread then st.opt
    else { st.opt with thread := defaultNumThreads }) = opt
  cases opt.defaultHandler <;> rfl

/-- The ways it can succeed. -/
theorem finish_eq_some {registry : Registry H} {st : Loading H} {opt : LoadedOptions H}
    (h : finish registry st = .ok (some opt)) :
    st.issetPort = true ∧
      ((∃ handler, (settled st).defaultHandler = some handler ∧ opt = settled st) ∨
        (settled st).defaultHandler = none ∧
          ∃ added, (settled st).addHandler registry (lit "NotFoundHandler") [] [] = .ok added ∧
            opt = added.getD (settled st)) := by
  have hset : st.issetPort = true := by
    by_contra hunset
    rw [finish, if_pos (by simpa using hunset)] at h
    cases h
  refine ⟨hset, ?_⟩
  rw [finish_of_port hset] at h
  cases hdefault : (settled st).defaultHandler with
  | some handler =>
      rw [hdefault] at h
      cases h
      exact Or.inl ⟨handler, rfl, rfl⟩
  | none =>
      rw [hdefault] at h
      refine Or.inr ⟨rfl, ?_⟩
      cases hadd : (settled st).addHandler registry (lit "NotFoundHandler") [] [] with
      | error e =>
          rw [hadd] at h
          cases h
      | ok added =>
          rw [hadd] at h
          cases h
          exact ⟨added, rfl, rfl⟩

/-- After the loop, the number of threads and the default handler are settled. -/
theorem LoadedFrom.describes {registry : Registry H} {config : NginxConfig} {st : Loading H}
    (h : LoadedFrom registry config st) (hset : st.issetPort = true) {handler : H}
    (hdefault : (lastOf (lit "default") config).elim
      (Creates registry (lit "NotFoundHandler") [] [] handler) (DefaultHandler registry · handler)) :
    Describes registry config { settled st with defaultHandler := some handler } := by
  obtain ⟨auth, hauth, hrealms⟩ := h.realms
  have hport : OnlyValue (lit "port") config st.opt.port ∧ minPort ≤ st.opt.port ∧
      st.opt.port ≤ maxPort := by
    rcases h.port with ⟨hunset, -⟩ | ⟨-, hvalue, hrange⟩
    · rw [hset] at hunset
      cases hunset
    · exact ⟨hvalue, hrange⟩
  rcases h.threads with ⟨hunset, hnone⟩ | ⟨hthread, hvalue, hrange⟩
  · have hsettled : settled st = { st.opt with thread := defaultNumThreads } :=
      if_neg (by simp [hunset])
    have hrange : 1 ≤ defaultNumThreads ∧ defaultNumThreads ≤ 2000 := by decide
    rw [hsettled]
    exact ⟨hport.1, hport.2, Or.inl ⟨hnone, rfl⟩, hrange,
      mem_iff_of_rel h.handlers, h.handlers, h.noEmptyPath, ⟨handler, rfl, hdefault⟩,
      auth, hauth, mem_iff_of_rel hrealms, hrealms⟩
  · have hsettled : settled st = st.opt := if_pos hthread
    rw [hsettled]
    exact ⟨hport.1, hport.2, Or.inr hvalue, hrange,
      mem_iff_of_rel h.handlers, h.handlers, h.noEmptyPath, ⟨handler, rfl, hdefault⟩,
      auth, hauth, mem_iff_of_rel hrealms, hrealms⟩

theorem finish_describes {registry : Registry H} (hnotFound : HasNotFoundHandler registry)
    {config : NginxConfig} {st : Loading H} {opt : LoadedOptions H} (h : LoadedFrom registry config st)
    (hfinish : finish registry st = .ok (some opt)) : Describes registry config opt := by
  obtain ⟨hset, hcases⟩ := finish_eq_some hfinish
  have hrel := h.default
  rw [← (settled_fields st).2.1] at hrel
  generalize hlast : lastOf (lit "default") config = last at hrel
  rcases hcases with ⟨handler, hhandler, rfl⟩ | ⟨hnone, added, hadd, rfl⟩
  · rw [hhandler] at hrel
    cases hrel with
    | some hdefault =>
        have hdescribes := h.describes hset (by rw [hlast]; exact hdefault)
        rwa [← hhandler] at hdescribes
  · rw [hnone] at hrel
    cases hrel
    obtain ⟨init, hinit, hall⟩ := hnotFound
    obtain ⟨handler, hnew⟩ := hall [] []
    have hname : createByName registry (lit "NotFoundHandler") = some init := by
      have hstring : cString (lit "NotFoundHandler") = lit "NotFoundHandler" := by decide
      rw [createByName, hstring, hinit]
    have hadded : (settled st).addHandler registry (lit "NotFoundHandler") [] []
        = .ok (some { settled st with defaultHandler := some handler }) := by
      simp [LoadedOptions.addHandler, hname, hnew]
    obtain rfl := Except.ok.inj (hadd.symm.trans hadded)
    exact h.describes hset (by rw [hlast]; exact ⟨init, hname, hnew⟩)

/-- The realms and the handlers are not touched after the loop. -/
theorem finish_keeps {registry : Registry H} {st : Loading H} {opt : LoadedOptions H}
    (h : finish registry st = .ok (some opt)) :
    opt.auth = st.opt.auth ∧ opt.handlerMap = st.opt.handlerMap := by
  obtain ⟨hmap, -, hauth⟩ := settled_fields st
  rw [← hmap, ← hauth]
  obtain ⟨-, ⟨handler, -, rfl⟩ | ⟨-, added, hadd, rfl⟩⟩ := finish_eq_some h
  · exact ⟨rfl, rfl⟩
  · cases added with
    | none => exact ⟨rfl, rfl⟩
    | some opt' =>
        obtain ⟨handler, -, rfl⟩ := LoadedOptions.addHandler_eq_some hadd
        exact ⟨rfl, rfl⟩

/-- A load that succeeds has parsed the text, gone through the loop, and finished. -/
theorem loadOptionsFromStream_eq_some {registry : Registry H} {text : Str} {opt : LoadedOptions H}
    (h : loadOptionsFromStream registry text .fresh = .ok (some opt)) :
    ∃ config st, parse text = .ok (true, config) ∧ LoadedFrom registry config st ∧
      finish registry st = .ok (some opt) := by
  unfold loadOptionsFromStream at h
  split at h
  · cases h
  · cases h
  · rename_i config hparse
    split at h
    · cases h
    · cases h
    · rename_i st hload
      refine ⟨config, st, hparse, @loadStatements_loadedFrom _ _ _ [] _ _ ?_
        (fun s hs => (WellWorded.of_parse hparse s (.here hs)).2) hload, h⟩
      refine ⟨Or.inl ⟨rfl, rfl⟩, Or.inl ⟨rfl, rfl⟩, fun path => ?_, ?_, .none, _, rfl, fun name => ?_⟩
      · simp [lastFor, LoadedOptions.fresh]
      · simp [LoadedOptions.fresh]
      · simp [lastFor, Authentication.empty]

/--
**What a loaded configuration means**: the options hold what the statements that count
say, and a `NotFoundHandler` where no default handler is given.
-/
theorem loadOptionsFromStream_describes {registry : Registry H}
    (hnotFound : HasNotFoundHandler registry) {text : Str} {opt : LoadedOptions H}
    (h : loadOptionsFromStream registry text .fresh = .ok (some opt)) :
    ∃ config, parse text = .ok (true, config) ∧ Describes registry config opt := by
  obtain ⟨config, st, hparse, hloaded, hfinish⟩ := loadOptionsFromStream_eq_some h
  exact ⟨config, hparse, finish_describes hnotFound hloaded hfinish⟩

/-- Two types of handlers, each handler known by its type and its path. -/
def exampleRegistry : Registry (Str × Str) := fun type =>
  if type = lit "NotFoundHandler" ∨ type = lit "EchoHandler" then
    some { init := fun path _ => .ok (some (type, path)), delete := fun _ _ => .ok () }
  else none

def exampleConfig : Str :=
  lit "port 8080; path /a EchoHandler \x7b\x7d realm /s \x7b credentials u p; credentials u q; \x7d"

/-- A computation that can be seen to give something. -/
theorem exists_of_isSome_join {α : Type} {x : Except Fault (Option α)}
    (h : x.toOption.join.isSome = true) : ∃ a, x = .ok (some a) := by
  obtain ⟨a, ha⟩ := Option.isSome_iff_exists.mp h
  cases x with
  | error e => cases ha
  | ok o => exact ⟨a, congrArg _ (by simpa [Except.toOption] using ha)⟩

theorem loadOptionsFromStream_example :
    ∃ opt config, loadOptionsFromStream exampleRegistry exampleConfig .fresh = .ok (some opt) ∧
      parse exampleConfig = .ok (true, config) ∧ Describes exampleRegistry config opt := by
  obtain ⟨opt, hload⟩ := exists_of_isSome_join
    (x := loadOptionsFromStream exampleRegistry exampleConfig .fresh) (by decide +kernel)
  have hnotFound : HasNotFoundHandler exampleRegistry :=
    ⟨_, rfl, fun path _ => ⟨(lit "NotFoundHandler", path), rfl⟩⟩
  obtain ⟨config, hconfig⟩ := loadOptionsFromStream_describes hnotFound hload
  exact ⟨opt, config, hload, hconfig⟩

end JustEnough
