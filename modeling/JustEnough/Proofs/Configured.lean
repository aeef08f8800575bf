/-
A server does what its config text says.

The text says it without maps: the statement that counts for a URI is the last one for the
longest of the declared names the URI begins with (`InForce`), once among the realms and
once among the paths.  The realm in force says who may see the URI (`Admits`), the path in
force which handler answers (`Declares`), or the default statement where there is none.
The loaded server, with its maps and its lookup, answers a request like that
(`served_as_configured`).

So a request is served the same by two configs that agree on the statements which concern
its URI: paths and realms it begins with, and defaults (`served_local`).  A path that is
added or taken away changes nothing for requests that are not under it.

Names are matched against the part of a URI that the lookup scans, which is all of it below
2^31 bytes (`scanned_eq`).
-/
import JustEnough.Proofs.Acceptance
import JustEnough.Proofs.Credentials
import JustEnough.Proofs.PrefixLookup

namespace JustEnough

open Authentication

/-! ### What a text says about a URI -/

/-- The last statement for the longest name with that key that the URI begins with. -/
structure InForce (key : Str) (config : NginxConfig) (uri name : Str)
    (statement : NginxConfigStatement) : Prop where
  last : lastFor key name config = some statement
  isPrefix : name <+: uri
  longest : ∀ other, (lastFor key other config).isSome = true → other <+: uri →
    other.length ≤ name.length

/-- The first `Authorization` header is read as a user and password of the realm in force. -/
def Admits (config : NginxConfig) (req : Request) : Prop :=
  ∀ name statement, InForce (lit "realm") config (scanned req.uri) name statement →
    ∃ value word user pass, authorization req = some value ∧ ReadsWord value word ∧
      ReadsPair (base64Decode word) user pass ∧ passwordInForce config name user = some pass

variable {H W : Type}

/-- The handler of the path in force, or the default one where no path is. -/
inductive Declares (registry : Registry H) (config : NginxConfig) (uri : Str) (handler : H) : Prop
  | path {name : Str} {statement : NginxConfigStatement}
      (h : InForce (lit "path") config uri name statement)
      (hhandler : PathHandler registry name statement handler)
  | default (h : ∀ name statement, ¬InForce (lit "path") config uri name statement)
      (hhandler : (lastOf (lit "default") config).elim
        (Creates registry (lit "NotFoundHandler") [] [] handler)
        (DefaultHandler registry · handler))

/-! ### The maps hold what the text says -/

section Maps

variable {V : Type} {key : Str} {config : NginxConfig} {m : Std.TreeMap Str V}
  {R : Str → NginxConfigStatement → V → Prop} {uri name : Str}

/-- No statement with that key is for the empty name. -/
def Named (key : Str) (config : NginxConfig) : Prop := lastFor key [] config = none

theorem named_of_parse {text : Str} (hparse : parse text = .ok (true, config)) : Named key config := by
  rw [Named, ← Option.not_isSome_iff_eq_none, lastFor_isSome_iff]
  intro ⟨statement, hmem, htokens⟩
  have hwords := (WellWorded.of_parse hparse statement (.here hmem)).2
  have hnil : ([] : Str) ∈ statement.tokens.take 2 := by
    rw [htokens]
    simp
  exact hwords [] (List.mem_of_mem_take hnil) rfl

/-- A map with what the last statements say has a name exactly if a statement is for it. -/
theorem rel_isSome (h : ∀ name, Option.Rel (R name) (lastFor key name config) m[name]?) :
    (lastFor key name config).isSome = m[name]?.isSome := by
  have hname := h name
  generalize lastFor key name config = last at hname
  generalize m[name]? = found at hname
  cases hname with
  | some => rfl
  | none => rfl

/-- **The longest key of the map is the name of the statement in force.** -/
theorem longestPrefix_iff_inForce
    (h : ∀ name, Option.Rel (R name) (lastFor key name config) m[name]?) (hnamed : Named key config)
    {v : V} : LongestPrefix m uri name v ↔
      m[name]? = some v ∧ ∃ statement, InForce key config uri name statement := by
  have hne : ∀ {other : Str}, (lastFor key other config).isSome = true → other ≠ [] := by
    intro other hsome hnil
    rw [hnil, hnamed] at hsome
    cases hsome
  constructor
  · intro hlongest
    have hsome : (lastFor key name config).isSome = true := by
      rw [rel_isSome h, hlongest.entry]
      rfl
    obtain ⟨statement, hlast⟩ := Option.isSome_iff_exists.mp hsome
    refine ⟨hlongest.entry, statement, hlast, hlongest.isPrefix, ?_⟩
    intro other hother hbegins
    have hother' := hother
    rw [rel_isSome h] at hother'
    obtain ⟨v', hv'⟩ := Option.isSome_iff_exists.mp hother'
    exact hlongest.longest other v' hv' (hne hother) hbegins
  · intro ⟨hentry, statement, hforce⟩
    refine ⟨hentry, hne (by rw [hforce.last]; rfl), hforce.isPrefix, ?_⟩
    intro other v' hv' _ hbegins
    refine hforce.longest other ?_ hbegins
    rw [rel_isSome h, hv']
    rfl

/-- Where the lookup finds something, a statement is in force, and the other way round. -/
theorem mapHasPrefix_iff_inForce
    (h : ∀ name, Option.Rel (R name) (lastFor key name config) m[name]?) (hnamed : Named key config)
    {v : V} : mapHasPrefix m uri = some v ↔
      ∃ name statement, InForce key config (scanned uri) name statement ∧ m[name]? = some v := by
  rw [mapHasPrefix_some_iff]
  constructor
  · intro ⟨name, hlongest⟩
    obtain ⟨hentry, statement, hforce⟩ := (longestPrefix_iff_inForce h hnamed).mp hlongest
    exact ⟨name, statement, hforce, hentry⟩
  · intro ⟨name, statement, hforce, hentry⟩
    exact ⟨name, (longestPrefix_iff_inForce h hnamed).mpr ⟨hentry, statement, hforce⟩⟩

/-- Only one statement is in force. -/
theorem InForce.unique {name' : Str} {statement statement' : NginxConfigStatement}
    (h : InForce key config uri name statement) (h' : InForce key config uri name' statement') :
    name = name' ∧ statement = statement' := by
  have hle := h.longest name' (by rw [h'.last]; rfl) h'.isPrefix
  have hge := h'.longest name (by rw [h.last]; rfl) h.isPrefix
  have hname : name = name' :=
    (List.prefix_of_prefix_length_le h.isPrefix h'.isPrefix hge).eq_of_length
      (Nat.le_antisymm hge hle)
  subst hname
  have hlast := h.last
  rw [h'.last] at hlast
  exact ⟨rfl, (Option.some.inj hlast).symm⟩

/-- What stands in the map for the name of a statement in force is what that statement says. -/
theorem InForce.entry (h : ∀ name, Option.Rel (R name) (lastFor key name config) m[name]?)
    {statement : NginxConfigStatement} (hforce : InForce key config uri name statement) :
    ∃ v, m[name]? = some v ∧ R name statement v := by
  have hname := h name
  rw [hforce.last] at hname
  generalize m[name]? = found at hname
  cases hname with
  | @some _ v hv => exact ⟨v, rfl, hv⟩

end Maps

/-! ### The loaded server -/

/-- The server's options are what the text says. -/
structure Configures (registry : Registry H) (config : NginxConfig) (ws : Webserver H W) : Prop where
  named : ∀ key, Named key config
  handlers : ∀ path, Option.Rel (PathHandler registry path) (lastFor (lit "path") path config)
    ws.opt.handlerMap[path]?
  default : ∃ handler, ws.opt.defaultHandler = some handler ∧
    (lastOf (lit "default") config).elim (Creates registry (lit "NotFoundHandler") [] [] handler)
      (DefaultHandler registry · handler)
  realms : ∃ auth, ws.opt.auth = some auth ∧
    ∀ name, Option.Rel (DeclaresRealm name) (lastFor (lit "realm") name config) auth.realms[name]?

section Server

variable {registry : Registry H} {text : Str} {config : NginxConfig} {ws : Webserver H W}
  {req : Request}

theorem configures_of_load (hnotFound : HasNotFoundHandler registry)
    (hparse : parse text = .ok (true, config)) {opt : LoadedOptions H}
    (hload : loadOptionsFromStream registry text .fresh = .ok (some opt))
    (hopt : ws.opt = opt.toOptions) : Configures registry config ws := by
  obtain ⟨config', hparse', hdescribes⟩ := loadOptionsFromStream_describes hnotFound hload
  obtain rfl : config' = config := by
    rw [hparse] at hparse'
    cases hparse'
    rfl
  obtain ⟨auth, hauth, -, hrealms⟩ := hdescribes.realms
  refine ⟨fun key => named_of_parse hparse, ?_, ?_, auth, ?_, hrealms⟩
  · rw [hopt]
    exact hdescribes.handlers
  · rw [hopt]
    exact hdescribes.default
  · rw [hopt]
    exact hauth

theorem Creates.unique {type path : Str} {block : NginxConfig} {handler handler' : H}
    (h : Creates registry type path block handler) (h' : Creates registry type path block handler') :
    handler = handler' := by
  obtain ⟨init, hinit, hnew⟩ := h
  obtain ⟨init', hinit', hnew'⟩ := h'
  obtain rfl : init = init' := by simpa [hinit] using hinit'
  simpa [hnew] using hnew'

theorem PathHandler.unique {path : Str} {statement : NginxConfigStatement} {handler handler' : H}
    (h : PathHandler registry path statement handler)
    (h' : PathHandler registry path statement handler') : handler = handler' := by
  obtain ⟨type, block, htokens, hblock, hcreates⟩ := h
  obtain ⟨type', block', htokens', hblock', hcreates'⟩ := h'
  obtain rfl : type = type' := by simpa [htokens] using htokens'
  obtain rfl : block = block' := by simpa [hblock] using hblock'
  exact hcreates.unique hcreates'

theorem DefaultHandler.unique {statement : NginxConfigStatement} {handler handler' : H}
    (h : DefaultHandler registry statement handler)
    (h' : DefaultHandler registry statement handler') : handler = handler' := by
  obtain ⟨type, block, htokens, hblock, hcreates⟩ := h
  obtain ⟨type', block', htokens', hblock', hcreates'⟩ := h'
  obtain rfl : type = type' := by simpa [htokens] using htokens'
  obtain rfl : block = block' := by simpa [hblock] using hblock'
  exact hcreates.unique hcreates'

/-- A text declares one handler for a URI. -/
theorem Declares.unique {uri : Str} {handler handler' : H}
    (h : Declares registry config uri handler) (h' : Declares registry config uri handler') :
    handler = handler' := by
  cases h with
  | @path name statement hforce hhandler =>
      cases h' with
      | path hforce' hhandler' =>
          obtain ⟨rfl, rfl⟩ := hforce.unique hforce'
          exact hhandler.unique hhandler'
      | default hnone' => exact absurd hforce (hnone' name statement)
  | default hnone hhandler =>
      cases h' with
      | @path name' statement' hforce' => exact absurd hforce' (hnone name' statement')
      | default _ hhandler' =>
          cases hlast : lastOf (lit "default") config with
          | none =>
              rw [hlast] at hhandler hhandler'
              exact Creates.unique hhandler hhandler'
          | some statement =>
              rw [hlast] at hhandler hhandler'
              exact DefaultHandler.unique hhandler hhandler'

/-- **The server goes to the handler that the text declares.** -/
theorem Configures.matched (h : Configures registry config ws) (req : Request) :
    ∃ handler, ws.matchRequestWithHandler req = some handler ∧
      Declares registry config (scanned req.uri) handler := by
  unfold Webserver.matchRequestWithHandler
  cases hfound : mapHasPrefix ws.opt.handlerMap req.uri with
  | some handler =>
      obtain ⟨name, statement, hforce, hentry⟩ :=
        (mapHasPrefix_iff_inForce h.handlers (h.named _)).mp hfound
      obtain ⟨handler', hentry', hhandler⟩ := hforce.entry h.handlers
      obtain rfl : handler = handler' := by simpa [hentry] using hentry'
      exact ⟨handler, rfl, .path hforce hhandler⟩
  | none =>
      obtain ⟨handler, hdefault, hhandler⟩ := h.default
      refine ⟨handler, hdefault, .default ?_ hhandler⟩
      intro name statement hforce
      obtain ⟨handler', hentry, -⟩ := hforce.entry h.handlers
      have hsome := (mapHasPrefix_iff_inForce h.handlers (h.named _)).mpr
        ⟨name, statement, hforce, hentry⟩
      rw [hfound] at hsome
      cases hsome

/-- A realm's users are those that its statement in force declares. -/
theorem DeclaresRealm.users {name : Str} {statement : NginxConfigStatement}
    {realm : AuthenticationRealm} (h : DeclaresRealm name statement realm)
    (hlast : lastFor (lit "realm") name config = some statement) (username : Str) :
    realm.users[username]? = passwordInForce config name username := by
  obtain ⟨block, -, hblock, -, husers⟩ := h
  rw [husers, passwordInForce, hlast, Option.bind_some, hblock, Option.bind_some]

/-- **The server refuses whom the text does not admit.** -/
theorem Configures.refused_iff (h : Configures registry config ws) :
    ws.refused req = none ↔ Admits config req := by
  obtain ⟨auth, hauth, hrealms⟩ := h.realms
  have hlongest := fun name realm =>
    @longestPrefix_iff_inForce _ _ _ _ _ (scanned req.uri) name hrealms (h.named _) realm
  have honly : ws.refused req = none ↔ (auth.requestRequiresAuthentication req = true →
      auth.requestPassesAuthentication req = true) := by
    rw [Webserver.refused_eq_none_iff, hauth]
    simp
  rw [honly, requestRequiresAuthentication_iff, requestPassesAuthentication_iff]
  constructor
  · intro hpasses name statement hforce
    obtain ⟨realm, hentry, hdeclares⟩ := hforce.entry hrealms
    obtain ⟨name', realm', hname', value, word, user, pass, hvalue, hword, hpair, hstored⟩ :=
      hpasses ((hlongest name realm).mpr ⟨hentry, statement, hforce⟩).hasPrefixKey
    obtain ⟨hentry', statement', hforce'⟩ := (hlongest name' realm').mp hname'
    obtain ⟨rfl, rfl⟩ := hforce.unique hforce'
    obtain rfl : realm = realm' := by simpa [hentry] using hentry'
    exact ⟨value, word, user, pass, hvalue, hword, hpair,
      (hdeclares.users hforce.last user).symm.trans hstored⟩
  · intro hadmits hunder
    obtain ⟨name, realm, hname⟩ := exists_longestPrefix hunder
    obtain ⟨hentry, statement, hforce⟩ := (hlongest name realm).mp hname
    obtain ⟨realm', hentry', hdeclares⟩ := hforce.entry hrealms
    obtain rfl : realm = realm' := by simpa [hentry] using hentry'
    obtain ⟨value, word, user, pass, hvalue, hword, hpair, hstored⟩ := hadmits name statement hforce
    exact ⟨name, realm, hname, value, word, user, pass, hvalue, hword, hpair,
      (hdeclares.users hforce.last user).trans hstored⟩

/-- What is called, once a request is not refused. -/
theorem dispatch_handler {garbage : ResponseCode} {s : ServerState W} {handler : H}
    (h : ws.matchRequestWithHandler req = some handler) :
    (ws.dispatch garbage req s).1.handler = some handler := by
  unfold Webserver.dispatch
  rw [h]
  simp only
  split <;> rfl

end Server

/--
**Served as configured.**  A server with the options of a text that loads calls a handler
exactly if the text admits the request, and then the one that the text declares for its
URI; every other request that parses gets the 401.
-/
theorem served_as_configured {registry : Registry H} (hnotFound : HasNotFoundHandler registry)
    {text : Str} {config : NginxConfig} (hparse : parse text = .ok (true, config))
    {opt : LoadedOptions H} (hload : loadOptionsFromStream registry text .fresh = .ok (some opt))
    (ws : Webserver H W) (hopt : ws.opt = opt.toOptions) (garbage : ResponseCode) {raw : Str}
    {req : Request} (hraw : Request.parse raw = some req) (s : ServerState W) :
    (∀ handler, (ws.processRawRequest garbage raw s).1.handler = some handler ↔
      Admits config req ∧ Declares registry config (scanned req.uri) handler) ∧
    (Unauthorized (ws.processRawRequest garbage raw s).1 ↔ ¬Admits config req) := by
  have hconf : Configures registry config ws := configures_of_load hnotFound hparse hload hopt
  have hadmits : ws.refused req = none ↔ Admits config req := hconf.refused_iff
  cases hrefused : ws.refused req with
  | some auth =>
      have hno : ¬Admits config req := by
        rw [← hadmits, hrefused]
        exact Option.some_ne_none auth
      have hunauthorized := @processRawRequest_refused _ _ _ garbage _ _ _ s hraw hrefused
      refine ⟨fun handler => ?_, by simp [hunauthorized, hno]⟩
      rw [hunauthorized.1]
      simp [hno]
  | none =>
      have hyes := hadmits.mp hrefused
      have hnot := @processRawRequest_dispatched _ _ _ garbage _ _ s hraw hrefused
      obtain ⟨handler, hmatch, hdeclares⟩ := hconf.matched req
      have hcalled : (ws.processRawRequest garbage raw s).1.handler = some handler := by
        simp only [Webserver.processRawRequest, hraw, hrefused]
        exact dispatch_handler hmatch
      refine ⟨fun other => ?_, by simp [hnot, hyes]⟩
      rw [hcalled, Option.some.injEq]
      constructor
      · intro hsame
        subst hsame
        exact ⟨hyes, hdeclares⟩
      · intro hother
        exact hdeclares.unique hother.2

/-- A server of handlers that send back the type and the path they were made with. -/
def namingServer (opt : Options (Str × Str)) : Webserver (Str × Str) Unit where
  opt
  handleRequest handler _ resp s :=
    (.returned (.ok, (resp.setStatus Response.code200OK).setBody (handler.1 ++ handler.2)), s)

/-- A request for something under the realm of `exampleConfig`, without credentials. -/
def secretRequest : Str := lit "GET /s/x HTTP/1.1\r\n\r\n"

theorem served_as_configured_example : ∃ opt config req,
    loadOptionsFromStream exampleRegistry exampleConfig .fresh = .ok (some opt) ∧
      Request.parse secretRequest = some req ∧
      (Unauthorized ((namingServer opt.toOptions).processRawRequest 0 secretRequest
        { world := () }).1 ↔ ¬Admits config req) := by
  obtain ⟨opt, hload⟩ := exists_of_isSome_join
    (x := loadOptionsFromStream exampleRegistry exampleConfig .fresh) (by decide +kernel)
  obtain ⟨config, hparse, -⟩ := loadOptionsFromStream_describes exampleRegistry_hasNotFound hload
  obtain ⟨req, hraw⟩ := Option.isSome_iff_exists.mp
    (show (Request.parse secretRequest).isSome = true by decide +kernel)
  exact ⟨opt, config, req, hload, hraw, (served_as_configured exampleRegistry_hasNotFound hparse
    hload (namingServer opt.toOptions) rfl 0 hraw { world := () }).2⟩

/-! ### What concerns a request -/

/-- A default, or a path or realm that the URI begins with. -/
def Concerns (uri : Str) (statement : NginxConfigStatement) : Bool :=
  match statement.tokens with
  | [] => false
  | key :: rest =>
    key = lit "default" ||
      (key = lit "path" || key = lit "realm") && rest.head?.any (·.isPrefixOf uri)

section Local

variable {key : Str} {config config' : NginxConfig} {uri name : Str}

/-- The keys that have a name to match. -/
def Matched (key : Str) : Prop := key = lit "path" ∨ key = lit "realm"

theorem concerns_of_take {statement : NginxConfigStatement} (hkey : Matched key)
    (hbegins : name <+: uri) (htake : statement.tokens.take 2 = [key, name]) :
    Concerns uri statement = true := by
  unfold Concerns
  cases htokens : statement.tokens with
  | nil =>
      rw [htokens] at htake
      cases htake
  | cons first rest =>
      cases rest with
      | nil =>
          rw [htokens] at htake
          cases htake
      | cons second rest =>
          rw [htokens] at htake
          cases htake
          have hname : name.isPrefixOf uri = true := List.isPrefixOf_iff_prefix.mpr hbegins
          obtain rfl | rfl := hkey
          · simp [hname]
          · simp [hname]

/-- The others do not show in the last statement for a name the URI begins with. -/
theorem lastFor_concerns (hkey : Matched key) (hbegins : name <+: uri) :
    lastFor key name (config.filter (Concerns uri)) = lastFor key name config := by
  rw [lastFor, lastFor, ← List.filter_reverse, List.find?_filter]
  congr 1
  funext statement
  by_cases htake : statement.tokens.take 2 = [key, name]
  · simp [htake, concerns_of_take hkey hbegins htake]
  · simp [htake]

theorem lastOf_concerns (config : NginxConfig) (uri : Str) :
    lastOf (lit "default") (config.filter (Concerns uri)) = lastOf (lit "default") config := by
  rw [lastOf, lastOf, ← List.filter_reverse, List.find?_filter]
  congr 1
  funext statement
  by_cases hhead : statement.tokens.head? = some (lit "default")
  · obtain ⟨rest, htokens⟩ := List.head?_eq_some_iff.mp hhead
    simp [Concerns, htokens]
  · simp [hhead]

variable (hsame : config.filter (Concerns uri) = config'.filter (Concerns uri))

include hsame in
theorem lastFor_local (hkey : Matched key) (hbegins : name <+: uri) :
    lastFor key name config = lastFor key name config' := by
  rw [← lastFor_concerns hkey hbegins, hsame, lastFor_concerns hkey hbegins]

include hsame in
theorem InForce.local (hkey : Matched key) {statement : NginxConfigStatement}
    (h : InForce key config uri name statement) : InForce key config' uri name statement := by
  refine ⟨?_, h.isPrefix, ?_⟩
  · rw [← lastFor_local hsame hkey h.isPrefix]
    exact h.last
  · intro other hother hbegins
    rw [← lastFor_local hsame hkey hbegins] at hother
    exact h.longest other hother hbegins

variable {registry : Registry H}

include hsame in
theorem Declares.local {handler : H} (h : Declares registry config uri handler) :
    Declares registry config' uri handler := by
  cases h with
  | path hforce hhandler => exact .path (hforce.local hsame (Or.inl rfl)) hhandler
  | default hnone hhandler =>
      refine .default ?_ ?_
      · intro name statement hforce
        exact hnone name statement (hforce.local hsame.symm (Or.inl rfl))
      · rw [← lastOf_concerns config' uri, ← hsame, lastOf_concerns]
        exact hhandler

theorem Admits.local {req : Request}
    (hsame : config.filter (Concerns (scanned req.uri)) = config'.filter (Concerns (scanned req.uri)))
    (h : Admits config req) : Admits config' req := by
  intro name statement hforce
  have hforce' := hforce.local hsame.symm (Or.inr rfl)
  obtain ⟨value, word, user, pass, hvalue, hword, hpair, hstored⟩ := h name statement hforce'
  refine ⟨value, word, user, pass, hvalue, hword, hpair, ?_⟩
  rw [passwordInForce, ← lastFor_local hsame (Or.inr rfl) hforce.isPrefix]
  exact hstored

end Local

/-- A refusal names the realm in force, and says nothing else of the configuration. -/
theorem Configures.refusal {registry : Registry H} {config : NginxConfig} {ws : Webserver H W}
    (h : Configures registry config ws) {auth : Authentication} (hauth : ws.opt.auth = some auth)
    {req : Request} {name : Str} {statement : NginxConfigStatement}
    (hforce : InForce (lit "realm") config (scanned req.uri) name statement)
    (garbage : ResponseCode) :
    Webserver.refusal auth garbage req
      = ((((Response.uninitialised garbage).setStatus Response.code401Unauthorized).addHeader
        (lit "Content-Type") (lit "text/html")).addHeader (lit "WWW-Authenticate")
          (lit "Basic realm=\"" ++ name ++ lit "\"")).setBody
        (lit "<html><body><h1>401 Unauthorized</h1><p>Invalid credentials</p></body></html>") := by
  obtain ⟨auth', hauth', hrealms⟩ := h.realms
  obtain rfl : auth = auth' := by simpa [hauth] using hauth'
  obtain ⟨realm, hentry, hdeclares⟩ := hforce.entry hrealms
  have hfound : mapHasPrefix auth.realms req.uri = some realm :=
    (mapHasPrefix_iff_inForce hrealms (h.named _)).mpr ⟨name, statement, hforce, hentry⟩
  obtain ⟨block, -, -, hname, -⟩ := hdeclares
  simp only [Webserver.refusal, generateFailedAuthenticationResponse, hfound, hname]

/--
**Only the statements that concern a request matter to it.**  Two servers that were loaded
from texts with the same defaults, and the same paths and realms among those the URI begins
with, answer it alike, as far as their handlers do.
-/
theorem served_local {registry : Registry H} (hnotFound : HasNotFoundHandler registry)
    {text text' : Str} {config config' : NginxConfig} (hparse : parse text = .ok (true, config))
    (hparse' : parse text' = .ok (true, config')) {opt opt' : LoadedOptions H}
    (hload : loadOptionsFromStream registry text .fresh = .ok (some opt))
    (hload' : loadOptionsFromStream registry text' .fresh = .ok (some opt'))
    (ws ws' : Webserver H W) (hopt : ws.opt = opt.toOptions) (hopt' : ws'.opt = opt'.toOptions)
    (hhandlers : ws'.handleRequest = ws.handleRequest) (garbage : ResponseCode) {raw : Str}
    {req : Request} (hraw : Request.parse raw = some req)
    (hsame : config.filter (Concerns (scanned req.uri)) = config'.filter (Concerns (scanned req.uri)))
    (s : ServerState W) :
    ws'.processRawRequest garbage raw s = ws.processRawRequest garbage raw s := by
  have hconf : Configures registry config ws := configures_of_load hnotFound hparse hload hopt
  have hconf' : Configures registry config' ws' :=
    configures_of_load hnotFound hparse' hload' hopt'
  simp only [Webserver.processRawRequest, hraw]
  cases hrefused : ws.refused req with
  | none =>
      have hrefused' : ws'.refused req = none :=
        hconf'.refused_iff.mpr ((hconf.refused_iff.mp hrefused).local hsame)
      obtain ⟨handler, hmatch, hdeclares⟩ := hconf.matched req
      obtain ⟨handler', hmatch', hdeclares'⟩ := hconf'.matched req
      obtain rfl := (hdeclares.local hsame).unique hdeclares'
      simp only [hrefused', Webserver.dispatch, hmatch, hmatch', hhandlers]
  | some auth =>
      have hno : ¬Admits config req := by
        rw [← hconf.refused_iff, hrefused]
        exact Option.some_ne_none auth
      have hno' : ¬Admits config' req := fun h => hno (h.local hsame.symm)
      obtain ⟨auth', hrefused'⟩ := Option.ne_none_iff_exists'.mp
        (fun hnone => hno' (hconf'.refused_iff.mp hnone))
      -- a realm is in force, or everybody would be admitted
      obtain ⟨name, statement, hforce⟩ :
          ∃ name statement, InForce (lit "realm") config (scanned req.uri) name statement := by
        by_contra hnone
        exact hno fun name statement hforce => absurd ⟨name, statement, hforce⟩ hnone
      have hauth := (Webserver.refused_eq_some_iff.mp hrefused).1
      have hauth' := (Webserver.refused_eq_some_iff.mp hrefused').1
      simp only [hrefused', hconf.refusal hauth hforce garbage,
        hconf'.refusal hauth' (hforce.local hsame (Or.inr rfl)) garbage]

/-- `echoConfig` without its path. -/
def bareConfig : Str := lit "port 8080;"

/-- The request is not under that path, and gets the same answer. -/
theorem served_local_example : ∃ opt opt',
    loadOptionsFromStream exampleRegistry echoConfig .fresh = .ok (some opt) ∧
      loadOptionsFromStream exampleRegistry bareConfig .fresh = .ok (some opt') ∧
      (namingServer opt'.toOptions).processRawRequest 0 secretRequest { world := () }
        = (namingServer opt.toOptions).processRawRequest 0 secretRequest { world := () } := by
  obtain ⟨opt, hload⟩ := exists_of_isSome_join
    (x := loadOptionsFromStream exampleRegistry echoConfig .fresh) (by decide +kernel)
  obtain ⟨opt', hload'⟩ := exists_of_isSome_join
    (x := loadOptionsFromStream exampleRegistry bareConfig .fresh) (by decide +kernel)
  obtain ⟨config, hparse, -⟩ := loadOptionsFromStream_describes exampleRegistry_hasNotFound hload
  obtain ⟨config', hparse', -⟩ := loadOptionsFromStream_describes exampleRegistry_hasNotFound hload'
  obtain ⟨req, hraw⟩ := Option.isSome_iff_exists.mp
    (show (Request.parse secretRequest).isSome = true by decide +kernel)
  -- nothing in either text concerns the request
  have hnone : ∀ {text : Str} {config : NginxConfig}, parse text = .ok (true, config) →
      (parse text).toOption.bind (fun r => (Request.parse secretRequest).map fun req =>
        (r.2.filter (Concerns (scanned req.uri))).isEmpty) = some true →
      config.filter (Concerns (scanned req.uri)) = [] := by
    intro text config hparse hempty
    rw [hparse, hraw] at hempty
    exact List.isEmpty_iff.mp (Option.some.inj hempty)
  refine ⟨opt, opt', hload, hload', served_local exampleRegistry_hasNotFound hparse hparse' hload
    hload' (namingServer opt.toOptions) (namingServer opt'.toOptions) rfl rfl rfl 0 hraw ?_
    { world := () }⟩
  rw [hnone hparse (by decide +kernel), hnone hparse' (by decide +kernel)]

end JustEnough
