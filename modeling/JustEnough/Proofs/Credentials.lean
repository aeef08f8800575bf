/-
Who gets in with the credentials of the configuration.

A user that a config declares gets in by sending the base64 of user, colon and password,
unless the password has a colon in it: `split` cuts at every colon, so such a password
is never seen whole (`requestPassesAuthentication_declared_iff`).  The config accepts it
all the same.
-/
import JustEnough.Proofs.Authentication
import JustEnough.Proofs.Base64
import JustEnough.Proofs.Options

namespace JustEnough

open Authentication

/-- The password in force for a user of a realm: the last one in the last statement for the realm. -/
def passwordInForce (config : NginxConfig) (realm username : Str) : Option Str :=
  ((lastFor (lit "realm") realm config).bind (·.childBlock)).bind (lastCredential · username)

variable {H : Type}

/-- The realms of loaded options, as the config declares them. -/
theorem loadOptionsFromStream_realms {registry : Registry H} {text : Str} {config : NginxConfig}
    {opt : LoadedOptions H} (h : loadOptionsFromStream registry text .fresh = .ok (some opt))
    (hparse : parse text = .ok (true, config)) :
    ∃ auth, opt.auth = some auth ∧ ∀ name,
      Option.Rel (DeclaresRealm name) (lastFor (lit "realm") name config) auth.realms[name]? := by
  obtain ⟨config', st, hparse', hloaded, hfinish⟩ := loadOptionsFromStream_eq_some h
  obtain rfl : config' = config := by
    rw [hparse'] at hparse
    exact (Prod.mk.inj (Except.ok.inj hparse)).2
  obtain ⟨auth, hauth, hrealms⟩ := hloaded.realms
  exact ⟨auth, (finish_keeps hfinish).1.trans hauth, hrealms⟩

/-- A realm of loaded options holds the passwords in force. -/
theorem users_eq_passwordInForce {registry : Registry H} {text : Str} {config : NginxConfig}
    {opt : LoadedOptions H} (h : loadOptionsFromStream registry text .fresh = .ok (some opt))
    (hparse : parse text = .ok (true, config)) {auth : Authentication} (hauth : opt.auth = some auth)
    {name : Str} {realm : AuthenticationRealm} (hrealm : auth.realms[name]? = some realm)
    (username : Str) : realm.users[username]? = passwordInForce config name username := by
  obtain ⟨auth', hauth', hrel⟩ := loadOptionsFromStream_realms h hparse
  obtain rfl : auth' = auth := by simpa [hauth'] using hauth
  have hname := hrel name
  rw [hrealm] at hname
  generalize hlast : lastFor (lit "realm") name config = last at hname
  cases hname with
  | some hdeclares =>
      obtain ⟨block, -, hblock, -, husers⟩ := hdeclares
      rw [husers, passwordInForce, hlast, Option.bind_some, hblock, Option.bind_some]

theorem lastCredential_mem {block : NginxConfig} {username pass : Str}
    (h : lastCredential block username = some pass) :
    ∃ statement ∈ block, pass ∈ statement.tokens := by
  obtain ⟨statement, hmem, hpass⟩ := List.exists_of_findSome?_eq_some h
  unfold credentialOf at hpass
  split at hpass
  · exact ⟨statement, by simpa using hmem, List.mem_of_getElem? hpass⟩
  · cases hpass

/-- No password of a config is empty. -/
theorem passwordInForce_ne_nil {text : Str} {config : NginxConfig}
    (hparse : parse text = .ok (true, config)) {realm username pass : Str}
    (h : passwordInForce config realm username = some pass) : pass ≠ [] := by
  obtain ⟨block, hblock, hlast⟩ := Option.bind_eq_some_iff.mp h
  obtain ⟨statement, hstatement, hchild⟩ := Option.bind_eq_some_iff.mp hblock
  obtain ⟨inner, hinner, hpass⟩ := lastCredential_mem hlast
  have hmem : statement ∈ config := by
    have hreverse := List.mem_of_find?_eq_some hstatement
    simpa using hreverse
  exact (WellWorded.of_parse hparse inner (.inside hmem hchild (.here hinner))).2 pass hpass

/-! ### The decision -/

/-- A password is seen without a colon at its end, and not at all with one elsewhere. -/
def SeenAs (pass seen : Str) : Prop :=
  byte ':' ∉ seen ∧ (pass = seen ∨ pass = seen ++ [byte ':'])

theorem readsPair_iff {user pass user' pass' : Str} (huser : byte ':' ∉ user) (hpass : pass ≠ []) :
    ReadsPair (user ++ byte ':' :: pass) user' pass' ↔ user' = user ∧ SeenAs pass pass' := by
  constructor
  · rintro ⟨huser', hpass', hform⟩
    -- the first colon ends the user in both
    have hcut : ∀ rest, user ++ byte ':' :: pass = user' ++ byte ':' :: rest →
        user' = user ∧ rest = pass := by
      intro rest h
      rcases append_cons_eq_append_cons huser h with hsame | ⟨t, rfl, -⟩
      · exact hsame
      · exact absurd (by simp) huser'
    rcases hform with ⟨h, -⟩ | h
    · obtain ⟨rfl, rfl⟩ := hcut pass' h
      exact ⟨rfl, hpass', Or.inl rfl⟩
    · obtain ⟨rfl, rfl⟩ := hcut (pass' ++ [byte ':']) (by simpa using h)
      exact ⟨rfl, hpass', Or.inr rfl⟩
  · rintro ⟨rfl, hseen, rfl | rfl⟩
    · exact ⟨huser, hseen, Or.inl ⟨rfl, hpass⟩⟩
    · exact ⟨huser, hseen, Or.inr (by simp)⟩

/-- Of a password for the same user, only a whole one without a colon is the stored one. -/
theorem seenAs_self_iff {pass : Str} : (∃ seen, SeenAs pass seen ∧ pass = seen) ↔ byte ':' ∉ pass := by
  constructor
  · rintro ⟨seen, ⟨hfree, -⟩, rfl⟩
    exact hfree
  · intro hfree
    exact ⟨pass, ⟨hfree, Or.inl rfl⟩, rfl⟩

theorem readsAs_encoded_iff {realm : AuthenticationRealm} {req : Request} {user pass : Str}
    (huser : byte ':' ∉ user) (hpass : pass ≠ [])
    (hheader : authorization req = some (lit "Basic " ++ base64Encode (user ++ byte ':' :: pass))) :
    ReadsAs realm req ↔ ∃ seen, SeenAs pass seen ∧ realm.users[user]? = some seen := by
  have hspace := space_not_mem_base64Encode (user ++ byte ':' :: pass)
  constructor
  · rintro ⟨value, word, user', pass', hvalue, ⟨hword, hform⟩, hpair, hstored⟩
    obtain rfl : lit "Basic " ++ base64Encode (user ++ byte ':' :: pass) = value := by
      simpa [hheader] using hvalue
    have hsame : word = base64Encode (user ++ byte ':' :: pass) := by
      rcases hform with ⟨h, -⟩ | h
      · exact (List.append_cancel_left h).symm
      · rw [List.append_assoc] at h
        exact absurd (by rw [List.append_cancel_left h]; simp) hspace
    rw [hsame, base64Decode_base64Encode] at hpair
    obtain ⟨rfl, hseen⟩ := (readsPair_iff huser hpass).mp hpair
    exact ⟨pass', hseen, hstored⟩
  · rintro ⟨seen, hseen, hstored⟩
    have hne : base64Encode (user ++ byte ':' :: pass) ≠ [] := by
      intro hnil
      have hdecode := base64Decode_base64Encode (user ++ byte ':' :: pass)
      rw [hnil] at hdecode
      simp [base64Decode, base64DecodeLoop] at hdecode
    refine ⟨_, base64Encode (user ++ byte ':' :: pass), user, seen, hheader,
      ⟨hspace, Or.inl ⟨rfl, hne⟩⟩, ?_, hstored⟩
    rw [base64Decode_base64Encode]
    exact (readsPair_iff huser hpass).mpr ⟨rfl, hseen⟩

/--
**A declared user gets in exactly when the password has no colon in it.**  A URI of
2^31 bytes or more is looked up by the part of it that is scanned, and counts with the
password in force for the user in that part's realm.
-/
theorem requestPassesAuthentication_declared_iff {registry : Registry H} {text : Str}
    {config : NginxConfig} {opt : LoadedOptions H}
    (hload : loadOptionsFromStream registry text .fresh = .ok (some opt))
    (hparse : parse text = .ok (true, config)) {auth : Authentication} (hauth : opt.auth = some auth)
    {name user pass : Str} (hforce : passwordInForce config name user = some pass)
    (huser : byte ':' ∉ user) {req : Request} {realm : AuthenticationRealm}
    (hname : LongestPrefix auth.realms req.uri name realm)
    (hheader : authorization req = some (lit "Basic " ++ base64Encode (user ++ byte ':' :: pass))) :
    auth.requestPassesAuthentication req = true ↔
      scanned req.uri = req.uri ∧ byte ':' ∉ pass ∨
      scanned req.uri ≠ req.uri ∧ ∃ name' realm' seen,
        LongestPrefix auth.realms (scanned req.uri) name' realm' ∧ SeenAs pass seen ∧
          passwordInForce config name' user = some seen := by
  have hpass := passwordInForce_ne_nil hparse hforce
  have husers : ∀ {name' realm'}, LongestPrefix auth.realms (scanned req.uri) name' realm' →
      realm'.users[user]? = passwordInForce config name' user :=
    fun h => users_eq_passwordInForce hload hparse hauth h.entry user
  rw [requestPassesAuthentication_iff]
  simp only [readsAs_encoded_iff huser hpass hheader]
  by_cases hscan : scanned req.uri = req.uri
  · simp only [hscan, true_and, ne_eq, not_true_eq_false, false_and, or_false]
    rw [← seenAs_self_iff]
    constructor
    · rintro ⟨name', realm', hname', seen, hseen, hstored⟩
      obtain ⟨rfl, rfl⟩ := hname.unique hname'
      rw [husers (hscan.symm ▸ hname'), hforce] at hstored
      exact ⟨seen, hseen, Option.some.inj hstored⟩
    · rintro ⟨seen, hseen, rfl⟩
      refine ⟨name, realm, hname, pass, hseen, ?_⟩
      rw [husers (hscan.symm ▸ hname), hforce]
  · simp only [hscan, false_and, false_or, ne_eq, not_false_eq_true, true_and]
    constructor
    · rintro ⟨name', realm', hname', seen, hseen, hstored⟩
      exact ⟨name', realm', seen, hname', hseen, husers hname' ▸ hstored⟩
    · rintro ⟨name', realm', seen, hname', hseen, hstored⟩
      exact ⟨name', realm', hname', seen, hseen, (husers hname').trans hstored⟩

/-- Two users of one realm, the first with a colon in the password. -/
def colonConfig : Str :=
  lit "port 8080; realm /s \x7b credentials u p:q; credentials v w; \x7d"

def basicRequest (credentials : Str) : Request where
  method := lit "GET"
  uri := lit "/s"
  version := lit "HTTP/1.1"
  headers := [(lit "Authorization", lit "Basic " ++ base64Encode credentials)]
  body := []

/-- The config loads, and declares both users. -/
theorem colonConfig_loads : ∃ opt config auth realm,
    loadOptionsFromStream exampleRegistry colonConfig .fresh = .ok (some opt) ∧
    parse colonConfig = .ok (true, config) ∧ opt.auth = some auth ∧
    LongestPrefix auth.realms (lit "/s") (lit "/s") realm ∧
    passwordInForce config (lit "/s") (lit "u") = some (lit "p:q") ∧
    passwordInForce config (lit "/s") (lit "v") = some (lit "w") ∧
    auth.requestPassesAuthentication (basicRequest (lit "u:p:q")) = false := by
  obtain ⟨opt, hload⟩ := exists_of_isSome_join
    (x := loadOptionsFromStream exampleRegistry colonConfig .fresh) (by decide +kernel)
  have hpasswords : (parse colonConfig).toOption.map (fun r =>
      (r.1, passwordInForce r.2 (lit "/s") (lit "u"), passwordInForce r.2 (lit "/s") (lit "v")))
        = some (true, some (lit "p:q"), some (lit "w")) := by decide +kernel
  have hrefused : ((loadOptionsFromStream exampleRegistry colonConfig .fresh).toOption.join.bind
      (·.auth)).map (·.requestPassesAuthentication (basicRequest (lit "u:p:q"))) = some false := by
    decide +kernel
  obtain ⟨config, -, hparse, -⟩ := loadOptionsFromStream_eq_some hload
  obtain ⟨auth, hauth, hrealms⟩ := loadOptionsFromStream_realms hload hparse
  rw [hparse] at hpasswords
  obtain ⟨-, hu, hv⟩ : true = true ∧ passwordInForce config (lit "/s") (lit "u") = some (lit "p:q") ∧
      passwordInForce config (lit "/s") (lit "v") = some (lit "w") := by
    simpa [Except.toOption] using hpasswords
  obtain ⟨realm, hrealm⟩ : ∃ realm, auth.realms[lit "/s"]? = some realm := by
    have hs := hrealms (lit "/s")
    cases hlast : lastFor (lit "realm") (lit "/s") config with
    | none => simp [passwordInForce, hlast] at hu
    | some statement =>
        rw [hlast] at hs
        generalize auth.realms[lit "/s"]? = found at hs
        cases hs with
        | some _ => exact ⟨_, rfl⟩
  refine ⟨opt, config, auth, realm, hload, hparse, hauth, ⟨hrealm, by decide, List.prefix_refl _,
    fun _ _ _ _ hk => hk.length_le⟩, hu, hv, ?_⟩
  rw [hload] at hrefused
  simpa [Except.toOption, hauth] using hrefused

/-- The user with the colon sends the right credentials, and is refused. -/
theorem declared_user_refused : ∃ opt config auth realm,
    loadOptionsFromStream exampleRegistry colonConfig .fresh = .ok (some opt) ∧
    parse colonConfig = .ok (true, config) ∧ opt.auth = some auth ∧
    passwordInForce config (lit "/s") (lit "u") = some (lit "p:q") ∧
    LongestPrefix auth.realms (basicRequest (lit "u:p:q")).uri (lit "/s") realm ∧
    authorization (basicRequest (lit "u:p:q")) = some (lit "Basic " ++ base64Encode (lit "u:p:q")) ∧
    auth.requestPassesAuthentication (basicRequest (lit "u:p:q")) = false := by
  obtain ⟨opt, config, auth, realm, hload, hparse, hauth, hname, hu, -, hrefused⟩ := colonConfig_loads
  exact ⟨opt, config, auth, realm, hload, hparse, hauth, hu, hname, rfl, hrefused⟩

/-- The other user. -/
theorem declared_user_example : ∃ opt config auth,
    loadOptionsFromStream exampleRegistry colonConfig .fresh = .ok (some opt) ∧
    opt.auth = some auth ∧
    (auth.requestPassesAuthentication (basicRequest (lit "v:w")) = true ↔
      scanned (lit "/s") = lit "/s" ∧ byte ':' ∉ lit "w" ∨
      scanned (lit "/s") ≠ lit "/s" ∧ ∃ name' realm' seen,
        LongestPrefix auth.realms (scanned (lit "/s")) name' realm' ∧ SeenAs (lit "w") seen ∧
          passwordInForce config name' (lit "v") = some seen) := by
  obtain ⟨opt, config, auth, realm, hload, hparse, hauth, hname, -, hv, -⟩ := colonConfig_loads
  exact ⟨opt, config, auth, hload, hauth, requestPassesAuthentication_declared_iff hload hparse hauth hv
    (by decide) hname rfl⟩

end JustEnough
