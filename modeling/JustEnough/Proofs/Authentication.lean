/-
Who gets past authentication.

A request under a realm presents credentials when its first `Authorization` header is
`Basic` and one more word, and that word decodes to a user, a colon, and the password
stored for that user in the longest realm the URI is under (`Presents`).  The server
should call a handler for such requests only, and answer every other one with 401
(`AuthenticationSound`).

The decision is made by `split`, which never returns a final empty piece.  So a word
followed by one space is read as the word alone, and `user:pass:` is read as
`user:pass`: the server also lets in what the credentials would be after a trailing
delimiter is removed.  `authenticationSound_iff` says that this is the whole
difference, up to URIs too long for the `int` the realm lookup counts with.
-/
import JustEnough.Server.Webserver

namespace JustEnough

namespace Authentication

/-! ### What the header says -/

/-- `word` decodes to a user of the realm, a colon, and that user's password. -/
def Credentials (realm : AuthenticationRealm) (word : Str) : Prop :=
  ∃ user pass, base64Decode word = user ++ byte ':' :: pass ∧ realm.users[user]? = some pass

/-- The request's first `Authorization` header authenticates it for its realm. -/
def Presents (auth : Authentication) (req : Request) : Prop :=
  ∃ word name realm, authorization req = some (lit "Basic " ++ word) ∧ byte ' ' ∉ word ∧
    LongestPrefix auth.realms req.uri name realm ∧ Credentials realm word

/-- The URI has some realm name as a non-empty prefix. -/
def UnderRealm (auth : Authentication) (req : Request) : Prop :=
  HasPrefixKey auth.realms req.uri

/-! ### What the server reads in it

`split` takes the word with or without one space after it, and the password with or
without one colon after it; an empty password is only seen in front of such a colon.
-/

/-- `value` is the scheme and one word, perhaps with a space after it. -/
def ReadsWord (value word : Str) : Prop :=
  byte ' ' ∉ word ∧
    (value = lit "Basic " ++ word ∧ word ≠ [] ∨ value = lit "Basic " ++ word ++ [byte ' '])

/-- `decoded` is a user and a password free of colons, perhaps with a colon after them. -/
def ReadsPair (decoded user pass : Str) : Prop :=
  byte ':' ∉ user ∧ byte ':' ∉ pass ∧
    (decoded = user ++ byte ':' :: pass ∧ pass ≠ [] ∨
      decoded = user ++ byte ':' :: pass ++ [byte ':'])

/-- The header reads as a user of `realm` with the password stored there. -/
def ReadsAs (realm : AuthenticationRealm) (req : Request) : Prop :=
  ∃ value word user pass, authorization req = some value ∧ ReadsWord value word ∧
    ReadsPair (base64Decode word) user pass ∧ realm.users[user]? = some pass

theorem split_value_iff {value word : Str} :
    split value (byte ' ') = [lit "Basic", word] ↔ ReadsWord value word := by
  rw [split_eq_pair]
  constructor
  · rintro ⟨-, hword, h⟩
    exact ⟨hword, h⟩
  · rintro ⟨hword, h⟩
    exact ⟨by decide, hword, h⟩

theorem authenticate_iff {realm : AuthenticationRealm} {user pass : Str} :
    realm.authenticate user pass = true ↔ realm.users[user]? = some pass := by
  unfold AuthenticationRealm.authenticate
  split <;> simp_all

/-- **The decision, in terms of the header.** -/
theorem requestPassesAuthentication_iff {auth : Authentication} {req : Request} :
    auth.requestPassesAuthentication req = true ↔
      ∃ name realm, LongestPrefix auth.realms (scanned req.uri) name realm ∧
        ReadsAs realm req := by
  constructor
  · intro h
    unfold requestPassesAuthentication at h
    split at h
    · cases h
    · rename_i value hvalue
      split at h
      · rename_i scheme word hsplit
        split at h
        · cases h
        · rename_i hbasic
          rw [not_not.mp hbasic, split_value_iff] at hsplit
          split at h
          · rename_i user pass hpair
            split at h
            · rename_i realm hfound
              obtain ⟨name, hname⟩ := mapHasPrefix_some_iff.mp hfound
              exact ⟨name, realm, hname, value, word, user, pass, hvalue, hsplit,
                split_eq_pair.mp hpair, authenticate_iff.mp h⟩
            · cases h
          · cases h
      · cases h
  · rintro ⟨name, realm, hname, value, word, user, pass, hvalue, hword, hpair, hstored⟩
    have hfound := mapHasPrefix_some_iff.mpr ⟨name, hname⟩
    simp [requestPassesAuthentication, hvalue, split_value_iff.mpr hword,
      split_eq_pair.mpr hpair, hfound, authenticate_iff.mpr hstored]

theorem requestRequiresAuthentication_iff {auth : Authentication} {req : Request} :
    auth.requestRequiresAuthentication req = true ↔
      HasPrefixKey auth.realms (scanned req.uri) := by
  unfold requestRequiresAuthentication
  cases h : mapHasPrefix auth.realms req.uri with
  | none => simpa using mapHasPrefix_none_iff.mp h
  | some v =>
      simp only [Option.isSome_some, true_iff]
      by_contra hc
      rw [mapHasPrefix_none_iff.mpr hc] at h
      cases h

/-! ### The difference a trailing delimiter makes -/

/-- The word is followed by a space. -/
def TrailingSpace (realm : AuthenticationRealm) (req : Request) : Prop :=
  ∃ word user pass, authorization req = some (lit "Basic " ++ word ++ [byte ' ']) ∧
    byte ' ' ∉ word ∧ ReadsPair (base64Decode word) user pass ∧ realm.users[user]? = some pass

/-- The password is followed by a colon, and no stored user has the whole for a name. -/
def TrailingColon (realm : AuthenticationRealm) (req : Request) : Prop :=
  ∃ word user pass, authorization req = some (lit "Basic " ++ word) ∧ byte ' ' ∉ word ∧
    byte ':' ∉ user ∧ byte ':' ∉ pass ∧
    base64Decode word = user ++ byte ':' :: pass ++ [byte ':'] ∧
    realm.users[user]? = some pass ∧ realm.users[user ++ byte ':' :: pass]? ≠ some []

theorem not_presents_of_space {auth : Authentication} {req : Request} {word : Str}
    (h : authorization req = some (lit "Basic " ++ word ++ [byte ' '])) :
    ¬Presents auth req := by
  rintro ⟨word', -, -, hvalue, hword', -⟩
  have heq : word' = word ++ [byte ' '] := by simpa [hvalue] using h
  exact hword' (by simp [heq])

/-- `user:pass:` can be cut at either colon. -/
theorem credentials_colon_iff {realm : AuthenticationRealm} {word user pass : Str}
    (huser : byte ':' ∉ user) (hpass : byte ':' ∉ pass)
    (hdecode : base64Decode word = user ++ byte ':' :: pass ++ [byte ':'])
    (hstored : realm.users[user]? = some pass) :
    Credentials realm word ↔ realm.users[user ++ byte ':' :: pass]? = some [] := by
  constructor
  · rintro ⟨user', pass', hdecode', hstored'⟩
    rw [hdecode, List.append_assoc, List.cons_append] at hdecode'
    rcases append_cons_eq_append_cons huser hdecode' with ⟨rfl, rfl⟩ | ⟨t, rfl, ht⟩
    · rw [hstored] at hstored'
      simp at hstored'
    · rcases append_cons_eq_append_cons hpass ht with ⟨rfl, rfl⟩ | ⟨t', -, ht'⟩
      · exact hstored'
      · simp at ht'
  · intro h
    exact ⟨_, [], hdecode, h⟩

/-- **Read as credentials without being them: exactly the trailing delimiters.** -/
theorem readsAs_not_presents_iff {auth : Authentication} {req : Request} {name : Str}
    {realm : AuthenticationRealm} (hname : LongestPrefix auth.realms req.uri name realm) :
    ReadsAs realm req ∧ ¬Presents auth req ↔ TrailingSpace realm req ∨ TrailingColon realm req := by
  constructor
  · rintro ⟨⟨value, word, user, pass, hvalue, ⟨hword, hform⟩, hpair, hstored⟩, hnot⟩
    rcases hform with ⟨rfl, -⟩ | rfl
    · have hcred : ¬Credentials realm word :=
        fun hc => hnot ⟨word, name, realm, hvalue, hword, hname, hc⟩
      obtain ⟨huser, hpass, ⟨hdecode, -⟩ | hdecode⟩ := hpair
      · exact absurd ⟨user, pass, hdecode, hstored⟩ hcred
      · rw [credentials_colon_iff huser hpass hdecode hstored] at hcred
        exact Or.inr ⟨word, user, pass, hvalue, hword, huser, hpass, hdecode, hstored, hcred⟩
    · exact Or.inl ⟨word, user, pass, hvalue, hword, hpair, hstored⟩
  · rintro (⟨word, user, pass, hvalue, hword, hpair, hstored⟩ |
      ⟨word, user, pass, hvalue, hword, huser, hpass, hdecode, hstored, hfree⟩)
    · exact ⟨⟨_, word, user, pass, hvalue, ⟨hword, Or.inr rfl⟩, hpair, hstored⟩,
        not_presents_of_space hvalue⟩
    · have hne : word ≠ [] := by
        rintro rfl
        simp [base64Decode, base64DecodeLoop] at hdecode
      refine ⟨⟨_, word, user, pass, hvalue, ⟨hword, Or.inl ⟨rfl, hne⟩⟩,
        ⟨huser, hpass, Or.inr hdecode⟩, hstored⟩, ?_⟩
      rintro ⟨word', name', realm', hvalue', -, hname', hcred⟩
      obtain ⟨-, rfl⟩ := hname'.unique hname
      obtain rfl : word' = word := by simpa [hvalue'] using hvalue
      exact hfree ((credentials_colon_iff huser hpass hdecode hstored).mp hcred)

/-! ### The whole decision -/

/--
The requests that get in under a realm without presenting credentials.  A URI of
2^31 bytes or more is looked up by the part of it that `mapHasPrefix` scans, which may
be under another realm or under none.
-/
def SlipsThrough (auth : Authentication) (req : Request) : Prop :=
  (scanned req.uri = req.uri ∧ ∃ name realm, LongestPrefix auth.realms req.uri name realm ∧
    (TrailingSpace realm req ∨ TrailingColon realm req)) ∨
  (scanned req.uri ≠ req.uri ∧ ¬Presents auth req ∧
    (HasPrefixKey auth.realms (scanned req.uri) →
      ∃ name realm, LongestPrefix auth.realms (scanned req.uri) name realm ∧ ReadsAs realm req))

/-- `SlipsThrough` is what the code's two tests let in besides the credentials. -/
theorem slipsThrough_iff {auth : Authentication} {req : Request} (hunder : UnderRealm auth req) :
    SlipsThrough auth req ↔ ¬Presents auth req ∧
      (auth.requestRequiresAuthentication req = true →
        auth.requestPassesAuthentication req = true) := by
  rw [requestRequiresAuthentication_iff, requestPassesAuthentication_iff]
  by_cases hscan : scanned req.uri = req.uri
  · simp only [SlipsThrough, hscan, true_and, ne_eq, not_true, false_and, or_false]
    constructor
    · rintro ⟨name, realm, hname, htrail⟩
      obtain ⟨hreads, hnot⟩ := (readsAs_not_presents_iff hname).mpr htrail
      exact ⟨hnot, fun _ => ⟨name, realm, hname, hreads⟩⟩
    · rintro ⟨hnot, hpass⟩
      obtain ⟨name, realm, hname, hreads⟩ := hpass hunder
      exact ⟨name, realm, hname, (readsAs_not_presents_iff hname).mp ⟨hreads, hnot⟩⟩
  · simp [SlipsThrough, hscan]

end Authentication

/-! ### What the server does with it -/

open Authentication

variable {H W : Type}

/-- No handler was called, and the response is the 401 one. -/
def Unauthorized (served : Served H) : Prop :=
  served.handler = none ∧
    ∃ rest, served.response = .returned (lit "HTTP/1.1 401 Unauthorized\r\n" ++ rest)

/-- Under a realm, a handler is called for requests with credentials only; the rest get a 401. -/
def AuthenticationSound (ws : Webserver H W) (garbage : ResponseCode) (raw : Str)
    (s : ServerState W) : Prop :=
  ∀ req auth, Request.parse raw = some req → ws.opt.auth = some auth → UnderRealm auth req →
    ((ws.processRawRequest garbage raw s).1.handler ≠ none → Presents auth req) ∧
    (¬Presents auth req → Unauthorized (ws.processRawRequest garbage raw s).1)

theorem processRawRequest_refused {ws : Webserver H W} {garbage : ResponseCode} {raw : Str}
    {req : Request} {auth : Authentication} (s : ServerState W)
    (hparse : Request.parse raw = some req) (href : ws.refused req = some auth) :
    Unauthorized (ws.processRawRequest garbage raw s).1 := by
  simp only [Webserver.processRawRequest, hparse, href]
  exact ⟨rfl, Webserver.respond_refusal auth garbage req⟩

/-- A request that is not refused is never answered by the refusal. -/
theorem processRawRequest_dispatched {ws : Webserver H W} {garbage : ResponseCode} {raw : Str}
    {req : Request} (s : ServerState W) (hparse : Request.parse raw = some req)
    (href : ws.refused req = none) : ¬Unauthorized (ws.processRawRequest garbage raw s).1 := by
  simp only [Webserver.processRawRequest, hparse, href, Webserver.dispatch]
  split
  · rintro ⟨-, rest, hresponse⟩
    cases hresponse
  · split <;> (rintro ⟨hhandler, -⟩; cases hhandler)

/--
**Authentication is sound exactly for the requests that do not slip through**: with no
delimiter after the word or the password, and a URI the lookup sees whole.
-/
theorem authenticationSound_iff (ws : Webserver H W) (garbage : ResponseCode) (raw : Str)
    (s : ServerState W) :
    AuthenticationSound ws garbage raw s ↔
      ∀ req auth, Request.parse raw = some req → ws.opt.auth = some auth → UnderRealm auth req →
        ¬SlipsThrough auth req := by
  constructor
  · intro h req auth hparse hauth hunder hslip
    obtain ⟨hnot, hpass⟩ := (slipsThrough_iff hunder).mp hslip
    have href : ws.refused req = none := by
      rw [Webserver.refused_eq_none_iff]
      intro auth' hauth'
      obtain rfl : auth = auth' := by simpa [hauth] using hauth'
      exact hpass
    exact processRawRequest_dispatched s hparse href ((h req auth hparse hauth hunder).2 hnot)
  · intro h req auth hparse hauth hunder
    have hrefused : ¬Presents auth req → Unauthorized (ws.processRawRequest garbage raw s).1 := by
      intro hnot
      have hblocked : ¬(auth.requestRequiresAuthentication req = true →
          auth.requestPassesAuthentication req = true) := fun hpass =>
        h req auth hparse hauth hunder ((slipsThrough_iff hunder).mpr ⟨hnot, hpass⟩)
      rw [Classical.not_imp, Bool.not_eq_true] at hblocked
      exact processRawRequest_refused s hparse (Webserver.refused_eq_some_iff.mpr ⟨hauth, hblocked⟩)
    refine ⟨fun hcalled => ?_, hrefused⟩
    by_contra hnot
    exact hcalled (hrefused hnot).1

/-- One realm with one user, and one handler that answers everything with an empty 200. -/
def secretServer : Webserver Unit Unit where
  opt :=
    { handlerMap := ∅
      defaultHandler := some ()
      auth := some (Authentication.empty.addRealm
        { realm := lit "/secret", users := (∅ : Std.TreeMap Str Str).insert (lit "u") (lit "p") }) }
  handleRequest _ _ resp s := (.returned (.ok, resp.setStatus Response.code200OK), s)

/-- The password is `p`; what the header carries is the base64 of `u:p:`. -/
theorem authentication_unsound :
    ¬AuthenticationSound secretServer 0
      (lit "GET /secret HTTP/1.1\r\nAuthorization: Basic dTpwOg==\r\n\r\n") { world := () } := by
  intro h
  set req : Request :=
    { method := lit "GET", uri := lit "/secret", version := lit "HTTP/1.1",
      headers := [(lit "Authorization", lit "Basic dTpwOg==")], body := [] }
  set realm : AuthenticationRealm :=
    { realm := lit "/secret", users := (∅ : Std.TreeMap Str Str).insert (lit "u") (lit "p") }
  have hparse : Request.parse
      (lit "GET /secret HTTP/1.1\r\nAuthorization: Basic dTpwOg==\r\n\r\n") = some req := by
    decide +kernel
  have hname : LongestPrefix (Authentication.empty.addRealm realm).realms req.uri (lit "/secret")
      realm :=
    ⟨rfl, by decide, by decide, fun _ _ _ _ hk => hk.length_le⟩
  have hunder : UnderRealm (Authentication.empty.addRealm realm) req :=
    ⟨_, _, hname.entry, hname.nonempty, hname.isPrefix⟩
  have hnot : ¬Presents (Authentication.empty.addRealm realm) req :=
    ((readsAs_not_presents_iff hname).mpr (Or.inr ⟨lit "dTpwOg==", lit "u", lit "p", rfl,
      by decide, by decide, by decide, by decide, rfl, by decide⟩)).2
  refine hnot ((h req _ hparse rfl hunder).1 ?_)
  decide +kernel

/-- With no such delimiter and a URI below 2^31 bytes, nothing slips through. -/
theorem not_slipsThrough_of_length {auth : Authentication} {req : Request}
    (hlen : req.uri.length < 2 ^ 31)
    (hplain : ∀ realm, ¬TrailingSpace realm req ∧ ¬TrailingColon realm req) :
    ¬SlipsThrough auth req := by
  rintro (⟨-, name, realm, -, hspace | hcolon⟩ | ⟨hscan, -⟩)
  · exact (hplain realm).1 hspace
  · exact (hplain realm).2 hcolon
  · exact hscan (scanned_eq hlen)

end JustEnough
