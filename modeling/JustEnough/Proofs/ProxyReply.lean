/-
What the proxy makes of a reply.

Parsing a reply touches the fields of the handler only where a `Location` header is
followed, and reads back nothing but what it has just written there.  So whatever
handler parses it, a reply is read the same way (`parsed`), and its effect on the
fields is one function: none at all for an ordinary reply, and for a redirect one that
sets `redirect_` and a non-empty `redirect_uri_` and keeps the configuration
(`parseRawResponse_local`).
-/
import JustEnough.Server.ProxyHandler

namespace JustEnough

namespace ProxyHandler

/-! ### Effects on the fields -/

/-- The fields `Init` sets are the same. -/
def SameConfig (h h' : ProxyHandler) : Prop :=
  h'.uriPrefix = h.uriPrefix ∧ h'.remoteHost = h.remoteHost ∧ h'.remotePort = h.remotePort

/-- A redirect is to be followed. -/
def Redirecting (h : ProxyHandler) : Prop := h.redirect = true ∧ h.redirectUri ≠ []

/-- What reading a reply does to the fields, depending on whether it is a redirect. -/
structure Effect (f : ProxyHandler → ProxyHandler) (followed : Bool) : Prop where
  config : ∀ h, SameConfig h (f h)
  ordinary : followed = false → ∀ h, f h = h
  redirect : followed = true → ∀ h, Redirecting (f h)

theorem Effect.id : Effect id false :=
  ⟨fun _ => ⟨rfl, rfl, rfl⟩, fun _ _ => rfl, fun h => by cases h⟩

theorem Effect.comp {f g : ProxyHandler → ProxyHandler} {a b : Bool} (hg : Effect g b)
    (hf : Effect f a) : Effect (g ∘ f) (a || b) where
  config h := by
    obtain ⟨hp, hh, hport⟩ := hf.config h
    obtain ⟨hp', hh', hport'⟩ := hg.config (f h)
    exact ⟨hp'.trans hp, hh'.trans hh, hport'.trans hport⟩
  ordinary hab h := by
    obtain ⟨ha, hb⟩ := Bool.or_eq_false_iff.mp hab
    exact (hg.ordinary hb _).trans (hf.ordinary ha h)
  redirect hab h := by
    cases hb : b with
    | true => exact hg.redirect hb _
    | false =>
        have ha : a = true := by simpa [hb] using hab
        rw [Function.comp, hg.ordinary hb]
        exact hf.redirect ha h

/-! ### Following a `Location` header -/

/-- The `Location` is a path. -/
def isPath (location : Str) : Bool := location.head? = some (byte '/')

/-- The length of the scheme in front of the host. -/
def schemeLength (location : Str) : Nat :=
  if find location (lit "http://") 0 = some 0 then (lit "http://").length else 0

/-- Where the path of a `Location` starts. -/
def pathStart (location : Str) : Option Nat :=
  if isPath location then some 0 else find location (lit "/") (schemeLength location)

def locationUri (location : Str) : Str := location.drop ((pathStart location).getD 0)

/-- What stands in front of the path. -/
def locationHostHeader (location : Str) : Str := location.take ((pathStart location).getD 0)

def locationHost (location : Str) : Str := (locationHostHeader location).drop (schemeLength location)

/-- What a `Location` with a path leaves in the fields; a path alone says nothing about the host. -/
def redirected (location : Str) (h : ProxyHandler) : ProxyHandler :=
  if isPath location then { h with redirect := true, redirectUri := locationUri location }
  else { h with
    redirect := true
    redirectUri := locationUri location
    redirectHostHeader := locationHostHeader location
    redirectHost := locationHost location }

theorem schemeLength_le (location : Str) : schemeLength location ≤ location.length := by
  unfold schemeLength
  split
  · rename_i hfind
    obtain ⟨b, hb⟩ := find_spec hfind
    rw [show location = lit "http://" ++ b from hb, List.length_append]
    exact Nat.le_add_right _ _
  · exact Nat.zero_le _

/-- The path is found a second time where it was found first, since no slash stands before it. -/
theorem find_path {location : Str} {p : Nat}
    (hfind : find location (lit "/") (schemeLength location) = some p) :
    find (location.drop (schemeLength location)) (location.drop p) 0
      = some (p - schemeLength location) := by
  obtain ⟨hle, hlen⟩ := find_le hfind
  obtain ⟨b, hb⟩ := find_spec hfind
  have hfirst : findFrom (lit "/") (location.drop (schemeLength location))
      = some (p - schemeLength location) := by
    rw [find, if_pos (schemeLength_le location)] at hfind
    obtain ⟨k, hk, rfl⟩ := Option.map_eq_some_iff.mp hfind
    rw [hk, Nat.add_sub_cancel]
  have hhost : byte '/' ∉ (location.drop (schemeLength location)).take (p - schemeLength location) :=
    findFrom_byte_not_mem hfirst
  have hrest : (location.drop (schemeLength location)).drop (p - schemeLength location)
      = location.drop p := by
    rw [List.drop_drop]
    congr 1
    omega
  have hwhole : location.drop (schemeLength location)
      = (location.drop (schemeLength location)).take (p - schemeLength location)
        ++ (byte '/' :: b ++ []) := by
    rw [List.append_nil, ← show location.drop p = byte '/' :: b from hb, ← hrest,
      List.take_append_drop]
  have hagain := @findFrom_append _ b _ hhost []
  rw [← hwhole, ← show location.drop p = byte '/' :: b from hb] at hagain
  rw [find, if_pos (Nat.zero_le _), List.drop_zero, hagain, List.length_take, List.length_drop]
  simp
  omega

/-- **A `Location` with a path is followed, one without throws.** -/
theorem redirectTo_local (location : Str) :
    (∃ f, pathStart location = none ∧
      Prog.Local (redirectTo location) (.threw .outOfRange) f) ∨
    (∃ p, pathStart location = some p) ∧
      Prog.Local (redirectTo location) (.returned ()) (redirected location) := by
  by_cases hpath : isPath location = true
  · have hhead : location.head? = some (byte '/') := by simpa [isPath] using hpath
    refine Or.inr ⟨⟨0, by simp [pathStart, hpath]⟩, fun answer m => ?_⟩
    simp [redirectTo, hhead, Prog.run_bind, redirected, hpath, locationUri, pathStart]
  · have hhead : ¬location.head? = some (byte '/') := by simpa [isPath] using hpath
    -- the host is what follows `http://`, if that is there
    have hrun : ∀ {ω : Type} (answer : (q : ProxyQuestion) → ω → Option (ProxyAnswer q × ω))
        (m : Prog.Mem ProxyHandler ω ProxyQuestion), (redirectTo location).run answer m
          = (splitLocation location (schemeLength location)).run answer { m with
              shared := { m.shared with
                redirect := true
                redirectHost := location.drop (schemeLength location) } } := by
      intro ω answer m
      have hlen := schemeLength_le location
      by_cases hhttp : find location (lit "http://") 0 = some 0
      · simp only [schemeLength, hhttp, if_true] at hlen ⊢
        simp [redirectTo, hhead, hhttp, Prog.run_bind, substr, hlen]
      · simp only [schemeLength, hhttp, if_false]
        simp [redirectTo, hhead, hhttp, Prog.run_bind]
    have hstart : pathStart location = find location (lit "/") (schemeLength location) := by
      simp [pathStart, hpath]
    cases hfind : find location (lit "/") (schemeLength location) with
    | none =>
        refine Or.inl ⟨fun h => { h with
          redirect := true
          redirectHost := location.drop (schemeLength location)
          redirectHostHeader := location }, by rw [hstart, hfind], fun answer m => ?_⟩
        rw [hrun]
        simp [splitLocation, hfind, Prog.run_bind, substr, substrFrom]
    | some p =>
        obtain ⟨-, hlen⟩ := find_le hfind
        refine Or.inr ⟨⟨p, by rw [hstart, hfind]⟩, fun answer m => ?_⟩
        have hhost : locationHost location
            = (location.drop (schemeLength location)).take (p - schemeLength location) := by
          rw [locationHost, locationHostHeader, hstart, hfind, Option.getD_some, List.drop_take]
        rw [hrun]
        simp only [splitLocation, hfind, Prog.run_bind, substr, substrFrom, hlen, Nat.zero_le,
          if_true, Nat.sub_zero, List.drop_zero, Prog.run_ok, Prog.andThen_returned,
          Prog.run_modify, Prog.run_get, find_path hfind]
        simp [redirected, hpath, hhost, locationUri, locationHostHeader, hstart, hfind]

/-! ### A whole reply -/

/-- The response has a `Location` that is followed. -/
def isFollowed (response : Response) : Bool :=
  response.headers.any fun header => isRedirect response.code header.1

/-- What the headers of a reply leave in the fields. -/
def noteHeaders (rc : ResponseCode) (headers : Headers) (h : ProxyHandler) : ProxyHandler :=
  headers.foldl (fun h header => if isRedirect rc header.1 then redirected header.2 h else h) h

/-- Every `Location` that is followed has a path. -/
def HavePaths (rc : ResponseCode) (headers : Headers) : Prop :=
  ∀ header ∈ headers, isRedirect rc header.1 = true → ∃ p, pathStart header.2 = some p

/-- No value starts with a space. -/
def Trimmed (headers : Headers) : Prop := ∀ header ∈ headers, header.2.head? ≠ some (byte ' ')

/-- The spaces before a value are skipped. -/
theorem head?_of_trimmed {s value : Str} {start : Nat} {stop : Option Nat}
    (h : substr s (start + ((s.drop start).takeWhile (· = byte ' ')).length) stop = .ok value) :
    value.head? ≠ some (byte ' ') := by
  have hrest : s.drop (start + ((s.drop start).takeWhile (· = byte ' ')).length)
      = (s.drop start).dropWhile (· = byte ' ') := by
    rw [← List.drop_drop]
    conv_lhs => arg 2; rw [← List.takeWhile_append_dropWhile (p := (· = byte ' ')) (l := s.drop start)]
    exact List.drop_left
  have hhead : ((s.drop start).dropWhile (· = byte ' ')).head? ≠ some (byte ' ') := by
    intro hspace
    have hnot := List.head?_dropWhile_not (fun c => decide (c = byte ' ')) (s.drop start)
    rw [hspace] at hnot
    simp at hnot
  unfold substr at h
  rw [hrest] at h
  split at h
  · split at h
    · cases h
      split
      · rw [List.head?_take]
        split
        · simp
        · exact hhead
      · exact hhead
    · cases h
      exact hhead
  · cases h

theorem locationUri_ne_nil {location : Str} {p : Nat} (h : pathStart location = some p) :
    locationUri location ≠ [] := by
  rw [locationUri, h, Option.getD_some]
  unfold pathStart at h
  split at h
  · rename_i hpath
    cases h
    intro hnil
    rw [List.drop_zero] at hnil
    simp [isPath, hnil] at hpath
  · obtain ⟨b, hb⟩ := find_spec h
    rw [hb]
    simp [lit]

theorem redirected_effect {location : Str} {p : Nat} (h : pathStart location = some p) :
    Effect (redirected location) true where
  config f := by
    unfold redirected
    split <;> exact ⟨rfl, rfl, rfl⟩
  ordinary hfalse := by cases hfalse
  redirect _ f := by
    have hne := locationUri_ne_nil h
    unfold redirected
    split <;> exact ⟨rfl, hne⟩

theorem noteHeaders_effect {rc : ResponseCode} {headers : Headers} (h : HavePaths rc headers) :
    Effect (noteHeaders rc headers) (headers.any fun header => isRedirect rc header.1) := by
  induction headers with
  | nil => exact Effect.id
  | cons header rest ih =>
      have hrest := ih fun g hg => h g (by simp [hg])
      rw [List.any_cons]
      cases hredirect : isRedirect rc header.1 with
      | true =>
          obtain ⟨p, hp⟩ := h header (by simp) hredirect
          have hboth := hrest.comp (redirected_effect hp)
          convert hboth using 1
          funext f
          simp [noteHeaders, hredirect]
      | false =>
          have hboth := hrest.comp Effect.id
          convert hboth using 1
          funext f
          simp [noteHeaders, hredirect]

theorem parseHeaders_local (rawResponse : Str) (rc : ResponseCode) (fuel : Nat)
    (stop : Option Nat) (response : Response) (hcode : response.code = rc) :
    ∃ o f, Prog.Local (parseHeaders rawResponse rc fuel stop response) o f ∧
      (o ≠ .stuck ∧ ∀ response', o = .returned response' → response'.code = rc ∧
        ∃ more, response'.headers = response.headers ++ more ∧ HavePaths rc more ∧
          Trimmed more ∧ f = noteHeaders rc more) := by
  induction fuel generalizing stop response with
  | zero => exact ⟨_, _, Prog.Local.spin, by simp, by simp⟩
  | succ fuel ih =>
      simp only [parseHeaders]
      split
      · refine Prog.Local.ofExcept_bind (fun e _ => ⟨by simp, by simp⟩) fun body _ => ?_
        refine ⟨_, _, Prog.Local.pure _, by simp, fun response' h => ?_⟩
        cases h
        exact ⟨hcode, [], by simp [Response.setBody], by simp [HavePaths], by simp [Trimmed], rfl⟩
      · refine Prog.Local.ofExcept_bind (fun e _ => ⟨by simp, by simp⟩) fun headerName _ => ?_
        refine Prog.Local.ofExcept_bind (fun e _ => ⟨by simp, by simp⟩) fun headerValue hvalue => ?_
        -- the loop goes on with one more header
        obtain ⟨o, g, hrest, hstuck, hret⟩ := ih
          (find rawResponse CRLF (past (find rawResponse (lit ":") (past stop 2)) 1 +
            ((rawResponse.drop (past (find rawResponse (lit ":") (past stop 2)) 1)).takeWhile
              (· = byte ' ')).length))
          (response.addHeader headerName headerValue) hcode
        have hmore : ∀ {f : ProxyHandler → ProxyHandler},
            f = noteHeaders rc [(headerName, headerValue)] →
            HavePaths rc [(headerName, headerValue)] → ∀ response', o = .returned response' →
            response'.code = rc ∧ ∃ more, response'.headers = response.headers ++ more ∧
              HavePaths rc more ∧ Trimmed more ∧ g ∘ f = noteHeaders rc more := by
          rintro f rfl hpath response' ho
          obtain ⟨hcode', more, hmore, hpaths, htrimmed, rfl⟩ := hret response' ho
          refine ⟨hcode', (headerName, headerValue) :: more,
            by simpa [Response.addHeader] using hmore, ?_, ?_, rfl⟩
          · intro header hmem
            rcases List.mem_cons.mp hmem with rfl | hmem
            · exact hpath _ (by simp)
            · exact hpaths header hmem
          · intro header hmem
            rcases List.mem_cons.mp hmem with rfl | hmem
            · exact head?_of_trimmed hvalue
            · exact htrimmed header hmem
        by_cases hredirect : isRedirect rc headerName = true
        · rw [if_pos hredirect]
          rcases redirectTo_local headerValue with ⟨f, -, hf⟩ | ⟨hpath, hf⟩
          · exact ⟨_, _, hf.bind_threw _, by simp, by simp⟩
          · refine ⟨_, _, hf.bind hrest, hstuck, hmore ?_ ?_⟩
            · funext h
              simp [noteHeaders, hredirect]
            · simpa [HavePaths] using fun _ => hpath
        · rw [if_neg hredirect]
          refine ⟨_, _, hrest, hstuck, hmore (f := id) ?_ ?_⟩
          · funext h
            simp [noteHeaders, hredirect]
          · simp [HavePaths, hredirect]

/-- How a reply is read, whatever handler reads it. -/
def parsed (fuel : Nat) (rawResponse : Str) : Outcome Fault Response :=
  ((parseRawResponse fuel rawResponse).run upstream
    { shared := { uriPrefix := [], remoteHost := [], remotePort := [] }, held := false, env := [],
      asked := [] }).1

/-- **Reading a reply**: the outcome is the reply's own, and so is the effect on the fields. -/
theorem parseRawResponse_local (fuel : Nat) (rawResponse : Str) :
    ∃ f, Prog.Local (parseRawResponse fuel rawResponse) (parsed fuel rawResponse) f ∧
      parsed fuel rawResponse ≠ .stuck ∧ ∀ response, parsed fuel rawResponse = .returned response →
        f = noteHeaders response.code response.headers ∧ Effect f (isFollowed response) ∧
          Trimmed response.headers := by
  obtain ⟨o, f, hlocal, hstuck, hret⟩ : ∃ o f, Prog.Local (parseRawResponse fuel rawResponse) o f ∧
      (o ≠ .stuck ∧ ∀ response, o = .returned response →
        f = noteHeaders response.code response.headers ∧ Effect f (isFollowed response) ∧
          Trimmed response.headers) := by
    unfold parseRawResponse
    refine Prog.Local.ofExcept_bind (fun e _ => ⟨by simp, by simp⟩) fun code _ => ?_
    refine Prog.Local.ofExcept_bind (fun e _ => ⟨by simp, by simp⟩) fun rc _ => ?_
    obtain ⟨o, f, hlocal, hstuck, hret⟩ := parseHeaders_local rawResponse rc fuel
      (find rawResponse CRLF (past (find rawResponse (lit " ") 0) 1)) { code := rc } rfl
    refine ⟨o, f, hlocal, hstuck, fun response ho => ?_⟩
    obtain ⟨hcode, more, hmore, hpaths, htrimmed, rfl⟩ := hret response ho
    obtain rfl : response.headers = more := by simpa using hmore
    exact ⟨by rw [hcode], by simpa [isFollowed, hcode] using noteHeaders_effect hpaths, htrimmed⟩
  have ho : parsed fuel rawResponse = o := by rw [parsed, hlocal]
  exact ⟨f, ho ▸ hlocal, ho ▸ hstuck, ho ▸ hret⟩

/-! ### Depth does not matter -/

theorem parseHeaders_unrolls (rawResponse : Str) (rc : ResponseCode) {n k : Nat} (h : n ≤ k)
    (stop : Option Nat) (response : Response) :
    Prog.Unrolls (parseHeaders rawResponse rc n stop response)
      (parseHeaders rawResponse rc k stop response) := by
  induction n generalizing k stop response with
  | zero => exact .spin _
  | succ n ih =>
      cases k with
      | zero => omega
      | succ k =>
          have hle : n ≤ k := Nat.le_of_succ_le_succ h
          simp only [parseHeaders]
          split
          · exact .refl _
          · refine .bind (.refl _) fun headerName => .bind (.refl _) fun headerValue => ?_
            split
            · exact .bind (.refl _) fun _ => ih hle _ _
            · exact ih hle _ _

/-- A reply that has been read is read the same way at every greater depth. -/
theorem parsed_mono {n k : Nat} {rawResponse : Str} (hle : n ≤ k)
    (hend : parsed n rawResponse ≠ .running) : parsed k rawResponse = parsed n rawResponse := by
  unfold parsed at hend ⊢
  have hunrolls : Prog.Unrolls (parseRawResponse n rawResponse) (parseRawResponse k rawResponse) := by
    unfold parseRawResponse
    exact Prog.Unrolls.bind (.refl _) fun _ => Prog.Unrolls.bind (.refl _) fun _ =>
      parseHeaders_unrolls rawResponse _ hle _ _
  rw [hunrolls.run_eq upstream _ hend]

/-- So all depths that reach its end agree. -/
theorem parsed_unique {n k : Nat} {rawResponse : Str} (hn : parsed n rawResponse ≠ .running)
    (hk : parsed k rawResponse ≠ .running) : parsed n rawResponse = parsed k rawResponse := by
  rcases Nat.le_total n k with hle | hle
  · exact (parsed_mono hle hn).symm
  · exact parsed_mono hle hk

end ProxyHandler

end JustEnough
