/-
Responses as text.

`Response::ToString` prints a response, and `ProxyHandler::ParseRawResponse` is what reads
one.  They are each other's inverse on the responses whose headers can be printed at all:
no name with a colon, no name that begins with a CRLF, no value with a CRLF or with a
space in front.  For every other response what is read back is another one
(`readsBack_iff`).

The reader never makes a header that cannot be printed, whatever bytes it is given.  So a
reply that was read is printed and read back as the same response, and a second relay
changes nothing that the first one left (`parsed_readsBack_iff`).
-/
import JustEnough.Proofs.Relay

namespace JustEnough

open Response

namespace ProxyHandler

/-- A header whose printed line gives it back. -/
structure PrintedHeader (header : Str × Str) : Prop where
  colon : byte ':' ∉ header.1
  line : ¬CRLF <+: header.1
  value : ¬CRLF <:+: header.2
  space : header.2.head? ≠ some (byte ' ')

/-- A printed header is read as a header line. -/
theorem not_prefix_headerLine {name : Str} (hname : ¬CRLF <+: name) (rest : Str) :
    ¬CRLF <+: name ++ (lit ": " ++ rest) := by
  rcases name with _ | ⟨x, _ | ⟨y, name⟩⟩
  · intro h
    exact absurd (List.cons_prefix_cons.mp h).1 (by decide)
  · intro h
    have htail := (List.cons_prefix_cons.mp h).2
    exact absurd (List.cons_prefix_cons.mp htail).1 (by decide)
  · intro h
    exact hname (List.prefix_of_prefix_length_le h (List.prefix_append _ _) (by simp [CRLF, lit]))

/-! ### What is printed is read -/

/-- One printed header: what follows it is read from behind it. -/
theorem parseHeaders_header {header : Str × Str} (h : PrintedHeader header) {raw done rest : Str}
    (hraw : raw = done ++ (header.1 ++ lit ": " ++ header.2 ++ CRLF ++ rest)) (rc : ResponseCode)
    (fuel : Nat) {stop : Option Nat} (hstop : past stop 2 = done.length) (response : Response) :
    ∃ stop', past stop' 2 = (done ++ (header.1 ++ lit ": " ++ header.2 ++ CRLF)).length ∧
      parseHeaders raw rc (fuel + 1) stop response = (do
        if isRedirect rc header.1 then redirectTo header.2 else pure ()
        parseHeaders raw rc fuel stop' (response.addHeader header.1 header.2)) := by
  obtain ⟨name, value⟩ := header
  have hsplit : raw = done ++ (name ++ (lit ":" ++ (lit " " ++ (value ++ (CRLF ++ rest))))) := by
    simpa [lit] using hraw
  -- the line is not the empty one
  have hne : ¬find raw CRLF done.length = some done.length := by
    intro hfind
    obtain ⟨b, hb⟩ := find_spec hfind
    refine not_prefix_headerLine h.line (value ++ (CRLF ++ rest)) ⟨b, ?_⟩
    rw [← hb, hsplit, List.drop_left]
    simp [lit]
  have hnameEnd : find raw (lit ":") done.length = some (name.length + done.length) :=
    find_byte (c := byte ':') (lit " " ++ (value ++ (CRLF ++ rest))) hsplit h.colon
  have hnameCut : substr raw done.length (some (name.length + done.length)) = .ok name := by
    rw [hsplit]
    exact substr_at done name _
  have hskip : ((raw.drop (name.length + done.length + 1)).takeWhile (· = byte ' ')).length = 1 := by
    have hlen : name.length + done.length + 1 = (done ++ name ++ lit ":").length := by
      simp [lit]
      omega
    have hdrop : raw = done ++ name ++ lit ":" ++ (lit " " ++ (value ++ (CRLF ++ rest))) := by
      simp [hsplit]
    rw [hlen, hdrop, List.drop_left, takeWhile_spaces (by simp [lit]) h.space]
    rfl
  have hvalueStart : name.length + done.length + 1 + 1 = (done ++ name ++ lit ": ").length := by
    simp [lit]
    omega
  have hvalueEnd : find raw CRLF (done ++ name ++ lit ": ").length
      = some (value.length + (done ++ name ++ lit ": ").length) :=
    find_CRLF rest (by simp [hsplit, lit]) h.value
  have hvalueCut : substr raw (done ++ name ++ lit ": ").length
      (some (value.length + (done ++ name ++ lit ": ").length)) = .ok value := by
    have hat := substr_at (done ++ name ++ lit ": ") value (CRLF ++ rest)
    simpa [hsplit, lit] using hat
  refine ⟨some (value.length + (done ++ name ++ lit ": ").length), ?_, ?_⟩
  · simp [CRLF, lit]
    omega
  · simp only [parseHeaders, hstop, if_neg hne, hnameEnd, past_some, hskip, hvalueStart, hvalueEnd,
      hnameCut, hvalueCut, Prog.ofExcept_ok_bind]

/-- **The loop over printed headers** ends with these headers and the body behind them. -/
theorem parseHeaders_printed {rc : ResponseCode} {raw body : Str} {headers : Headers}
    (hprinted : ∀ header ∈ headers, PrintedHeader header) (hpaths : HavePaths rc headers) :
    ∀ (done : Str) (stop : Option Nat) (response : Response),
      raw = done ++ (headerLines headers ++ (CRLF ++ body)) → past stop 2 = done.length →
      ∃ f, Prog.Local (parseHeaders raw rc (headers.length + 1) stop response)
        (.returned { response with headers := response.headers ++ headers, body := body }) f := by
  induction headers with
  | nil =>
      intro done stop response hraw hstop
      rw [List.length_nil, Nat.zero_add, parseHeaders_end rc (by simpa using hraw) 0 hstop,
        List.append_nil]
      exact ⟨id, Prog.Local.pure (response.setBody body)⟩
  | cons header rest ih =>
      intro done stop response hraw hstop
      rw [headerLines_cons] at hraw
      have hline : raw = done ++ (header.1 ++ lit ": " ++ header.2 ++ CRLF ++
          (headerLines rest ++ (CRLF ++ body))) := by
        simpa using hraw
      have hrestPaths : HavePaths rc rest := fun h hh => hpaths h (by simp [hh])
      obtain ⟨next, hnext, hstep⟩ := parseHeaders_header (hprinted header (by simp)) hline rc
        (rest.length + 1) hstop response
      obtain ⟨g, hrest⟩ := ih (fun h hh => hprinted h (by simp [hh])) hrestPaths _ next
        (response.addHeader header.1 header.2) (by simp [hline]) hnext
      have hheaders : (response.addHeader header.1 header.2).headers ++ rest
          = response.headers ++ header :: rest := by
        simp [Response.addHeader]
      rw [hheaders] at hrest
      rw [List.length_cons, hstep]
      by_cases hredirect : isRedirect rc header.1 = true
      · rw [if_pos hredirect]
        rcases redirectTo_local header.2 with ⟨f, hnone, -⟩ | ⟨-, hlocal⟩
        · obtain ⟨p, hp⟩ := hpaths header (by simp) hredirect
          rw [hnone] at hp
          cases hp
        · exact ⟨_, hlocal.bind hrest⟩
      · rw [if_neg hredirect]
        exact ⟨_, hrest⟩

/-- A response that can be printed is read back. -/
theorem parsed_printed {resp : Response} {text : Str} (htext : resp.toString = .ok text)
    (hprinted : ∀ header ∈ resp.headers, PrintedHeader header)
    (hpaths : HavePaths resp.code resp.headers) :
    parsed (resp.headers.length + 1) text = .returned resp := by
  have hknown : resp.code ∈ knownCodes := by
    by_contra hunknown
    rw [toString_of_unknown (lookup_of_not_known hunknown)] at htext
    cases htext
  obtain ⟨reason, hreason, hprint⟩ := toString_of_known hknown
  obtain ⟨hnonneg, hlt⟩ := knownCodes_bounded _ hknown
  have hcode : ((resp.code.toNat : Nat) : Int) = resp.code := Int.toNat_of_nonneg hnonneg
  have htail : ¬CRLF <:+: lit " " ++ reason ∧
      (lit " " ++ reason = [] ∨ (lit " " ++ reason).head? = some (byte ' ')) :=
    ⟨not_CRLF_append (by decide) (not_CRLF_of_not_mem hreason.1), Or.inr rfl⟩
  have hraw : text = lit "HTTP/1.1" ++ lit " " ++ (statusDigits resp.code.toNat ++
      (lit " " ++ reason)) ++ CRLF ++ (headerLines resp.headers ++ (CRLF ++ resp.body)) := by
    have hsame := htext.symm.trans hprint
    simpa [lit] using Except.ok.inj hsame
  obtain ⟨stop, hstop, hfirst⟩ := parseRawResponse_firstLine (by decide) (by omega) htail hraw
    (resp.headers.length + 1)
  obtain ⟨f, hlocal⟩ := parseHeaders_printed hprinted hpaths _ stop
    { code := (resp.code.toNat : Nat) } hraw hstop
  rw [hcode] at hfirst hlocal
  rw [parsed, hfirst, hlocal]
  simp

/-! ### What is read can be printed -/

/-- A piece that was cut off at a pattern does not hold the pattern. -/
theorem not_infix_of_substr {s pat piece : Str} {a : Nat} (hpat : pat ≠ [])
    (h : substr s a (find s pat a) = .ok piece) : ¬pat <:+: piece := by
  rintro ⟨front, back, rfl⟩
  -- wherever the piece ends, the pattern stands behind its front part
  have hstands : ∀ rest, s.drop a = front ++ pat ++ back ++ rest →
      StandsAt pat s (a + front.length) := by
    intro rest hdrop
    refine ⟨back ++ rest, ?_⟩
    rw [← List.drop_drop, hdrop]
    simp
  have hlen := List.length_pos_iff.mpr hpat
  unfold substr at h
  cases hfind : find s pat a with
  | none =>
      simp only [hfind] at h
      split at h
      · have hdrop := Except.ok.inj h
        exact (find_eq_none_iff hpat).mp hfind _ (Nat.le_add_right _ _)
          (hstands [] (by simpa using hdrop))
      · cases h
  | some n =>
      obtain ⟨ha, -, -, hfirst⟩ := find_eq_some_iff.mp hfind
      simp only [hfind, if_pos ha] at h
      split at h
      · have htake := Except.ok.inj h
        have hn : front.length + pat.length + back.length ≤ n - a := by
          have hle := (s.drop a).length_take_le (n - a)
          rw [htake, List.length_append, List.length_append] at hle
          exact hle
        refine hfirst _ (Nat.le_add_right _ _) (by omega) (hstands ((s.drop a).drop (n - a)) ?_)
        rw [← htake, List.take_append_drop]
      · cases h

/-- A piece is cut from where it starts. -/
theorem prefix_of_substr {s piece : Str} {a : Nat} {stop : Option Nat}
    (h : substr s a stop = .ok piece) : a ≤ s.length ∧ piece <+: s.drop a := by
  unfold substr at h
  split at h
  · rename_i ha
    refine ⟨ha, ?_⟩
    cases stop with
    | none =>
        cases h
        exact List.prefix_refl _
    | some e =>
        cases h
        split
        · exact List.take_prefix _ _
        · exact List.prefix_refl _
  · cases h

/-- The name and the value the loop cuts out make a header that can be printed. -/
theorem printedHeader_of_cut {raw name value : Str} {a b : Nat}
    (hline : ¬find raw CRLF a = some a) (hname : substr raw a (find raw (lit ":") a) = .ok name)
    (hvalue : substr raw (b + ((raw.drop b).takeWhile (· = byte ' ')).length)
      (find raw CRLF (b + ((raw.drop b).takeWhile (· = byte ' ')).length)) = .ok value) :
    PrintedHeader (name, value) := by
  refine ⟨?_, ?_, not_infix_of_substr (by decide) hvalue, head?_of_trimmed hvalue⟩
  · intro hmem
    obtain ⟨front, back, hsplit⟩ := List.append_of_mem hmem
    exact not_infix_of_substr (by decide) hname ⟨front, back, by simpa [lit] using hsplit.symm⟩
  · intro hfront
    obtain ⟨ha, hprefix⟩ := prefix_of_substr hname
    refine hline (find_eq_some_iff.mpr ⟨Nat.le_refl _, ha, hfront.trans hprefix, ?_⟩)
    intro j haj hja
    omega

/-- Every header the loop adds can be printed, and has a path if it is followed. -/
theorem parseHeaders_makes (rawResponse : Str) (rc : ResponseCode) (fuel : Nat)
    (stop : Option Nat) (response : Response) (hcode : response.code = rc) :
    ∃ o f, Prog.Local (parseHeaders rawResponse rc fuel stop response) o f ∧
      ∀ response', o = .returned response' → response'.code = rc ∧
        ∃ more, response'.headers = response.headers ++ more ∧ HavePaths rc more ∧
          ∀ header ∈ more, PrintedHeader header := by
  induction fuel generalizing stop response with
  | zero => exact ⟨_, _, Prog.Local.spin, by simp⟩
  | succ fuel ih =>
      simp only [parseHeaders]
      split
      · refine Prog.Local.ofExcept_bind (fun e _ => by simp) fun body _ => ?_
        refine ⟨_, _, Prog.Local.pure _, fun response' h => ?_⟩
        cases h
        exact ⟨hcode, [], by simp [Response.setBody], by simp [HavePaths], by simp⟩
      · rename_i hline
        refine Prog.Local.ofExcept_bind (fun e _ => by simp) fun name hname => ?_
        refine Prog.Local.ofExcept_bind (fun e _ => by simp) fun value hvalue => ?_
        have hprinted := printedHeader_of_cut hline hname hvalue
        obtain ⟨o, g, hrest, hret⟩ := ih
          (find rawResponse CRLF (past (find rawResponse (lit ":") (past stop 2)) 1 +
            ((rawResponse.drop (past (find rawResponse (lit ":") (past stop 2)) 1)).takeWhile
              (· = byte ' ')).length))
          (response.addHeader name value) hcode
        -- one more header in front of those that the rest of the loop adds
        have hmore : HavePaths rc [(name, value)] → ∀ response', o = .returned response' →
            response'.code = rc ∧ ∃ more, response'.headers = response.headers ++ more ∧
              HavePaths rc more ∧ ∀ header ∈ more, PrintedHeader header := by
          intro hpath response' ho
          obtain ⟨hcode', more, hmore, hpaths, hall⟩ := hret response' ho
          refine ⟨hcode', (name, value) :: more, by simpa [Response.addHeader] using hmore, ?_, ?_⟩
          · intro header hmem
            rcases List.mem_cons.mp hmem with rfl | hmem
            · exact hpath _ (by simp)
            · exact hpaths header hmem
          · intro header hmem
            rcases List.mem_cons.mp hmem with rfl | hmem
            · exact hprinted
            · exact hall header hmem
        by_cases hredirect : isRedirect rc name = true
        · rw [if_pos hredirect]
          rcases redirectTo_local value with ⟨f, -, hf⟩ | ⟨hpath, hf⟩
          · exact ⟨_, _, hf.bind_threw _, by simp⟩
          · exact ⟨_, _, hf.bind hrest, hmore (by simpa [HavePaths] using fun _ => hpath)⟩
        · rw [if_neg hredirect]
          exact ⟨_, _, hrest, hmore (by simp [HavePaths, hredirect])⟩

/-- **Whatever is read as a response could have been printed**, up to its code. -/
theorem parsed_makes {fuel : Nat} {raw : Str} {resp : Response}
    (h : parsed fuel raw = .returned resp) :
    (∀ header ∈ resp.headers, PrintedHeader header) ∧ HavePaths resp.code resp.headers := by
  obtain ⟨o, f, hlocal, hret⟩ : ∃ o f, Prog.Local (parseRawResponse fuel raw) o f ∧
      ∀ response, o = .returned response →
        (∀ header ∈ response.headers, PrintedHeader header) ∧
          HavePaths response.code response.headers := by
    unfold parseRawResponse
    refine Prog.Local.ofExcept_bind (fun e _ => by simp) fun code _ => ?_
    refine Prog.Local.ofExcept_bind (fun e _ => by simp) fun rc _ => ?_
    obtain ⟨o, f, hlocal, hret⟩ := parseHeaders_makes raw rc fuel
      (find raw CRLF (past (find raw (lit " ") 0) 1)) { code := rc } rfl
    refine ⟨o, f, hlocal, fun response ho => ?_⟩
    obtain ⟨hcode, more, hmore, hpaths, hprinted⟩ := hret response ho
    obtain rfl : response.headers = more := by simpa using hmore
    exact ⟨hprinted, hcode ▸ hpaths⟩
  rw [parsed, hlocal] at h
  exact hret resp h

/-! ### The round trip -/

/-- The response is printed, and what is printed is read as the same response. -/
def ReadsBack (resp : Response) : Prop :=
  ∃ text fuel, resp.toString = .ok text ∧ parsed fuel text = .returned resp

/-- A response is printed exactly when there is a first line for its code. -/
theorem exists_toString_iff {resp : Response} :
    (∃ text, resp.toString = .ok text) ↔ resp.code ∈ knownCodes := by
  constructor
  · rintro ⟨text, htext⟩
    by_contra hunknown
    rw [toString_of_unknown (lookup_of_not_known hunknown)] at htext
    cases htext
  · intro hknown
    obtain ⟨reason, -, hprint⟩ := toString_of_known hknown
    exact ⟨_, hprint⟩

/--
**A response is printed and read back exactly when** its code has a first line, each of its
headers keeps to its line, and every `Location` that would be followed has a path.
-/
theorem readsBack_iff (resp : Response) :
    ReadsBack resp ↔ resp.code ∈ knownCodes ∧ (∀ header ∈ resp.headers, PrintedHeader header) ∧
      HavePaths resp.code resp.headers := by
  constructor
  · rintro ⟨text, fuel, htext, hparsed⟩
    exact ⟨exists_toString_iff.mp ⟨text, htext⟩, parsed_makes hparsed⟩
  · rintro ⟨hknown, hprinted, hpaths⟩
    obtain ⟨text, htext⟩ := exists_toString_iff.mpr hknown
    exact ⟨text, _, htext, parsed_printed htext hprinted hpaths⟩

/--
**A reply that was read is read again from its print**, whatever bytes it came as, exactly
when its code has a first line.
-/
theorem parsed_readsBack_iff {fuel : Nat} {raw : Str} {resp : Response}
    (h : parsed fuel raw = .returned resp) : ReadsBack resp ↔ resp.code ∈ knownCodes := by
  obtain ⟨hprinted, hpaths⟩ := parsed_makes h
  rw [readsBack_iff]
  exact ⟨fun hall => hall.1, fun hknown => ⟨hknown, hprinted, hpaths⟩⟩

/-- A reply of another version, with spaces and a colon in a value, that ends with its headers. -/
theorem parsed_readsBack_example :
    ReadsBack { code := 404, headers := [(lit "Server", lit "a:b")], body := [] } ↔
      (404 : ResponseCode) ∈ knownCodes :=
  @parsed_readsBack_iff 2 (lit "HTTP/1.0 404 Gone\r\nServer:   a:b\r\n\r\n") _ (by decide +kernel)

end ProxyHandler

end JustEnough
