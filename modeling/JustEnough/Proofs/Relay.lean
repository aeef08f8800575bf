/-
A reply on its way through the proxy.

`Reply` is a well-formed reply, and `Reply.text` the bytes it is sent as.  Reading
those bytes gives back the code, the headers and the body, however many headers there
are and whatever the body is (`parseRawResponse_text`).  Printing them again is another
matter: the server has a first line for nine codes only, so a reply is relayed exactly
when its code is one of them (`relayed_iff`).

The induction over the headers keeps the text split into what the loop has consumed and
what it has not, since every position the loop computes is the length of the former.
-/
import JustEnough.Proofs.ProxyCall

namespace JustEnough

open Response

/-- A header whose line is read as it is meant. -/
structure Readable (header : Str × Str) : Prop where
  name : byte ':' ∉ header.1 ∧ OneLine header.1
  value : OneLine header.2 ∧ header.2.head? ≠ some (byte ' ')

/-- A well-formed reply that is not a redirect to follow. -/
structure Reply where
  /-- The digit after `HTTP/1.` -/
  minor : UInt8
  code : Nat
  reason : Str
  headers : Headers
  body : Str
  minor_digit : isDigit minor = true
  code_lt : code < 1000
  reason_line : OneLine reason
  readable : ∀ header ∈ headers, Readable header
  noLocation : code = 301 ∨ code = 302 → ∀ header ∈ headers, header.1 ≠ lit "Location"

namespace Reply

def version (r : Reply) : Str := lit "HTTP/1." ++ [r.minor]

/-- The reply as it is sent. -/
def text (r : Reply) : Str :=
  r.version ++ lit " " ++ statusDigits r.code ++ lit " " ++ r.reason ++ CRLF ++
    headerLines r.headers ++ CRLF ++ r.body

end Reply

namespace ProxyHandler

/-! ### Reading the headers -/

/-- A search for CRLF stops at the first one, which is where the line ends. -/
theorem find_CRLF {raw done line : Str} (rest : Str) (hraw : raw = done ++ (line ++ (CRLF ++ rest)))
    (hline : ¬CRLF <:+: line) : find raw CRLF done.length = some (line.length + done.length) := by
  have hne : byte '\r' ≠ byte '\n' := by decide
  have hfind : findFrom CRLF (line ++ (CRLF ++ rest)) = some line.length :=
    findFrom_pair hne hline rest
  rw [hraw, find_at, hfind]
  rfl

/-- Text without a carriage return holds no CRLF. -/
theorem not_CRLF_of_not_mem {line : Str} (hline : byte '\r' ∉ line) : ¬CRLF <:+: line :=
  fun h => hline (h.subset (by simp [CRLF, lit]))

/-- The same for a delimiter of one byte. -/
theorem find_byte {raw done piece : Str} {c : UInt8} (rest : Str)
    (hraw : raw = done ++ (piece ++ ([c] ++ rest))) (hpiece : c ∉ piece) :
    find raw [c] done.length = some (piece.length + done.length) := by
  have hfind : findFrom [c] (piece ++ ([c] ++ rest)) = some piece.length :=
    findFrom_append hpiece rest
  rw [hraw, find_at, hfind]
  rfl

/-- The spaces after the colon end where the value starts. -/
theorem takeWhile_spaces {spaces value : Str} (hspaces : ∀ c ∈ spaces, c = byte ' ')
    (hvalue : value.head? ≠ some (byte ' ')) (rest : Str) :
    (spaces ++ (value ++ (CRLF ++ rest))).takeWhile (· = byte ' ') = spaces := by
  refine (takeWhile_append_stop (fun c hc => by simpa using hspaces c hc) fun c hc => ?_).1
  cases value with
  | nil =>
      obtain rfl : byte '\r' = c := by simpa [CRLF, lit] using hc
      decide
  | cons x value =>
      obtain rfl : x = c := by simpa using hc
      simpa using hvalue

/-- A line with a colon in it is not the empty line. -/
theorem not_standsAt_name {name : Str} (hname : ¬CRLF <:+: name) (rest : Str) :
    ¬CRLF <+: name ++ (lit ":" ++ rest) := by
  intro h
  rcases name with _ | ⟨x, _ | ⟨y, name⟩⟩
  · simp [CRLF, lit, byte] at h
  · simp [CRLF, lit, byte] at h
  · have hfront : CRLF <+: x :: y :: name :=
      List.prefix_of_prefix_length_le h (List.prefix_append _ _) (by simp [CRLF, lit])
    exact hname hfront.isInfix

/-- A header line, with any number of spaces in front of its value. -/
structure HeaderLine where
  name : Str
  spaces : Str
  value : Str
  name_plain : byte ':' ∉ name ∧ ¬CRLF <:+: name
  spaces_blank : ∀ c ∈ spaces, c = byte ' '
  value_plain : ¬CRLF <:+: value ∧ value.head? ≠ some (byte ' ')

namespace HeaderLine

def header (line : HeaderLine) : Str × Str := (line.name, line.value)

def text (line : HeaderLine) : Str :=
  line.name ++ lit ":" ++ line.spaces ++ line.value ++ CRLF

end HeaderLine

/-- One header line read: what follows is read from behind it. -/
theorem parseHeaders_line (line : HeaderLine) {raw done rest : Str}
    (hraw : raw = done ++ (line.text ++ rest)) (rc : ResponseCode) (fuel : Nat) {stop : Option Nat}
    (hstop : past stop 2 = done.length) (response : Response) :
    ∃ stop', past stop' 2 = (done ++ line.text).length ∧
      parseHeaders raw rc (fuel + 1) stop response = (do
        if isRedirect rc line.name then redirectTo line.value else pure ()
        parseHeaders raw rc fuel stop' (response.addHeader line.name line.value)) := by
  obtain ⟨name, spaces, value, hname, hspaces, hvalue⟩ := line
  have hsplit : raw = done ++ (name ++ (lit ":" ++ (spaces ++ (value ++ (CRLF ++ rest))))) := by
    simpa [HeaderLine.text] using hraw
  -- the line is not empty
  have hne : ¬find raw CRLF done.length = some done.length := by
    intro h
    obtain ⟨b, hb⟩ := find_spec h
    refine not_standsAt_name hname.2 (spaces ++ (value ++ (CRLF ++ rest))) ⟨b, ?_⟩
    rw [← hb, hsplit, List.drop_left]
  -- the name ends at the first colon
  have hnameEnd : find raw (lit ":") done.length = some (name.length + done.length) :=
    find_byte (c := byte ':') (spaces ++ (value ++ (CRLF ++ rest))) hsplit hname.1
  have hnameCut : substr raw done.length (some (name.length + done.length)) = .ok name := by
    rw [hsplit]
    exact substr_at done name _
  -- the spaces are skipped
  have hskip : ((raw.drop (name.length + done.length + 1)).takeWhile (· = byte ' ')).length
      = spaces.length := by
    have hlen : name.length + done.length + 1 = (done ++ name ++ lit ":").length := by
      simp [lit]
      omega
    have hdrop : raw = done ++ name ++ lit ":" ++ (spaces ++ (value ++ (CRLF ++ rest))) := by
      simp [hsplit]
    rw [hlen, hdrop, List.drop_left, takeWhile_spaces hspaces hvalue.2]
  -- and the value ends at the CRLF
  have hvalueStart : name.length + done.length + 1 + spaces.length
      = (done ++ name ++ lit ":" ++ spaces).length := by
    simp [lit]
    omega
  have hvalueEnd : find raw CRLF (done ++ name ++ lit ":" ++ spaces).length
      = some (value.length + (done ++ name ++ lit ":" ++ spaces).length) :=
    find_CRLF rest (by simp [hsplit]) hvalue.1
  have hvalueCut : substr raw (done ++ name ++ lit ":" ++ spaces).length
      (some (value.length + (done ++ name ++ lit ":" ++ spaces).length)) = .ok value := by
    have hat := substr_at (done ++ name ++ lit ":" ++ spaces) value (CRLF ++ rest)
    simpa [hsplit] using hat
  refine ⟨some (value.length + (done ++ name ++ lit ":" ++ spaces).length), ?_, ?_⟩
  · simp [HeaderLine.text, CRLF, lit]
    omega
  · simp only [parseHeaders, hstop, if_neg hne, hnameEnd, past_some, hskip, hvalueStart, hvalueEnd,
      hnameCut, hvalueCut, Prog.ofExcept_ok_bind]

/-- The empty line read: the rest is the body. -/
theorem parseHeaders_end (rc : ResponseCode) {raw done body : Str} (hraw : raw = done ++ (CRLF ++ body))
    (fuel : Nat) {stop : Option Nat} (hstop : past stop 2 = done.length) (response : Response) :
    parseHeaders raw rc (fuel + 1) stop response = pure (response.setBody body) := by
  have hfind : find raw CRLF done.length = some (([] : Str).length + done.length) :=
    find_CRLF body (by simpa using hraw) (not_CRLF_of_not_mem (by simp))
  rw [List.length_nil, Nat.zero_add] at hfind
  have hbody : substr raw (done.length + 2) (some raw.length) = .ok body := by
    have hcut := substr_at (done ++ CRLF) body []
    simpa [hraw, CRLF, lit, Nat.add_comm, Nat.add_left_comm] using hcut
  simp only [parseHeaders, hstop, if_pos hfind, hbody]
  rfl

/-- **The loop over headers that are not followed** stands behind them in the end. -/
theorem parseHeaders_lines {rc : ResponseCode} {raw rest : Str} {lines : List HeaderLine}
    (hnot : ∀ line ∈ lines, isRedirect rc line.name = false) (fuel : Nat) :
    ∀ (done : Str) (stop : Option Nat) (response : Response),
      raw = done ++ (lines.flatMap HeaderLine.text ++ rest) → past stop 2 = done.length →
      ∃ stop', past stop' 2 = (done ++ lines.flatMap HeaderLine.text).length ∧
        parseHeaders raw rc (lines.length + fuel) stop response
          = parseHeaders raw rc fuel stop'
              { response with headers := response.headers ++ lines.map HeaderLine.header } := by
  induction lines with
  | nil =>
      intro done stop response hraw hstop
      refine ⟨stop, by simpa using hstop, ?_⟩
      simp
  | cons line lines ih =>
      intro done stop response hraw hstop
      have hline : raw = done ++ (line.text ++ (lines.flatMap HeaderLine.text ++ rest)) := by
        simpa using hraw
      obtain ⟨next, hnext, hstep⟩ :=
        parseHeaders_line line hline rc (lines.length + fuel) hstop response
      rw [hnot line (by simp)] at hstep
      obtain ⟨stop', hstop', hrest⟩ := ih (fun l hl => hnot l (by simp [hl])) (done ++ line.text)
        next (response.addHeader line.name line.value) (by simpa using hline) hnext
      refine ⟨stop', by simpa using hstop', ?_⟩
      rw [List.length_cons, Nat.add_right_comm, hstep]
      simpa [Response.addHeader, HeaderLine.header] using hrest

/-! ### Reading the first line -/

/-- What is read as the code is its digits, and then nothing that goes on with a digit. -/
theorem substr_code {raw digits rest : Str} {start : Nat} (hstart : start ≤ raw.length)
    (hsplit : raw.drop start = digits ++ rest) (hdigits : ∀ d ∈ digits, isDigit d = true)
    (hstops : ∀ c, rest.head? = some c → isDigit c = false) :
    ∃ more, substr raw start (find raw (lit " ") start) = .ok (digits ++ more) ∧
      ∀ c, more.head? = some c → isDigit c = false := by
  cases hfind : find raw (lit " ") start with
  | none => exact ⟨rest, by rw [substr, if_pos hstart, hsplit], hstops⟩
  | some n =>
      obtain ⟨hle, -, hstands, -⟩ := find_eq_some_iff.mp hfind
      -- the space does not stand among the digits
      have hspace : (digits ++ rest)[n - start]? = some (byte ' ') := by
        rw [← hsplit, List.getElem?_drop, Nat.add_sub_cancel' hle]
        exact standsAt_byte.mp hstands
      have hbehind : digits.length ≤ n - start := by
        by_contra hlt
        rw [List.getElem?_append_left (by omega)] at hspace
        exact absurd (hdigits _ (List.mem_of_getElem? hspace)) (by decide)
      refine ⟨rest.take (n - start - digits.length), ?_, fun c hc => ?_⟩
      · rw [substr, if_pos hstart, hsplit, List.take_append, List.take_of_length_le hbehind]
        simp [hle]
      · rw [List.head?_take] at hc
        split at hc
        · cases hc
        · exact hstops c hc

/-- No CRLF begins in front of the line either. -/
theorem not_CRLF_append {front line : Str} (hfront : byte '\r' ∉ front) (hline : ¬CRLF <:+: line) :
    ¬CRLF <:+: front ++ line := by
  induction front with
  | nil => exact hline
  | cons x front ih =>
      have hx : byte '\r' ≠ x := fun h => hfront (by simp [h])
      intro h
      rcases List.infix_cons_iff.mp h with hhere | hlater
      · exact hx (List.cons_prefix_cons.mp hhere).1
      · exact ih (fun h => hfront (by simp [h])) hlater

/--
**The first line read**: the code is what it says, even if there is no space behind it, and
the headers are read from behind the line.
-/
theorem parseRawResponse_firstLine {version tail rest : Str} {code : Nat}
    (hversion : byte ' ' ∉ version) (hcode : code < 1000)
    (htail : ¬CRLF <:+: tail ∧ (tail = [] ∨ tail.head? = some (byte ' '))) {raw : Str}
    (hraw : raw = version ++ lit " " ++ (statusDigits code ++ tail) ++ CRLF ++ rest) (fuel : Nat) :
    ∃ stop, past stop 2 = (version ++ lit " " ++ (statusDigits code ++ tail) ++ CRLF).length ∧
      parseRawResponse fuel raw = parseHeaders raw code fuel stop { code := code } := by
  have hfirst : find raw (lit " ") 0 = some version.length :=
    @find_byte raw [] version (byte ' ') ((statusDigits code ++ tail) ++ CRLF ++ rest)
      (by simp [hraw, lit]) hversion
  have hstart : version.length + 1 = (version ++ lit " ").length := by simp [lit]
  -- behind the digits stands a space or a carriage return
  have hstops : ∀ c, (tail ++ CRLF ++ rest).head? = some c → isDigit c = false := by
    intro c hc
    rcases htail.2 with rfl | hspace
    · obtain rfl : byte '\r' = c := by simpa [CRLF, lit] using hc
      decide
    · obtain ⟨tail', rfl⟩ := List.head?_eq_some_iff.mp hspace
      obtain rfl : byte ' ' = c := by simpa using hc
      decide
  have hdrop : raw.drop (version ++ lit " ").length
      = statusDigits code ++ (tail ++ CRLF ++ rest) := by
    have hsplit : raw = (version ++ lit " ") ++ (statusDigits code ++ (tail ++ CRLF ++ rest)) := by
      simp [hraw]
    rw [hsplit, List.drop_left]
  obtain ⟨more, hcut, hmore⟩ :=
    substr_code (by simp [hraw]) hdrop isDigit_of_mem_statusDigits hstops
  have hvalue := digitsValue_statusDigits hcode
  have hstoi : stoi (statusDigits code ++ more) = .ok code := by
    rw [stoi_front (by simp [statusDigits]) isDigit_of_mem_statusDigits hmore (by omega), hvalue]
  have hdigits : byte '\r' ∉ statusDigits code := by
    intro hmem
    exact absurd (isDigit_of_mem_statusDigits _ hmem) (by decide)
  have hline : find raw CRLF (version ++ lit " ").length
      = some ((statusDigits code ++ tail).length + (version ++ lit " ").length) :=
    find_CRLF rest (by simp [hraw]) (not_CRLF_append hdigits htail.1)
  refine ⟨some ((statusDigits code ++ tail).length + (version ++ lit " ").length), ?_, ?_⟩
  · simp [CRLF, lit]
    omega
  · simp only [parseRawResponse, hfirst, past_some, hstart, hcut, hstoi, hline,
      Prog.ofExcept_ok_bind]

/-! ### Reading a whole reply -/

theorem isRedirect_eq_false (r : Reply) :
    ∀ header ∈ r.headers, isRedirect r.code header.1 = false := by
  intro header hh
  by_cases hcode : r.code = 301 ∨ r.code = 302
  · simp [isRedirect, r.noLocation hcode header hh]
  · have h301 : (r.code : Int) ≠ 301 := fun h => hcode (Or.inl (by exact_mod_cast h))
    have h302 : (r.code : Int) ≠ 302 := fun h => hcode (Or.inr (by exact_mod_cast h))
    simp [isRedirect, h301, h302]

/-- What a reply is read as. -/
def asResponse (r : Reply) : Response := { code := r.code, headers := r.headers, body := r.body }

/-- Readable headers are printed as lines with one space each. -/
theorem exists_lines {headers : Headers} (hread : ∀ header ∈ headers, Readable header) :
    ∃ lines : List HeaderLine, lines.map HeaderLine.header = headers ∧
      lines.flatMap HeaderLine.text = headerLines headers := by
  induction headers with
  | nil => exact ⟨[], rfl, rfl⟩
  | cons header headers ih =>
      obtain ⟨⟨hcolon, hname⟩, ⟨hvalue, hhead⟩⟩ := hread header (by simp)
      obtain ⟨lines, hheaders, htext⟩ := ih fun h hh => hread h (by simp [hh])
      refine ⟨{
        name := header.1
        spaces := lit " "
        value := header.2
        name_plain := ⟨hcolon, not_CRLF_of_not_mem hname.1⟩
        spaces_blank := by simp [lit]
        value_plain := ⟨not_CRLF_of_not_mem hvalue.1, hhead⟩ } :: lines, ?_, ?_⟩
      · simp [hheaders, HeaderLine.header]
      · rw [List.flatMap_cons, htext, headerLines_cons]
        simp [HeaderLine.text, lit]

/-- **A reply is read as it is meant**, with no effect on the fields. -/
theorem parseRawResponse_text (r : Reply) {fuel : Nat} (hfuel : r.headers.length < fuel) :
    parseRawResponse fuel r.text = pure (asResponse r) := by
  have hversion : byte ' ' ∉ r.version := by
    have hminor : byte ' ' ≠ r.minor := by
      intro h
      have hdigit := h ▸ r.minor_digit
      revert hdigit
      decide
    have hname : byte ' ' ∉ lit "HTTP/1." := by decide
    simp [Reply.version, hname, hminor]
  have htail : ¬CRLF <:+: lit " " ++ r.reason ∧
      (lit " " ++ r.reason = [] ∨ (lit " " ++ r.reason).head? = some (byte ' ')) :=
    ⟨not_CRLF_append (by decide) (not_CRLF_of_not_mem r.reason_line.1), Or.inr rfl⟩
  obtain ⟨lines, hheaders, hlines⟩ := exists_lines r.readable
  have htext : r.text = r.version ++ lit " " ++ (statusDigits r.code ++ (lit " " ++ r.reason)) ++
      CRLF ++ (lines.flatMap HeaderLine.text ++ (CRLF ++ r.body)) := by
    simp [Reply.text, hlines]
  obtain ⟨stop, hstop, hfirst⟩ :=
    parseRawResponse_firstLine hversion r.code_lt htail htext fuel
  -- the headers, and then the empty line
  obtain ⟨depth, rfl⟩ : ∃ depth, fuel = lines.length + (depth + 1) := by
    rw [← hheaders, List.length_map] at hfuel
    exact ⟨fuel - lines.length - 1, by omega⟩
  have hnot : ∀ line ∈ lines, isRedirect r.code line.name = false := by
    intro line hline
    refine isRedirect_eq_false r line.header ?_
    rw [← hheaders]
    exact List.mem_map_of_mem hline
  obtain ⟨stop', hstop', hrest⟩ :=
    parseHeaders_lines hnot (depth + 1) _ stop { code := r.code } htext hstop
  rw [← List.append_assoc] at htext
  rw [hfirst, hrest, parseHeaders_end r.code htext depth hstop']
  simp [asResponse, Response.setBody, hheaders]

theorem parsed_of_length_lt (r : Reply) :
    parsed (r.headers.length + 1) r.text = .returned (asResponse r) := by
  rw [parsed, parseRawResponse_text r (Nat.lt_succ_self _)]
  rfl

/-- No well-formed reply leaves the mutex locked. -/
theorem cleanReply_text (r : Reply) : CleanReply r.text :=
  cleanReply_of_returned (parsed_of_length_lt r)

/-- And none of them is followed anywhere. -/
theorem not_followedReply_text (r : Reply) : ¬FollowedReply r.text := by
  rw [followedReply_iff (parsed_of_length_lt r)]
  intro hfollowed
  obtain ⟨header, hmem, hredirect⟩ := List.any_eq_true.mp hfollowed
  have hnot : isRedirect (asResponse r).code header.1 = false := isRedirect_eq_false r header hmem
  rw [hnot] at hredirect
  cases hredirect

/-! ### Relaying it -/

/--
The reply is read, by whatever handler, and what is printed for it is a reply with the
same code, headers and body.
-/
def Relayed (r : Reply) : Prop :=
  ∃ fuel response, (∀ m : ProxyMem,
      ((parseRawResponse fuel r.text).run upstream m).1 = .returned response) ∧
    ∃ r' : Reply, response.toString = .ok r'.text ∧
      r'.code = r.code ∧ r'.headers = r.headers ∧ r'.body = r.body

/-- However deep the loop is unrolled, a reply is read as nothing else. -/
theorem parsed_text {r : Reply} {fuel : Nat} {response : Response}
    (h : parsed fuel r.text = .returned response) : response = asResponse r := by
  have hdeep := parsed_of_length_lt r
  have hsame : parsed fuel r.text = parsed (r.headers.length + 1) r.text :=
    parsed_unique (by simp [h]) (by simp [hdeep])
  rw [h, hdeep] at hsame
  exact Outcome.returned.inj hsame

/-- A reply that is relayed has a code the server can print. -/
theorem Relayed.known {r : Reply} (h : Relayed r) : (r.code : Int) ∈ knownCodes := by
  obtain ⟨fuel, response, hparsed, r', htext, -⟩ := h
  obtain rfl : response = asResponse r := parsed_text (hparsed _)
  by_contra hunknown
  rw [toString_of_unknown (lookup_of_not_known hunknown)] at htext
  cases htext

theorem relayed_of_known {r : Reply} (h : (r.code : Int) ∈ knownCodes) : Relayed r := by
  have hknown : (asResponse r).code ∈ knownCodes := h
  obtain ⟨reason, hreason, htext⟩ := toString_of_known hknown
  refine ⟨r.headers.length + 1, asResponse r, fun m => ?_, { r with
    minor := byte '1'
    reason := reason
    minor_digit := by decide
    reason_line := hreason }, ?_, rfl, rfl, rfl⟩
  · rw [parseRawResponse_text r (Nat.lt_succ_self _)]
    rfl
  · rw [htext]
    rfl

/-- **A well-formed reply is relayed exactly when its code is one of the nine.** -/
theorem relayed_iff (r : Reply) : Relayed r ↔ (r.code : Int) ∈ knownCodes :=
  ⟨Relayed.known, relayed_of_known⟩

/-- A reply without content. -/
def noContent : Reply where
  minor := byte '1'
  code := 204
  reason := lit "No Content"
  headers := []
  body := []
  minor_digit := by decide
  code_lt := by decide
  reason_line := by decide
  readable := by simp
  noLocation := by simp

/-- There is no line for its code. -/
theorem noContent_not_relayed : ¬Relayed noContent :=
  fun h => absurd h.known (by decide)

end ProxyHandler

end JustEnough
