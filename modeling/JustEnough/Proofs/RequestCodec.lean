/-
Requests as text.

`Request.parse` takes a lot for a request: lines that end in a bare line feed, a header
block that ends with the text, words that are empty, a body shorter than announced.
What it makes of any of these is `Framed`: no field holds a byte that would end it
early if it were printed, and no value starts with a space.  `rawRequest` prints every
request in one way only, and what it prints of a framed request is read back as that
request (`parse_rawRequest`).

Being framed is also what it takes: a printed request is read back with the same
method, URI, version and headers exactly when it is (`parsesBack_iff`).
-/
import JustEnough.Server.RequestHandler

namespace JustEnough

namespace Request

/-! ### Reading lines that were printed -/

/-- A printed line is read back, whatever else it holds besides a line feed. -/
theorem getCRLFLine_line {line : Str} (hline : byte '\n' ∉ line) (tail : Str) :
    getCRLFLine { rest := line ++ CRLF ++ tail } = (line, { rest := tail }) := by
  have hmem : byte '\n' ∉ line ++ [byte '\r'] := by
    have hne : byte '\n' ≠ byte '\r' := by decide
    simp [hline, hne]
  have hsplit : line ++ CRLF ++ tail = line ++ [byte '\r'] ++ byte '\n' :: tail := by
    simp [CRLF, lit]
  rw [hsplit, getCRLFLine, IStream.getline_cons hmem]
  simp

/-- `contentLength` after more headers: of several `Content-Length`, the last one counts. -/
def announcedFrom (contentLength : Int) (headers : Headers) : Int :=
  headers.foldl (fun n header =>
    if header.1 = lit "Content-Length" then toInt32 (strtol header.2) else n) contentLength

/-- The length of the body these headers announce. -/
def announced (headers : Headers) : Int := announcedFrom 0 headers

theorem parseHeaders_end {reqSS reqSS' : IStream} (hline : getCRLFLine reqSS = ([], reqSS'))
    (contentLength : Int) (headers : Headers) :
    parseHeaders reqSS contentLength headers = some (headers, contentLength, reqSS') := by
  rw [parseHeaders]
  simp [hline]

theorem parseHeaders_line {reqSS reqSS' : IStream} {line : Str}
    (hline : getCRLFLine reqSS = (line, reqSS')) (hne : line ≠ []) (contentLength : Int)
    (headers : Headers) :
    parseHeaders reqSS contentLength headers = (parseHeader line).bind fun header =>
      parseHeaders reqSS' (announcedFrom contentLength [header]) (headers ++ [header]) := by
  rw [parseHeaders]
  cases hheader : parseHeader line with
  | none => simp [hline, hne, hheader]
  | some header => simp [hline, hne, hheader, announcedFrom]

/-- **Header lines that were printed are read one by one**, and what follows them is left. -/
theorem parseHeaders_lines {lines : List Str} (hlines : ∀ line ∈ lines, line ≠ [] ∧ byte '\n' ∉ line)
    (tail : Str) (contentLength : Int) (headers : Headers) :
    parseHeaders { rest := lines.flatMap (· ++ CRLF) ++ CRLF ++ tail } contentLength headers
      = (lines.mapM parseHeader).map fun more =>
          (headers ++ more, announcedFrom contentLength more, { rest := tail }) := by
  induction lines generalizing contentLength headers with
  | nil =>
      have hempty := @getCRLFLine_line [] (by simp) tail
      rw [List.nil_append] at hempty
      rw [List.flatMap_nil, List.nil_append, parseHeaders_end hempty]
      simp [announcedFrom]
  | cons line lines ih =>
      obtain ⟨hne, hLF⟩ := hlines line (by simp)
      have hfirst := getCRLFLine_line hLF (lines.flatMap (· ++ CRLF) ++ CRLF ++ tail)
      have hsplit : (line :: lines).flatMap (· ++ CRLF) ++ CRLF ++ tail
          = line ++ CRLF ++ (lines.flatMap (· ++ CRLF) ++ CRLF ++ tail) := by simp
      rw [hsplit, parseHeaders_line hfirst hne]
      cases hheader : parseHeader line with
      | none => simp [hheader]
      | some header =>
          simp only [Option.bind_some, List.mapM_cons, hheader, Option.bind_eq_bind]
          rw [ih (fun l hl => hlines l (by simp [hl]))]
          cases lines.mapM parseHeader <;> simp [announcedFrom]

/-! ### What is read is framed -/

/-- A header that a printed line gives back. -/
structure FramedHeader (header : Str × Str) : Prop where
  colon : byte ':' ∉ header.1
  name : byte '\n' ∉ header.1
  value : byte '\n' ∉ header.2
  space : header.2.head? ≠ some (byte ' ')

/-- A word of the request line. -/
def FramedWord (word : Str) : Prop := byte ' ' ∉ word ∧ byte '\n' ∉ word

/-- No field holds a byte that would end it early in print. -/
structure Framed (req : Request) : Prop where
  method : FramedWord req.method
  uri : FramedWord req.uri
  version : FramedWord req.version
  http : req.version.take 5 = lit "HTTP/"
  headers : ∀ header ∈ req.headers, FramedHeader header

theorem parseHeader_framed {line : Str} {header : Str × Str} (hLF : byte '\n' ∉ line)
    (h : parseHeader line = some header) : FramedHeader header := by
  unfold parseHeader at h
  obtain ⟨n, hfind, rfl⟩ := Option.map_eq_some_iff.mp h
  refine ⟨?_, ?_, ?_, ?_⟩
  · exact findFrom_byte_not_mem hfind
  · exact fun hmem => hLF (List.mem_of_mem_take hmem)
  · intro hmem
    exact hLF (List.mem_of_mem_drop ((List.dropWhile_sublist _).subset hmem))
  · intro hhead
    have hspace := List.head?_dropWhile_not (fun c => decide (c = byte ' ')) (line.drop (n + 1))
    rw [hhead] at hspace
    simp at hspace

/-- The headers `parseHeaders` adds are framed, and the length is the one they announce. -/
theorem parseHeaders_spec {reqSS reqSS' : IStream} {contentLength contentLength' : Int}
    {headers headers' : Headers}
    (h : parseHeaders reqSS contentLength headers = some (headers', contentLength', reqSS')) :
    ∃ more, headers' = headers ++ more ∧ contentLength' = announcedFrom contentLength more ∧
      ∀ header ∈ more, FramedHeader header := by
  induction hn : reqSS.rest.length using Nat.strong_induction_on
    generalizing reqSS contentLength headers with
  | _ n ih =>
      cases hline : getCRLFLine reqSS with
      | mk line next =>
          by_cases hne : line = []
          · subst hne
            rw [parseHeaders_end hline] at h
            cases h
            exact ⟨[], by simp, rfl, by simp⟩
          · rw [parseHeaders_line hline hne] at h
            obtain ⟨header, hheader, hrest⟩ := Option.bind_eq_some_iff.mp h
            have hlt : next.rest.length < n := hn ▸ getCRLFLine_lt hline hne
            obtain ⟨more, rfl, rfl, hframed⟩ := ih _ hlt hrest rfl
            refine ⟨header :: more, by simp, by simp [announcedFrom], ?_⟩
            intro header' hmem
            rcases List.mem_cons.mp hmem with rfl | hmem
            · exact parseHeader_framed (getCRLFLine_not_mem hline) hheader
            · exact hframed header' hmem

theorem readBody_length (reqSS : IStream) (contentLength : Int) :
    (readBody reqSS contentLength).length = contentLength.toNat := by
  unfold readBody IStream.read
  by_cases hpos : contentLength > 0
  · rw [if_pos hpos]
    by_cases hgood : reqSS.good = false
    · simp [hgood]
    · simp [hgood]
  · rw [if_neg hpos]
    simp
    omega

/-- Where the stream has ended, the body is made of zero bytes. -/
theorem readBody_nil (contentLength : Int) :
    readBody { rest := [] } contentLength = List.replicate contentLength.toNat 0 := by
  unfold readBody IStream.read
  by_cases hpos : contentLength > 0
  · simp [if_pos hpos]
  · have hzero : contentLength.toNat = 0 := by omega
    rw [if_neg hpos, hzero]
    rfl

/-- **Whatever `parse` accepts, it makes a framed request of**, with a body as long as announced. -/
theorem parse_framed {raw : Str} {req : Request} (h : parse raw = some req) :
    Framed req ∧ req.body.length = (announced req.headers).toNat := by
  unfold parse at h
  split at h
  rename_i head reqSS hhead
  split at h
  · rename_i method uri version hsplit
    obtain ⟨hmethod, huri, hversion, hform⟩ := split_eq_triple.mp hsplit
    have hLF := getCRLFLine_not_mem hhead
    have hwords : byte '\n' ∉ method ∧ byte '\n' ∉ uri ∧ byte '\n' ∉ version := by
      rcases hform with ⟨rfl, -⟩ | rfl <;> simp_all
    split at h
    · cases h
    · rename_i hhttp
      split at h
      · cases h
      · rename_i headers contentLength reqSS' hheaders
        cases h
        obtain ⟨more, hmore, hlength, hframed⟩ := parseHeaders_spec hheaders
        rw [List.nil_append] at hmore
        subst hmore
        exact ⟨⟨⟨hmethod, hwords.1⟩, ⟨huri, hwords.2.1⟩, ⟨hversion, hwords.2.2⟩,
          not_not.mp hhttp, hframed⟩, by rw [readBody_length, hlength]; rfl⟩
  · cases h

/-! ### What is framed is read back -/

theorem parseHeader_headerLine {header : Str × Str} (h : FramedHeader header) :
    parseHeader (header.1 ++ lit ": " ++ header.2) = some header := by
  have hfind : findFrom (lit ":") (header.1 ++ (lit ":" ++ (lit " " ++ header.2)))
      = some header.1.length := findFrom_append h.colon _
  have hline : header.1 ++ lit ": " ++ header.2 = header.1 ++ (lit ":" ++ (lit " " ++ header.2)) := by
    simp [lit]
  have hvalue : (lit " " ++ header.2).dropWhile (· = byte ' ') = header.2 := by
    have hrest : header.2.dropWhile (· = byte ' ') = header.2 := by
      cases hcase : header.2 with
      | nil => rfl
      | cons c rest =>
          have hc : c ≠ byte ' ' := by simpa [hcase] using h.space
          simp [hc]
    simpa [lit] using hrest
  have hdrop : (header.1 ++ (lit ":" ++ (lit " " ++ header.2))).drop (header.1.length + 1)
      = lit " " ++ header.2 := by
    simp [lit]
  rw [hline, parseHeader, hfind, Option.map_some, hdrop, hvalue, List.take_left]

/-- The lines of a header block. -/
theorem headerLines_eq (headers : Headers) :
    headerLines headers
      = (headers.map fun header => header.1 ++ lit ": " ++ header.2).flatMap (· ++ CRLF) := by
  simp [headerLines, List.flatMap_map]

theorem parseHeaders_headerLines {headers : Headers} (h : ∀ header ∈ headers, FramedHeader header)
    (tail : Str) :
    parseHeaders { rest := headerLines headers ++ CRLF ++ tail } 0 []
      = some (headers, announced headers, { rest := tail }) := by
  have hlines : ∀ line ∈ headers.map fun header => header.1 ++ lit ": " ++ header.2,
      line ≠ [] ∧ byte '\n' ∉ line := by
    intro line hmem
    obtain ⟨header, hheader, rfl⟩ := List.mem_map.mp hmem
    have hsep : byte '\n' ∉ lit ": " := by decide
    exact ⟨by simp [lit], by simp [(h header hheader).name, (h header hheader).value, hsep]⟩
  have hread : (headers.map fun header => header.1 ++ lit ": " ++ header.2).mapM parseHeader
      = some headers := by
    clear hlines
    induction headers with
    | nil => rfl
    | cons header headers ih =>
        have hrest := ih fun g hg => h g (by simp [hg])
        rw [List.map_cons, List.mapM_cons, parseHeader_headerLine (h header (by simp)), hrest]
        rfl
  rw [headerLines_eq, parseHeaders_lines hlines, hread]
  simp [announced]

/-- The request line is cut at its two spaces. -/
theorem split_requestLine {req : Request} (h : Framed req) :
    split (req.method ++ lit " " ++ req.uri ++ lit " " ++ req.version) (byte ' ')
      = [req.method, req.uri, req.version] := by
  have hne : req.version ≠ [] := by
    intro hnil
    have hhttp := h.http
    rw [hnil] at hhttp
    cases hhttp
  refine split_eq_triple.mpr ⟨h.method.1, h.uri.1, h.version.1, Or.inl ⟨?_, hne⟩⟩
  simp [lit]

/-- **A framed request is read back as it is**, but for a body of another length. -/
theorem parse_rawRequest_framed {req : Request} (h : Framed req) :
    parse req.rawRequest
      = some { req with body := readBody { rest := req.body } (announced req.headers) } := by
  have hline : byte '\n' ∉ req.method ++ lit " " ++ req.uri ++ lit " " ++ req.version := by
    have hspace : byte '\n' ∉ lit " " := by decide
    simp [h.method.2, h.uri.2, h.version.2, hspace]
  have hhead := getCRLFLine_line hline (headerLines req.headers ++ CRLF ++ req.body)
  have htext : req.rawRequest = req.method ++ lit " " ++ req.uri ++ lit " " ++ req.version ++ CRLF ++
      (headerLines req.headers ++ CRLF ++ req.body) := by
    simp [rawRequest]
  rw [htext, parse, hhead]
  simp only [split_requestLine h, h.http, parseHeaders_headerLines h.headers, ne_eq,
    not_true_eq_false, if_false]

theorem readBody_all {body : Str} {contentLength : Int} (h : body.length = contentLength.toNat) :
    readBody { rest := body } contentLength = body := by
  unfold readBody IStream.read
  by_cases hpos : contentLength > 0
  · simp [if_pos hpos, ← h]
  · have hzero : body.length = 0 := by omega
    rw [if_neg hpos, List.length_eq_zero_iff.mp hzero]

/-- **Round trip**: an accepted request is printed as a text that is read as the same request. -/
theorem parse_rawRequest {raw : Str} {req : Request} (h : parse raw = some req) :
    parse req.rawRequest = some req := by
  obtain ⟨hframed, hbody⟩ := parse_framed h
  rw [parse_rawRequest_framed hframed, readBody_all hbody]

/-- A request with bare line feeds, a repeated `Content-Length` and a body cut short. -/
theorem parse_rawRequest_lenient :
    parse (rawRequest { method := [], uri := lit "/", version := lit "HTTP/1.0\r", headers :=
        [(lit "Content-Length", lit "9"), (lit "Content-Length", lit "2")], body := lit "a" ++ [0] })
      = some { method := [], uri := lit "/", version := lit "HTTP/1.0\r", headers :=
        [(lit "Content-Length", lit "9"), (lit "Content-Length", lit "2")], body := lit "a" ++ [0] } :=
  @parse_rawRequest (lit " / HTTP/1.0\r\r\nContent-Length:9\nContent-Length:  2\n\na") _
    (by decide +kernel)

/-- What is printed for the request is read with the same method, URI, version and headers. -/
def ParsesBack (req : Request) : Prop :=
  ∃ req', parse req.rawRequest = some req' ∧ req'.method = req.method ∧ req'.uri = req.uri ∧
    req'.version = req.version ∧ req'.headers = req.headers

/-- **A request parses back exactly when it is framed.** -/
theorem parsesBack_iff {req : Request} : ParsesBack req ↔ Framed req := by
  constructor
  · rintro ⟨req', hparse, hmethod, huri, hversion, hheaders⟩
    obtain ⟨hframed, -⟩ := parse_framed hparse
    exact ⟨hmethod ▸ hframed.method, huri ▸ hframed.uri, hversion ▸ hframed.version,
      hversion ▸ hframed.http, hheaders ▸ hframed.headers⟩
  · intro h
    exact ⟨_, parse_rawRequest_framed h, rfl, rfl, rfl, rfl⟩

end Request

end JustEnough
