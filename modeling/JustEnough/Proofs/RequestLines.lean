/-
The grammar of a request.

`Request.parse` reads a text line by line, and what it does depends on the lines alone:
the first one is cut into words, those up to the first empty one into headers, and what
comes after that line is where the body is read from.  `parse_eq_some_iff` says so, with
the lines taken from the text at once (`textLines`) and not from a stream.

Two things follow.  The words of the first line may be empty, and a space may follow
them, which a request line does not allow (`readsGrammar_iff`).  And the body is as long as
announced, whatever there is to read, so it is made of what was received only if that is
long enough (`body_prefix_iff`).
-/
import JustEnough.Proofs.RequestCodec

namespace JustEnough

namespace Request

/-! ### Lines of a text -/

/-- A line without the CR at its end. -/
def dropCR (line : Str) : Str :=
  if line.getLast? = some (byte '\r') then line.dropLast else line

/-- The lines of a text; what stands after the last line feed is one, unless it is empty. -/
def rawLines (s : Str) : List Str := dropFinalEmpty (s.splitOn (byte '\n'))

/-- The lines without the CR before a line feed. -/
def textLines (s : Str) : List Str := (rawLines s).map dropCR

/-- The first line of a text, which is empty where there is none. -/
def firstLine (s : Str) : Str := (textLines s).headD []

/-- The lines up to the first empty one. -/
def block (s : Str) : List Str := (textLines s).takeWhile (· ≠ [])

/-- The bytes after the first empty line. -/
def afterBlock (s : Str) : Str :=
  [byte '\n'].intercalate (((s.splitOn (byte '\n')).dropWhile (dropCR · ≠ [])).drop 1)

/-- A text without its first line. -/
def afterFirstLine (s : Str) : Str := [byte '\n'].intercalate ((s.splitOn (byte '\n')).drop 1)

/-- A text is one line after another, of which the last may lack its line feed. -/
@[elab_as_elim]
theorem byLines {P : Str → Prop} (nil : P []) (last : ∀ line, line ≠ [] → byte '\n' ∉ line → P line)
    (cons : ∀ line rest, byte '\n' ∉ line → P rest → P (line ++ byte '\n' :: rest)) : ∀ s, P s := by
  intro s
  induction hn : s.length using Nat.strong_induction_on generalizing s with
  | _ n ih =>
      by_cases hmem : byte '\n' ∈ s
      · obtain ⟨line, rest, rfl, hline⟩ := List.eq_append_cons_of_mem hmem
        have hlt : rest.length < n := by
          rw [← hn, List.length_append, List.length_cons]
          omega
        exact cons line rest hline (ih _ hlt rest rfl)
      · by_cases hnil : s = []
        · rw [hnil]
          exact nil
        · exact last s hnil hmem

section Lines

variable {line rest : Str}

theorem splitOn_cons (hline : byte '\n' ∉ line) (rest : Str) :
    (line ++ byte '\n' :: rest).splitOn (byte '\n') = line :: rest.splitOn (byte '\n') :=
  List.splitOn_append_cons_self_of_not_mem hline rest

theorem rawLines_cons (hline : byte '\n' ∉ line) (rest : Str) :
    rawLines (line ++ byte '\n' :: rest) = line :: rawLines rest := by
  have hne := List.splitOn_ne_nil (byte '\n') rest
  rw [rawLines, splitOn_cons hline, dropFinalEmpty, List.getLast?_cons_of_ne_nil hne, rawLines,
    dropFinalEmpty]
  split
  · rw [List.dropLast_cons_of_ne_nil hne]
  · rfl

theorem rawLines_last (hne : line ≠ []) (hline : byte '\n' ∉ line) : rawLines line = [line] := by
  simp [rawLines, List.splitOn_eq_singleton hline, dropFinalEmpty, hne]

@[simp] theorem rawLines_nil : rawLines [] = [] := by simp [rawLines, dropFinalEmpty]

theorem textLines_cons (hline : byte '\n' ∉ line) (rest : Str) :
    textLines (line ++ byte '\n' :: rest) = dropCR line :: textLines rest := by
  rw [textLines, rawLines_cons hline, List.map_cons, textLines]

theorem textLines_last (hne : line ≠ []) (hline : byte '\n' ∉ line) :
    textLines line = [dropCR line] := by
  rw [textLines, rawLines_last hne hline, List.map_singleton]

@[simp] theorem textLines_nil : textLines [] = [] := by simp [textLines]

theorem block_cons (hline : byte '\n' ∉ line) (rest : Str) :
    block (line ++ byte '\n' :: rest) = if dropCR line = [] then [] else dropCR line :: block rest := by
  rw [block, textLines_cons hline, List.takeWhile_cons, block]
  by_cases hempty : dropCR line = []
  · simp [hempty]
  · simp [hempty]

theorem afterBlock_cons (hline : byte '\n' ∉ line) (rest : Str) :
    afterBlock (line ++ byte '\n' :: rest) = if dropCR line = [] then rest else afterBlock rest := by
  rw [afterBlock, splitOn_cons hline, List.dropWhile_cons, afterBlock]
  by_cases hempty : dropCR line = []
  · simp [hempty, List.intercalate_splitOn]
  · simp [hempty]

theorem firstLine_cons (hline : byte '\n' ∉ line) (rest : Str) :
    firstLine (line ++ byte '\n' :: rest) = dropCR line := by
  rw [firstLine, textLines_cons hline]
  rfl

theorem afterFirstLine_cons (hline : byte '\n' ∉ line) (rest : Str) :
    afterFirstLine (line ++ byte '\n' :: rest) = rest := by
  rw [afterFirstLine, splitOn_cons hline]
  exact List.intercalate_splitOn (byte '\n')

theorem afterFirstLine_last (hline : byte '\n' ∉ line) : afterFirstLine line = [] := by
  rw [afterFirstLine, List.splitOn_eq_singleton hline]
  rfl

/-- A text of one line has nothing after an empty one. -/
theorem afterBlock_last (hline : byte '\n' ∉ line) : afterBlock line = [] := by
  rw [afterBlock, List.splitOn_eq_singleton hline, List.dropWhile_cons]
  split
  · rfl
  · rfl

theorem getCRLFLine_cons (hline : byte '\n' ∉ line) (rest : Str) :
    getCRLFLine { rest := line ++ byte '\n' :: rest } = (dropCR line, { rest }) := by
  rw [getCRLFLine, IStream.getline_cons hline]
  rfl

theorem getCRLFLine_last (hne : line ≠ []) (hline : byte '\n' ∉ line) :
    getCRLFLine { rest := line } = (dropCR line, ⟨[], false⟩) := by
  rw [getCRLFLine, IStream.getline_last hne hline]
  rfl

theorem getCRLFLine_nil : getCRLFLine { rest := [] } = ([], ⟨[], false⟩) := rfl

theorem getCRLFLine_not_good (rest : Str) : getCRLFLine ⟨rest, false⟩ = ([], ⟨rest, false⟩) := rfl

end Lines

/-! ### Header lines -/

/-- What stands before the first `:`, and what stands after it without spaces in front. -/
def cutHeader (line : Str) : Str × Str :=
  (line.takeWhile (· ≠ byte ':'),
    ((line.dropWhile (· ≠ byte ':')).drop 1).dropWhile (· = byte ' '))

theorem findFrom_colon (line : Str) :
    findFrom (lit ":") line
      = if byte ':' ∈ line then some (line.takeWhile (· ≠ byte ':')).length else none := by
  by_cases hmem : byte ':' ∈ line
  · obtain ⟨name, value, rfl, hname⟩ := List.eq_append_cons_of_mem hmem
    have hall : ∀ c ∈ name, decide (c ≠ byte ':') = true := by
      intro c hc
      simpa using fun h : c = byte ':' => hname (h ▸ hc)
    have hfind : findFrom (lit ":") (name ++ (lit ":" ++ value)) = some name.length :=
      findFrom_append hname value
    rw [if_pos hmem, List.takeWhile_append_of_pos hall, List.takeWhile_cons, if_neg (by simp),
      List.append_nil]
    exact hfind
  · rw [if_neg hmem]
    cases hfind : findFrom (lit ":") line with
    | none => rfl
    | some n =>
        obtain ⟨rest, hrest, -⟩ := findFrom_spec hfind
        have hin : byte ':' ∈ line.drop n := by
          rw [hrest]
          simp [lit]
        exact absurd (List.mem_of_mem_drop hin) hmem

theorem parseHeader_eq (line : Str) :
    parseHeader line = if byte ':' ∈ line then some (cutHeader line) else none := by
  have hcut : line = line.takeWhile (· ≠ byte ':') ++ line.dropWhile (· ≠ byte ':') :=
    List.takeWhile_append_dropWhile.symm
  rw [parseHeader, findFrom_colon]
  by_cases hmem : byte ':' ∈ line
  · rw [if_pos hmem, if_pos hmem, Option.map_some, cutHeader]
    generalize line.takeWhile (· ≠ byte ':') = front at hcut ⊢
    generalize line.dropWhile (· ≠ byte ':') = rest at hcut ⊢
    rw [hcut, List.take_left, ← List.drop_drop, List.drop_left]
  · rw [if_neg hmem, if_neg hmem, Option.map_none]

theorem mapM_parseHeader (lines : List Str) :
    lines.mapM parseHeader
      = if ∀ line ∈ lines, byte ':' ∈ line then some (lines.map cutHeader) else none := by
  induction lines with
  | nil => simp
  | cons line lines ih =>
      rw [List.mapM_cons, parseHeader_eq, ih]
      by_cases hline : byte ':' ∈ line
      · by_cases hlines : ∀ line ∈ lines, byte ':' ∈ line
        · have hall : ∀ l ∈ line :: lines, byte ':' ∈ l := List.forall_mem_cons.mpr ⟨hline, hlines⟩
          rw [if_pos hline, if_pos hlines, if_pos hall]
          rfl
        · have hsome : ¬∀ l ∈ line :: lines, byte ':' ∈ l :=
            fun hall => hlines (List.forall_mem_cons.mp hall).2
          rw [if_pos hline, if_neg hlines, if_neg hsome]
          rfl
      · have hsome : ¬∀ l ∈ line :: lines, byte ':' ∈ l :=
          fun hall => hline (List.forall_mem_cons.mp hall).1
        rw [if_neg hline, if_neg hsome]
        rfl

/-- **The headers are those of the lines up to the first empty one**, and the rest is what follows. -/
theorem parseHeaders_text (s : Str) : ∀ (contentLength : Int) (headers : Headers),
    ∃ left : IStream, (∀ k, (left.read k).1 = (afterBlock s).take k) ∧
      parseHeaders { rest := s } contentLength headers
        = ((block s).mapM parseHeader).map fun more =>
            (headers ++ more, announcedFrom contentLength more, left) := by
  induction s using byLines with
  | nil =>
      intro contentLength headers
      refine ⟨⟨[], false⟩, fun k => ?_, ?_⟩
      · rw [afterBlock_last (by simp), List.take_nil]
        rfl
      · rw [parseHeaders_end getCRLFLine_nil]
        simp [block, announcedFrom]
  | last line hne hline =>
      intro contentLength headers
      refine ⟨⟨[], false⟩, fun k => ?_, ?_⟩
      · rw [afterBlock_last hline, List.take_nil]
        rfl
      · rw [block, textLines_last hne hline]
        by_cases hempty : dropCR line = []
        · rw [parseHeaders_end (hempty ▸ getCRLFLine_last hne hline)]
          simp [hempty, announcedFrom]
        · rw [parseHeaders_line (getCRLFLine_last hne hline) hempty]
          cases hheader : parseHeader (dropCR line) with
          | none => simp [hempty, hheader]
          | some header => simp [hempty, hheader, parseHeaders_end (getCRLFLine_not_good [])]
  | cons line rest hline ih =>
      intro contentLength headers
      rw [block_cons hline, afterBlock_cons hline]
      by_cases hempty : dropCR line = []
      · rw [if_pos hempty, if_pos hempty, parseHeaders_end (hempty ▸ getCRLFLine_cons hline rest)]
        exact ⟨{ rest }, fun k => rfl, by simp [announcedFrom]⟩
      · rw [if_neg hempty, if_neg hempty, parseHeaders_line (getCRLFLine_cons hline rest) hempty]
        cases hheader : parseHeader (dropCR line) with
        | none =>
            obtain ⟨left, hleft, -⟩ := ih contentLength headers
            exact ⟨left, hleft, by simp [hheader]⟩
        | some header =>
            obtain ⟨left, hleft, hrest⟩ :=
              ih (announcedFrom contentLength [header]) (headers ++ [header])
            refine ⟨left, hleft, ?_⟩
            rw [Option.bind_some, hrest, List.mapM_cons, hheader]
            cases (block rest).mapM parseHeader with
            | none => rfl
            | some more => simp [announcedFrom]

/-- **The stream after the first line** gives the headers and the bytes of the lines behind it. -/
theorem getCRLFLine_text (s : Str) :
    ∃ reqSS, getCRLFLine { rest := s } = (firstLine s, reqSS) ∧
      ∃ left : IStream, (∀ k, (left.read k).1 = (afterBlock (afterFirstLine s)).take k) ∧
        parseHeaders reqSS 0 [] = ((block (afterFirstLine s)).mapM parseHeader).map fun headers =>
          (headers, announced headers, left) := by
  have hnone : ∀ line : Str, byte '\n' ∉ line →
      ∃ left : IStream, (∀ k, (left.read k).1 = (afterBlock (afterFirstLine line)).take k) ∧
        parseHeaders ⟨[], false⟩ 0 [] = ((block (afterFirstLine line)).mapM parseHeader).map
          fun headers => (headers, announced headers, left) := by
    intro line hline
    refine ⟨⟨[], false⟩, fun k => ?_, ?_⟩
    · rw [afterFirstLine_last hline, afterBlock_last (by simp), List.take_nil]
      rfl
    · rw [afterFirstLine_last hline, parseHeaders_end (getCRLFLine_not_good [])]
      simp [block, announced, announcedFrom]
  induction s using byLines with
  | nil => exact ⟨_, by simp [getCRLFLine_nil, firstLine], hnone [] (by simp)⟩
  | last line hne hline =>
      refine ⟨_, ?_, hnone line hline⟩
      rw [getCRLFLine_last hne hline, firstLine, textLines_last hne hline]
      rfl
  | cons line rest hline _ =>
      refine ⟨{ rest }, by rw [getCRLFLine_cons hline, firstLine_cons hline], ?_⟩
      rw [afterFirstLine_cons hline]
      obtain ⟨left, hleft, hheaders⟩ := parseHeaders_text rest 0 []
      exact ⟨left, hleft, by simpa [announced] using hheaders⟩

/-! ### The whole request -/

/-- The first `n` bytes, and zero bytes for those that are missing. -/
def paddedTo (n : Nat) (s : Str) : Str := s.take n ++ List.replicate (n - s.length) 0

theorem readBody_eq {left : IStream} {s : Str} (h : ∀ k, (left.read k).1 = s.take k)
    (contentLength : Int) : readBody left contentLength = paddedTo contentLength.toNat s := by
  unfold readBody paddedTo
  by_cases hpos : contentLength > 0
  · have hmissing : contentLength.toNat - (s.take contentLength.toNat).length
        = contentLength.toNat - s.length := by
      rw [List.length_take]
      omega
    rw [if_pos hpos, h, ← hmissing]
  · have hzero : contentLength.toNat = 0 := by omega
    rw [if_neg hpos, hzero, Nat.zero_sub]
    rfl

/-- The header lines of a request. -/
def headLines (s : Str) : List Str := block (afterFirstLine s)

/-- The bytes after the empty line that ends the headers. -/
def afterHeaders (s : Str) : Str := afterBlock (afterFirstLine s)

/-- The length of the body that the header lines announce. -/
def announcedLength (s : Str) : Nat := (announced ((headLines s).map cutHeader)).toNat

/-- What `parse` makes of a first line that it cuts into these words. -/
def requestOf (method uri version s : Str) : Request where
  method := method
  uri := uri
  version := version
  headers := (headLines s).map cutHeader
  body := paddedTo (announcedLength s) (afterHeaders s)

/-- **What `parse` accepts, and as what**, by the lines of the text. -/
theorem parse_eq_some_iff {s : Str} {req : Request} :
    parse s = some req ↔ ∃ method uri version, split (firstLine s) (byte ' ') = [method, uri, version] ∧
      version.take 5 = lit "HTTP/" ∧ (∀ line ∈ headLines s, byte ':' ∈ line) ∧
      req = requestOf method uri version s := by
  obtain ⟨reqSS, hfirst, left, hleft, hheaders⟩ := getCRLFLine_text s
  rw [mapM_parseHeader] at hheaders
  unfold parse
  rw [hfirst]
  constructor
  · intro h
    simp only at h
    split at h
    · rename_i method uri version hsplit
      by_cases hhttp : version.take 5 = lit "HTTP/"
      · rw [if_neg (by simpa using hhttp), hheaders] at h
        by_cases hcolons : ∀ line ∈ headLines s, byte ':' ∈ line
        · refine ⟨method, uri, version, hsplit, hhttp, hcolons, ?_⟩
          rw [headLines] at hcolons
          rw [if_pos hcolons, Option.map_some] at h
          rw [← Option.some.inj h, readBody_eq hleft]
          rfl
        · rw [headLines] at hcolons
          rw [if_neg hcolons] at h
          cases h
      · rw [if_pos hhttp] at h
        cases h
    · cases h
  · rintro ⟨method, uri, version, hsplit, hhttp, hcolons, rfl⟩
    rw [headLines] at hcolons
    simp only [hsplit]
    rw [if_neg (by simpa using hhttp), hheaders, if_pos hcolons, Option.map_some]
    simp only
    rw [readBody_eq hleft]
    rfl

/-! ### The request line -/

/-- Three words with single spaces between them, of which the last is a version. -/
structure RequestLine (line method uri version : Str) : Prop where
  text : line = method ++ byte ' ' :: uri ++ byte ' ' :: version
  methodWord : method ≠ [] ∧ byte ' ' ∉ method
  uriWord : uri ≠ [] ∧ byte ' ' ∉ uri
  versionWord : version ≠ [] ∧ byte ' ' ∉ version
  http : lit "HTTP/" <+: version

/-- Three words of which one of the first two is empty, or that have a space behind them. -/
structure LooseLine (line method uri version : Str) : Prop where
  spacing : (method = [] ∨ uri = []) ∧ line = method ++ byte ' ' :: uri ++ byte ' ' :: version ∨
    line = method ++ byte ' ' :: uri ++ byte ' ' :: version ++ [byte ' ']
  methodWord : byte ' ' ∉ method
  uriWord : byte ' ' ∉ uri
  versionWord : byte ' ' ∉ version
  http : lit "HTTP/" <+: version

section RequestLine

variable {line method uri version : Str}

theorem take_five_iff : version.take 5 = lit "HTTP/" ↔ lit "HTTP/" <+: version := by
  rw [List.prefix_iff_eq_take, eq_comm]
  rfl

/-- A version is not empty. -/
theorem version_ne_nil (h : lit "HTTP/" <+: version) : version ≠ [] := by
  rintro rfl
  exact absurd (List.prefix_nil.mp h) (by decide)

theorem RequestLine.cut (h : RequestLine line method uri version) :
    split line (byte ' ') = [method, uri, version] :=
  split_eq_triple.mpr ⟨h.methodWord.2, h.uriWord.2, h.versionWord.2, Or.inl ⟨h.text, h.versionWord.1⟩⟩

theorem LooseLine.cut (h : LooseLine line method uri version) :
    split line (byte ' ') = [method, uri, version] := by
  refine split_eq_triple.mpr ⟨h.methodWord, h.uriWord, h.versionWord, ?_⟩
  rcases h.spacing with ⟨-, htext⟩ | htext
  · exact Or.inl ⟨htext, version_ne_nil h.http⟩
  · exact Or.inr htext

/-- **The lines that are cut into words** are the request lines and the loose ones. -/
theorem requestLine_or_loose (hsplit : split line (byte ' ') = [method, uri, version])
    (hhttp : lit "HTTP/" <+: version) :
    RequestLine line method uri version ∨ LooseLine line method uri version := by
  obtain ⟨hmethod, huri, hversion, ⟨htext, hne⟩ | htext⟩ := split_eq_triple.mp hsplit
  · by_cases hempty : method = [] ∨ uri = []
    · exact Or.inr ⟨Or.inl ⟨hempty, htext⟩, hmethod, huri, hversion, hhttp⟩
    · obtain ⟨hm, hu⟩ := not_or.mp hempty
      exact Or.inl ⟨htext, ⟨hm, hmethod⟩, ⟨hu, huri⟩, ⟨hne, hversion⟩, hhttp⟩
  · exact Or.inr ⟨Or.inr htext, hmethod, huri, hversion, hhttp⟩

/-- No line is both. -/
theorem LooseLine.not_requestLine {method' uri' version' : Str}
    (h : LooseLine line method uri version) : ¬RequestLine line method' uri' version' := by
  intro hline
  have hsame := hline.cut.symm.trans h.cut
  obtain ⟨rfl, rfl, rfl⟩ : method' = method ∧ uri' = uri ∧ version' = version := by
    simpa using hsame
  rcases h.spacing with ⟨hempty, -⟩ | htext
  · rcases hempty with hempty | hempty
    · exact hline.methodWord.1 hempty
    · exact hline.uriWord.1 hempty
  · have hnil : [byte ' '] = [] := List.self_eq_append_right.mp (hline.text.symm.trans htext)
    cases hnil

end RequestLine

/-! ### The grammar -/

/-- A request line, and then lines with a colon up to the first empty one. -/
structure IsRequest (s method uri version : Str) : Prop where
  line : RequestLine (firstLine s) method uri version
  headers : ∀ line ∈ headLines s, byte ':' ∈ line

/-- The text is accepted if and only if it is a request, and then with the parts it has. -/
structure ReadsGrammar (s : Str) : Prop where
  accepts : (∃ req, parse s = some req) ↔ ∃ method uri version, IsRequest s method uri version
  parts : ∀ method uri version, IsRequest s method uri version → ∃ body,
    parse s = some { method, uri, version, headers := (headLines s).map cutHeader, body }

/-- The text would be a request if its first line were spaced as it should be. -/
def LooselySpaced (s : Str) : Prop :=
  ∃ method uri version, LooseLine (firstLine s) method uri version ∧
    ∀ line ∈ headLines s, byte ':' ∈ line

theorem IsRequest.accepted {s method uri version : Str} (h : IsRequest s method uri version) :
    parse s = some (requestOf method uri version s) :=
  parse_eq_some_iff.mpr
    ⟨method, uri, version, h.line.cut, take_five_iff.mpr h.line.http, h.headers, rfl⟩

/-- **The grammar is read exactly where the first line is not spaced loosely.** -/
theorem readsGrammar_iff (s : Str) : ReadsGrammar s ↔ ¬LooselySpaced s := by
  constructor
  · rintro hreads ⟨method, uri, version, hloose, hheaders⟩
    obtain ⟨method', uri', version', hrequest⟩ := hreads.accepts.mp
      ⟨_, parse_eq_some_iff.mpr
        ⟨method, uri, version, hloose.cut, take_five_iff.mpr hloose.http, hheaders, rfl⟩⟩
    exact hloose.not_requestLine hrequest.line
  · intro hspaced
    refine ⟨⟨?_, ?_⟩, fun method uri version h => ⟨_, h.accepted⟩⟩
    · rintro ⟨req, hparse⟩
      obtain ⟨method, uri, version, hsplit, hhttp, hheaders, -⟩ := parse_eq_some_iff.mp hparse
      rcases requestLine_or_loose hsplit (take_five_iff.mp hhttp) with hline | hloose
      · exact ⟨method, uri, version, hline, hheaders⟩
      · exact absurd ⟨method, uri, version, hloose, hheaders⟩ hspaced
    · rintro ⟨method, uri, version, h⟩
      exact ⟨_, h.accepted⟩

/-- Two spaces in a row are taken for an empty URI. -/
theorem empty_uri_accepted :
    (∃ req, parse (lit "GET  HTTP/1.1\r\n\r\n") = some req ∧ req.uri = []) ∧
      ¬ReadsGrammar (lit "GET  HTTP/1.1\r\n\r\n") := by
  have hparse : parse (lit "GET  HTTP/1.1\r\n\r\n") = some {
      method := lit "GET"
      uri := []
      version := lit "HTTP/1.1"
      headers := []
      body := [] } := by
    decide +kernel
  have hsplit : split (firstLine (lit "GET  HTTP/1.1\r\n\r\n")) (byte ' ')
      = [lit "GET", [], lit "HTTP/1.1"] := by
    decide +kernel
  refine ⟨⟨_, hparse, rfl⟩, fun hreads => ?_⟩
  obtain ⟨method, uri, version, hrequest⟩ := hreads.accepts.mp ⟨_, hparse⟩
  have hwords := hrequest.line.cut.symm.trans hsplit
  simp only [List.cons.injEq] at hwords
  exact hrequest.line.uriWord.1 hwords.2.1

/-! ### The body -/

theorem paddedTo_prefix_iff {n : Nat} {s : Str} : paddedTo n s <+: s ↔ n ≤ s.length := by
  constructor
  · intro h
    have hlength := h.length_le
    rw [paddedTo, List.length_append, List.length_take, List.length_replicate] at hlength
    omega
  · intro h
    rw [paddedTo, Nat.sub_eq_zero_of_le h, List.replicate_zero, List.append_nil]
    exact List.take_prefix n s

/-- **The body is made of received bytes exactly when enough of them follow the headers.** -/
theorem body_prefix_iff {s : Str} {req : Request} (h : parse s = some req) :
    req.body <+: afterHeaders s ↔ announcedLength s ≤ (afterHeaders s).length := by
  obtain ⟨method, uri, version, -, -, -, rfl⟩ := parse_eq_some_iff.mp h
  exact paddedTo_prefix_iff

/-- More bytes than announced, after a line feed alone; of two lengths the second counts. -/
theorem body_prefix_example :
    lit "ab" <+: afterHeaders (lit "PUT / HTTP/1.1\nContent-Length: 9\nContent-Length: 2\n\r\nabc") ↔
      announcedLength (lit "PUT / HTTP/1.1\nContent-Length: 9\nContent-Length: 2\n\r\nabc")
        ≤ (afterHeaders
          (lit "PUT / HTTP/1.1\nContent-Length: 9\nContent-Length: 2\n\r\nabc")).length :=
  @body_prefix_iff (lit "PUT / HTTP/1.1\nContent-Length: 9\nContent-Length: 2\n\r\nabc") {
    method := lit "PUT"
    uri := lit "/"
    version := lit "HTTP/1.1"
    headers := [(lit "Content-Length", lit "9"), (lit "Content-Length", lit "2")]
    body := lit "ab" } (by decide +kernel)

/-- Ten bytes are announced and three follow. -/
theorem body_invented :
    ∃ req, parse (lit "POST / HTTP/1.1\r\nContent-Length: 10\r\n\r\nabc") = some req ∧
      req.body = lit "abc" ++ List.replicate 7 0 ∧
      afterHeaders (lit "POST / HTTP/1.1\r\nContent-Length: 10\r\n\r\nabc") = lit "abc" ∧
      ¬req.body <+: afterHeaders (lit "POST / HTTP/1.1\r\nContent-Length: 10\r\n\r\nabc") := by
  have hafter : afterHeaders (lit "POST / HTTP/1.1\r\nContent-Length: 10\r\n\r\nabc")
      = lit "abc" := by
    decide +kernel
  refine ⟨{
    method := lit "POST"
    uri := lit "/"
    version := lit "HTTP/1.1"
    headers := [(lit "Content-Length", lit "10")]
    body := lit "abc" ++ List.replicate 7 0 }, by decide +kernel, rfl, hafter, ?_⟩
  rw [hafter]
  decide

end Request

end JustEnough
