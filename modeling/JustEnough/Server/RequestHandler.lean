/-
`request_handler.h`, with `request.cc` and `response.cc`: the messages a handler
sees and makes.

`Request.parse` reads a request line, header lines up to an empty one, and, if a
positive `Content-Length` was among them, that many bytes of body.  The length goes
from text through `strtol` into a 64-bit `long` and from there into an `int`, and the
body is resized before it is read, so bytes that never arrived are zero bytes.

A `Response` starts with an indeterminate status, and `toString` looks the status up
in a table of nine codes with `at`, which throws for every other one.
-/
import JustEnough.Server.Utils

namespace JustEnough

/-- Line ends of both printers. -/
def CRLF : Str := lit "\r\n"

abbrev Headers := List (Str × Str)

/-- Header lines as both printers write them. -/
def headerLines (headers : Headers) : Str :=
  headers.flatMap fun header => header.1 ++ lit ": " ++ header.2 ++ CRLF

@[simp] theorem headerLines_nil : headerLines [] = [] := rfl

theorem headerLines_cons (header : Str × Str) (rest : Headers) :
    headerLines (header :: rest)
      = header.1 ++ lit ": " ++ header.2 ++ CRLF ++ headerLines rest := rfl

/-! ### Requests -/

structure Request where
  method : Str
  uri : Str
  version : Str
  headers : Headers
  body : Str
  deriving DecidableEq, Repr

namespace Request

def setUri (req : Request) (uri : Str) : Request := { req with uri := uri }

def addHeader (req : Request) (lhs rhs : Str) : Request :=
  { req with headers := req.headers ++ [(lhs, rhs)] }

/-- Erases the first header with that name, and no other. -/
def removeHeader (req : Request) (lhs : Str) : Request :=
  { req with headers := req.headers.eraseP fun header => header.1 = lhs }

/-- A header line cut at its first `:`, with the spaces after it skipped. -/
def parseHeader (line : Str) : Option (Str × Str) :=
  (findFrom (lit ":") line).map fun delimPos =>
    (line.take delimPos, (line.drop (delimPos + 1)).dropWhile (· = byte ' '))

/-- The `while` loop over the header lines. -/
def parseHeaders (reqSS : IStream) (contentLength : Int) (headers : Headers) :
    Option (Headers × Int × IStream) :=
  match _h : getCRLFLine reqSS with
  | (line, reqSS') =>
    if _hne : line = [] then some (headers, contentLength, reqSS')
    else
      match parseHeader line with
      | none => none
      | some (headerKey, headerValue) =>
        parseHeaders reqSS'
          (if headerKey = lit "Content-Length" then toInt32 (strtol headerValue)
            else contentLength)
          (headers ++ [(headerKey, headerValue)])
termination_by reqSS.rest.length
decreasing_by exact getCRLFLine_lt _h _hne

/-- `resize` to the announced length, then one `read` into it. -/
def readBody (reqSS : IStream) (contentLength : Int) : Str :=
  if contentLength > 0 then
    let got := (reqSS.read contentLength.toNat).1
    got ++ List.replicate (contentLength.toNat - got.length) 0
  else []

def parse (rawRequest : Str) : Option Request :=
  match getCRLFLine { rest := rawRequest } with
  | (head, reqSS) =>
    match split head (byte ' ') with
    | [method, uri, version] =>
      if version.take 5 ≠ lit "HTTP/" then none
      else
        match parseHeaders reqSS 0 [] with
        | none => none
        | some (headers, contentLength, reqSS') =>
          some { method, uri, version, headers, body := readBody reqSS' contentLength }
    | _ => none

def rawRequest (req : Request) : Str :=
  req.method ++ lit " " ++ req.uri ++ lit " " ++ req.version ++ CRLF ++
    headerLines req.headers ++ CRLF ++ req.body

end Request

/-! ### Responses -/

/-- `Response::ResponseCode`: an enumeration that a cast can give any other value. -/
abbrev ResponseCode := Int

namespace Response

abbrev code200OK : ResponseCode := 200
abbrev code301Moved : ResponseCode := 301
abbrev code302Found : ResponseCode := 302
abbrev code304NotModified : ResponseCode := 304
abbrev code400BadRequest : ResponseCode := 400
abbrev code401Unauthorized : ResponseCode := 401
abbrev code403Forbidden : ResponseCode := 403
abbrev code404NotFound : ResponseCode := 404
abbrev code500InternalError : ResponseCode := 500

end Response

def responseCodeStrings : List (ResponseCode × Str) :=
  [(Response.code200OK, lit "200 OK"),
   (Response.code301Moved, lit "301 Moved Permanently"),
   (Response.code302Found, lit "302 Found"),
   (Response.code304NotModified, lit "304 Not Modified"),
   (Response.code400BadRequest, lit "400 Bad Request"),
   (Response.code401Unauthorized, lit "401 Unauthorized"),
   (Response.code403Forbidden, lit "403 Forbidden"),
   (Response.code404NotFound, lit "404 Not Found"),
   (Response.code500InternalError, lit "500 Internal Server Error")]

structure Response where
  code : ResponseCode
  body : Str := []
  headers : Headers := []
  deriving DecidableEq, Repr

namespace Response

/-- `Response resp;`, whose status is whatever was in memory. -/
def uninitialised (garbage : ResponseCode) : Response := { code := garbage }

def setStatus (resp : Response) (code : ResponseCode) : Response := { resp with code := code }

def addHeader (resp : Response) (name value : Str) : Response :=
  { resp with headers := resp.headers ++ [(name, value)] }

def setBody (resp : Response) (body : Str) : Response := { resp with body := body }

def toString (resp : Response) : Except Fault Str :=
  match responseCodeStrings.lookup resp.code with
  | none => .error .outOfRange
  | some codeString =>
    .ok (lit "HTTP/1.1 " ++ codeString ++ CRLF ++ headerLines resp.headers ++ CRLF ++ resp.body)

/-- What `toString` prints, whenever it prints anything. -/
theorem toString_eq {resp : Response} {codeString : Str}
    (h : responseCodeStrings.lookup resp.code = some codeString) :
    resp.toString = .ok (lit "HTTP/1.1 " ++ codeString ++ CRLF ++ headerLines resp.headers ++
      CRLF ++ resp.body) := by
  simp [toString, h]

/-- The three decimal digits of a number below 1000. -/
def statusDigits (n : Nat) : Str :=
  [UInt8.ofNat (48 + n / 100 % 10), UInt8.ofNat (48 + n / 10 % 10), UInt8.ofNat (48 + n % 10)]

theorem statusDigits_inj {n m : Nat} (hn : n < 1000) (hm : m < 1000)
    (h : statusDigits n = statusDigits m) : n = m := by
  simp only [statusDigits, List.cons.injEq, ← UInt8.toNat_inj, UInt8.toNat_ofNat'] at h
  omega

theorem isDigit_of_mem_statusDigits {n : Nat} : ∀ d ∈ statusDigits n, isDigit d = true := by
  have key : ∀ k, isDigit (UInt8.ofNat (48 + k % 10)) = true := by
    intro k
    have hlt : k % 10 < 10 := Nat.mod_lt _ (by decide)
    interval_cases k % 10 <;> decide
  simp only [statusDigits, List.mem_cons, List.not_mem_nil, or_false]
  rintro d (rfl | rfl | rfl)
  · exact key _
  · exact key _
  · exact key _

theorem digitsValue_statusDigits {n : Nat} (h : n < 1000) : digitsValue (statusDigits n) = n := by
  simp only [digitsValue, statusDigits, List.foldl_cons, List.foldl_nil, UInt8.toNat_ofNat']
  omega

theorem stoi_statusDigits {n : Nat} (h : n < 1000) : stoi (statusDigits n) = .ok n := by
  have hvalue := digitsValue_statusDigits h
  rw [stoi_digits (by simp [statusDigits]) isDigit_of_mem_statusDigits (by omega), hvalue]

/-- The codes `toString` has a text for. -/
def knownCodes : List ResponseCode := responseCodeStrings.map (·.1)

theorem knownCodes_bounded : ∀ code : Int, code ∈ knownCodes → 0 ≤ code ∧ code < 1000 := by
  decide

/-- Text that can stand in a line. -/
def OneLine (s : Str) : Prop := byte '\r' ∉ s ∧ byte '\n' ∉ s

instance (s : Str) : Decidable (OneLine s) := inferInstanceAs (Decidable (_ ∧ _))

theorem lookup_of_known {code : ResponseCode} (h : code ∈ knownCodes) :
    ∃ reason, OneLine reason ∧ responseCodeStrings.lookup code
      = some (statusDigits code.toNat ++ lit " " ++ reason) := by
  simp only [knownCodes, responseCodeStrings, List.map_cons, List.map_nil, List.mem_cons,
    List.not_mem_nil, or_false] at h
  rcases h with rfl | rfl | rfl | rfl | rfl | rfl | rfl | rfl | rfl
  · exact ⟨lit "OK", by decide⟩
  · exact ⟨lit "Moved Permanently", by decide⟩
  · exact ⟨lit "Found", by decide⟩
  · exact ⟨lit "Not Modified", by decide⟩
  · exact ⟨lit "Bad Request", by decide⟩
  · exact ⟨lit "Unauthorized", by decide⟩
  · exact ⟨lit "Forbidden", by decide⟩
  · exact ⟨lit "Not Found", by decide⟩
  · exact ⟨lit "Internal Server Error", by decide⟩

theorem lookup_of_not_known {code : ResponseCode} (h : code ∉ knownCodes) :
    responseCodeStrings.lookup code = none := by
  rw [List.lookup_eq_none_iff]
  intro p hp
  have hne : code ≠ p.1 := by
    rintro rfl
    exact h (List.mem_map_of_mem hp)
  simpa using hne

/-- What `toString` prints starts with the code; for any other code it throws. -/
theorem toString_of_known {resp : Response} (h : resp.code ∈ knownCodes) :
    ∃ reason, OneLine reason ∧ resp.toString = .ok (lit "HTTP/1.1 " ++
      statusDigits resp.code.toNat ++ lit " " ++ reason ++ CRLF ++ headerLines resp.headers ++
      CRLF ++ resp.body) := by
  obtain ⟨reason, hreason, hlookup⟩ := lookup_of_known h
  exact ⟨reason, hreason, by rw [toString_eq hlookup]; simp [List.append_assoc]⟩

theorem toString_of_unknown {resp : Response} (h : responseCodeStrings.lookup resp.code = none) :
    resp.toString = .error .outOfRange := by
  simp [toString, h]

end Response

/-! ### Handlers -/

/-- `RequestHandler::Status`. -/
inductive Status
  | ok
  | error
  deriving DecidableEq, Repr

end JustEnough
