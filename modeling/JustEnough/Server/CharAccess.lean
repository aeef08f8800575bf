/-
`getCRLFLine`, `Request::Parse` and the path of `StaticHandler::HandleRequest` again, with
every access to a character and every cut as a step that can fail.

The definitions they are elsewhere given by take the last character of a line or of a
root for granted.  The source computes its index as `size() - 1` and does not ask
whether there is one.
-/
import JustEnough.Server.StaticHandler

namespace JustEnough

namespace Checked

/-! ### Reading a request -/

def getCRLFLine (ss : IStream) : Except Fault (Str × IStream) :=
  match ss.getline (byte '\n') with
  | (none, ss') => .ok ([], ss')
  | (some line, ss') => do
    if (← charAt line (lastIndex line)) = byte '\r' then
      return (← shrink line (lastIndex line), ss')
    else return (line, ss')

/-- Where the loop over the spaces before a header value stops. -/
def skipSpaces (line : Str) (headerValueStart : Nat) : Except Fault Nat := do
  if headerValueStart < line.length then
    if (← charAt line headerValueStart) = byte ' ' then skipSpaces line (headerValueStart + 1)
    else return headerValueStart
  else return headerValueStart
termination_by line.length - headerValueStart

def parseHeader (line : Str) : Except Fault (Option (Str × Str)) :=
  match findFrom (lit ":") line with
  | none => .ok none
  | some delimPos => do
    let headerKey ← substr line 0 (some delimPos)
    let headerValueStart ← skipSpaces line (delimPos + 1)
    let headerValue ← substr line headerValueStart none
    return some (headerKey, headerValue)

/-- An empty line is the only one that is not read as it is elsewhere. -/
theorem getCRLFLine_eq (ss : IStream) :
    getCRLFLine ss = if (ss.getline (byte '\n')).1 = some [] then .error .undefinedBehaviour
      else .ok (JustEnough.getCRLFLine ss) := by
  unfold getCRLFLine JustEnough.getCRLFLine
  rcases ss.getline (byte '\n') with ⟨_ | line, ss'⟩
  · rfl
  · by_cases hempty : line = []
    · subst hempty
      rfl
    · obtain ⟨c, hc⟩ := Option.ne_none_iff_exists'.mp (mt List.getLast?_eq_none_iff.mp hempty)
      have hsome : ¬some line = some [] := fun h => hempty (Option.some.inj h)
      rw [if_neg hsome]
      simp only [charAt_lastIndex hc, shrink_lastIndex hempty, hc, Option.some.injEq]
      show (if c = byte '\r' then _ else _) = _
      split
      · rfl
      · rfl

theorem getCRLFLine_lt {ss ss' : IStream} {line : Str} (h : getCRLFLine ss = .ok (line, ss'))
    (hne : line ≠ []) : ss'.rest.length < ss.rest.length := by
  rw [getCRLFLine_eq] at h
  split at h
  · cases h
  · exact JustEnough.getCRLFLine_lt (Except.ok.inj h) hne

def parseHeaders (reqSS : IStream) (contentLength : Int) (headers : Headers) :
    Except Fault (Option (Headers × Int × IStream)) :=
  match _h : getCRLFLine reqSS with
  | .error e => .error e
  | .ok (line, reqSS') =>
    if _hne : line = [] then .ok (some (headers, contentLength, reqSS'))
    else
      match parseHeader line with
      | .error e => .error e
      | .ok none => .ok none
      | .ok (some (headerKey, headerValue)) =>
        parseHeaders reqSS'
          (if headerKey = lit "Content-Length" then toInt32 (strtol headerValue)
            else contentLength)
          (headers ++ [(headerKey, headerValue)])
termination_by reqSS.rest.length
decreasing_by exact getCRLFLine_lt _h _hne

/-- `&req->body_[0]` is taken of a body that has its length already. -/
def readBody (reqSS : IStream) (contentLength : Int) : Except Fault Str := do
  if contentLength > 0 then
    let _ ← charAt (List.replicate contentLength.toNat 0) 0
    return Request.readBody reqSS contentLength
  else return []

def parse (rawRequest : Str) : Except Fault (Option Request) := do
  let (head, reqSS) ← getCRLFLine { rest := rawRequest }
  match split head (byte ' ') with
  | [method, uri, version] =>
    if (← substr version 0 (some 5)) ≠ lit "HTTP/" then return none
    else
      match ← parseHeaders reqSS 0 [] with
      | none => return none
      | some (headers, contentLength, reqSS') =>
        let body ← readBody reqSS' contentLength
        return some { method, uri, version, headers, body }
  | _ => return none

/-! ### Building a path -/

def requestPath (handler : StaticHandler) (uri : Str) : Except Fault Str := do
  let reqPath ← substr uri handler.path.length none
  if (← charOrEnd reqPath 0) = byte '/' then return reqPath else return byte '/' :: reqPath

def located (handler : StaticHandler) (uri : Str) : Except Fault Str := do
  let reqPath ← requestPath handler uri
  if (← charAt handler.filebase (lastIndex handler.filebase)) = byte '/' then
    return handler.filebase ++ (← substr reqPath 1 none)
  else return handler.filebase ++ reqPath

/-- The path, if `is_directory` gives that answer for it. -/
def filePath (isDirectory : Bool) (handler : StaticHandler) (uri : Str) : Except Fault Str := do
  let filepath ← located handler uri
  if isDirectory then
    if (← charAt filepath (lastIndex filepath)) = byte '/' then
      return filepath ++ StaticHandler.indexFile
    else return filepath ++ lit "/" ++ StaticHandler.indexFile
  else return filepath

end Checked

end JustEnough
