/-
The `Location` of a redirect.

`Moved` is a reply that sends the client to `http://host` and a path, with whatever other
headers around.  Reading it comes down to what `redirectTo` does with that one value
(`parseRawResponse_moved`), and there everything hangs on the first slash behind the
host: where a path follows, it is cut out of the value, and then found again inside the
host to cut it off there (`locationRead_of_path`).  Without a path that slash is nowhere,
and `substr` is asked for what stands behind `npos`.

The headers before and after the `Location` are read like those of any other reply; the
loop over them only says where it stands in the end.
-/
import JustEnough.Proofs.Relay

namespace JustEnough

open Response

namespace ProxyHandler

/-! ### The reply -/

/-- A 301 or 302 reply with one `Location`, which names a host. -/
structure Moved where
  version : Str
  code : Nat
  /-- What follows the code on its line, the space included. -/
  tail : Str
  before : List HeaderLine
  spaces : Str
  host : Str
  path : Str
  after : List HeaderLine
  body : Str
  version_word : byte ' ' ∉ version
  code_moved : code = 301 ∨ code = 302
  tail_line : ¬CRLF <:+: tail ∧ (tail = [] ∨ tail.head? = some (byte ' '))
  others : ∀ line ∈ before ++ after, line.name ≠ lit "Location"
  spaces_blank : ∀ c ∈ spaces, c = byte ' '
  host_ne_nil : host ≠ []
  host_plain : byte '/' ∉ host ∧ byte ':' ∉ host
  path_rooted : path = [] ∨ path.head? = some (byte '/')
  location_line : ¬CRLF <:+: lit "http://" ++ (host ++ path)

namespace Moved

variable (r : Moved)

def location : Str := lit "http://" ++ (r.host ++ r.path)

def locationLine : HeaderLine where
  name := lit "Location"
  spaces := r.spaces
  value := r.location
  name_plain := by decide
  spaces_blank := r.spaces_blank
  value_plain := ⟨r.location_line, by simp [Moved.location, lit, byte]⟩

def lines : List HeaderLine := r.before ++ r.locationLine :: r.after

/-- The reply as it is sent. -/
def text : Str :=
  r.version ++ lit " " ++ (statusDigits r.code ++ r.tail) ++ CRLF ++
    (r.lines.flatMap HeaderLine.text ++ (CRLF ++ r.body))

/-- What it is read as, if it is. -/
def asResponse : Response :=
  { code := r.code, headers := r.lines.map HeaderLine.header, body := r.body }

end Moved

/-! ### Reading it -/

variable (r : Moved)

theorem Moved.isRedirect_location : isRedirect r.code (lit "Location") = true := by
  rcases r.code_moved with hcode | hcode
  · rw [hcode]
    rfl
  · rw [hcode]
    rfl

theorem Moved.isRedirect_others {line : HeaderLine} (h : line ∈ r.before ++ r.after) :
    isRedirect r.code line.name = false := by
  simp [isRedirect, r.others line h]

/-- **Reading the reply** comes down to its `Location`. -/
theorem parseRawResponse_moved :
    parseRawResponse (r.lines.length + 1) r.text
      = (redirectTo r.location >>= fun _ => pure r.asResponse) := by
  have hcode : r.code < 1000 := by
    rcases r.code_moved with hcode | hcode <;> omega
  have hfuel : r.lines.length + 1 = r.before.length + (r.after.length + 1 + 1) := by
    simp [Moved.lines]
    omega
  have htext : r.text = r.version ++ lit " " ++ (statusDigits r.code ++ r.tail) ++ CRLF ++
      (r.before.flatMap HeaderLine.text ++ (r.locationLine.text ++
        (r.after.flatMap HeaderLine.text ++ (CRLF ++ r.body)))) := by
    simp [Moved.text, Moved.lines]
  obtain ⟨start, hstart, hfirst⟩ := parseRawResponse_firstLine r.version_word hcode r.tail_line htext
    (r.lines.length + 1)
  -- the headers before the `Location`
  obtain ⟨stop₁, hstop₁, hbefore⟩ := parseHeaders_lines
    (fun line hline => r.isRedirect_others (List.mem_append_left r.after hline))
    (r.after.length + 1 + 1) _ start { code := r.code } htext hstart
  -- the `Location` itself
  rw [← List.append_assoc] at htext
  obtain ⟨stop₂, hstop₂, hlocation⟩ := parseHeaders_line r.locationLine htext r.code
    (r.after.length + 1) hstop₁ { code := r.code, headers := [] ++ r.before.map HeaderLine.header }
  have hredirect : isRedirect r.code r.locationLine.name = true := r.isRedirect_location
  rw [if_pos hredirect] at hlocation
  -- the headers after it, and the empty line
  rw [← List.append_assoc] at htext
  obtain ⟨stop₃, hstop₃, hafter⟩ := parseHeaders_lines
    (fun line hline => r.isRedirect_others (List.mem_append_right r.before hline)) 1 _ stop₂
    (addHeader { code := r.code, headers := [] ++ r.before.map HeaderLine.header }
      r.locationLine.name r.locationLine.value) htext hstop₂
  rw [← List.append_assoc] at htext
  have hend := parseHeaders_end r.code htext 0 hstop₃
  rw [hfirst, hfuel, hbefore, hlocation]
  refine congrArg _ (funext fun _ => ?_)
  rw [hafter, hend]
  simp [Moved.asResponse, Moved.lines, HeaderLine.header, Moved.locationLine, addHeader, setBody]

/-! ### The host and the path in the fields -/

theorem Moved.not_isPath : isPath r.location = false := by
  simp [isPath, Moved.location, lit, byte]

theorem Moved.schemeLength_eq : schemeLength r.location = (lit "http://").length := by
  have hfind : find r.location (lit "http://") 0 = some 0 := by
    rw [find_eq_some_iff]
    exact ⟨Nat.le_refl 0, Nat.zero_le _, List.prefix_append _ _, by omega⟩
  rw [schemeLength, if_pos hfind]

/-- A path starts at the first slash behind the host. -/
theorem Moved.pathStart_eq (hpath : r.path ≠ []) :
    pathStart r.location = some (lit "http://" ++ r.host).length := by
  have hhead := r.path_rooted.resolve_left hpath
  obtain ⟨path, htail⟩ := List.head?_eq_some_iff.mp hhead
  have hfind : find r.location (lit "/") (lit "http://").length
      = some (r.host.length + (lit "http://").length) :=
    find_byte (c := byte '/') path (by simp [Moved.location, htail]) r.host_plain.1
  rw [pathStart, if_neg (by simp [r.not_isPath]), r.schemeLength_eq, hfind, List.length_append,
    Nat.add_comm]

/-- Without a path there is no such slash. -/
theorem Moved.pathStart_none (hpath : r.path = []) : pathStart r.location = none := by
  have hno : find r.location (lit "/") (lit "http://").length = none := by
    rw [find_eq_none_iff (by decide)]
    intro n hn hstands
    have hslash : r.location[n]? = some (byte '/') := standsAt_byte.mp hstands
    rw [Moved.location, hpath, List.append_nil, List.getElem?_append_right hn] at hslash
    exact r.host_plain.1 (List.mem_of_getElem? hslash)
  rw [pathStart, if_neg (by simp [r.not_isPath]), r.schemeLength_eq, hno]

theorem Moved.redirected_fields (hpath : r.path ≠ []) (h : ProxyHandler) :
    (redirected r.location h).redirect = true ∧ (redirected r.location h).redirectHost = r.host ∧
      (redirected r.location h).redirectUri = r.path := by
  have hstart := r.pathStart_eq hpath
  have hfront : r.location = (lit "http://" ++ r.host) ++ r.path := by simp [Moved.location]
  have huri : locationUri r.location = r.path := by
    rw [locationUri, hstart, Option.getD_some, hfront, List.drop_left]
  have hheader : locationHostHeader r.location = lit "http://" ++ r.host := by
    rw [locationHostHeader, hstart, Option.getD_some, hfront, List.take_left]
  have hhost : locationHost r.location = r.host := by
    rw [locationHost, hheader, r.schemeLength_eq, List.drop_left]
  rw [redirected, if_neg (by simp [r.not_isPath])]
  exact ⟨rfl, hhost, huri⟩

/-! ### When it is read -/

/--
The reply is read without an exception, and leaves the host and the path of its
`Location` in the fields of the handler.
-/
def LocationRead (r : Moved) (m : ProxyMem) : Prop :=
  ∃ fuel response m', (parseRawResponse fuel r.text).run upstream m = (.returned response, m') ∧
    m'.shared.redirect = true ∧ m'.shared.redirectHost = r.host ∧
    m'.shared.redirectUri = if r.path = [] then lit "/" else r.path

theorem locationRead_of_path {r : Moved} (hpath : r.path ≠ []) (m : ProxyMem) :
    LocationRead r m := by
  rcases redirectTo_local r.location with ⟨f, hnone, -⟩ | ⟨-, hlocal⟩
  · rw [r.pathStart_eq hpath] at hnone
    cases hnone
  · obtain ⟨hredirect, hhost, huri⟩ := r.redirected_fields hpath m.shared
    refine ⟨r.lines.length + 1, r.asResponse,
      { m with shared := redirected r.location m.shared }, ?_, hredirect, hhost, ?_⟩
    · rw [parseRawResponse_moved, hlocal.bind (Prog.Local.pure r.asResponse)]
      rfl
    · rw [if_neg hpath]
      exact huri

/-- However deep the loop is unrolled, a reply without a path throws. -/
theorem not_locationRead {r : Moved} (hpath : r.path = []) (m : ProxyMem) :
    ¬LocationRead r m := by
  rintro ⟨fuel, response, m', hrun, -⟩
  rcases redirectTo_local r.location with ⟨f, -, hlocal⟩ | ⟨⟨p, hp⟩, -⟩
  · have hthrows : parsed (r.lines.length + 1) r.text = .threw .outOfRange := by
      rw [parsed, parseRawResponse_moved, hlocal.bind_threw]
    obtain ⟨g, hparsed, -⟩ := parseRawResponse_local fuel r.text
    have hreturns : parsed fuel r.text = .returned response := by
      rw [hparsed] at hrun
      exact (Prod.mk.inj hrun).1
    have hsame : parsed fuel r.text = parsed (r.lines.length + 1) r.text :=
      parsed_unique (by simp [hreturns]) (by simp [hthrows])
    rw [hreturns, hthrows] at hsame
    cases hsame
  · rw [r.pathStart_none hpath] at hp
    cases hp

/-- **A redirect to a host is read as it is meant exactly when it names a path there.** -/
theorem location_read_iff (r : Moved) (m : ProxyMem) : LocationRead r m ↔ r.path ≠ [] :=
  ⟨fun h hpath => not_locationRead hpath m h, fun hpath => locationRead_of_path hpath m⟩

/-- A redirect to a host, and nothing behind it. -/
def pathless : Moved where
  version := lit "HTTP/1.1"
  code := 302
  tail := lit " Found"
  before := []
  spaces := lit " "
  host := lit "example.com"
  path := []
  after := []
  body := []
  version_word := by decide
  code_moved := by decide
  tail_line := ⟨not_CRLF_of_not_mem (by decide), by decide⟩
  others := by simp
  spaces_blank := by simp [lit]
  host_ne_nil := by decide
  host_plain := by decide
  path_rooted := by decide
  location_line := not_CRLF_of_not_mem (by decide)

example : pathless.text
    = lit "HTTP/1.1 302 Found\r\nLocation: http://example.com\r\n\r\n" := by
  decide

/-- Its `substr` from `npos` on throws. -/
theorem pathless_not_read : ¬LocationRead pathless (exampleMem []) :=
  not_locationRead rfl _

end ProxyHandler

end JustEnough
