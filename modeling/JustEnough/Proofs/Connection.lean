/-
What the read loop makes of a client's bytes.

However the bytes are cut into reads, the loop collects the same text: the lines of the
stream up to the first empty one, or, where the stream ends before it, the complete
lines there are (`readRequest_eq`).  Two things follow that the loop is not there for.
The bytes after the empty line stay in the buffer, so a body announced by
`Content-Length` is never read, and a handler gets as many zero bytes instead
(`body_received_iff`).  And the end of the stream is not looked at, so a request that
breaks off after a complete line is served when those lines make a request
(`truncated_unserved_iff`).
-/
import JustEnough.Server.Connection
import JustEnough.Proofs.RequestCodec

namespace JustEnough

open Response

namespace Connection

/-! ### One line -/

/-- The length of the next line of a stream; no line is left where there is no delimiter. -/
def lineLength (termChar s : Str) : Nat :=
  (findFrom termChar s).elim 0 (· + termChar.length)

/-- The count that is answered, and the bytes in the buffer, which are at least as many. -/
theorem readUntil_count (termChar : Str) : ∀ (reads : List Str) (buf : Str),
    (readUntil termChar buf reads).1 = lineLength termChar (buf ++ reads.flatten) ∧
      (readUntil termChar buf reads).1 ≤ (readUntil termChar buf reads).2.2.buf.length := by
  intro reads
  induction reads with
  | nil =>
      intro buf
      unfold readUntil lineLength
      rw [List.flatten_nil, List.append_nil]
      cases hfind : findFrom termChar buf with
      | none => exact ⟨rfl, Nat.zero_le _⟩
      | some n => exact ⟨rfl, findFrom_length hfind⟩
  | cons chunk reads ih =>
      intro buf
      unfold readUntil
      cases hfind : findFrom termChar buf with
      | none =>
          rw [List.flatten_cons, ← List.append_assoc]
          exact ih (buf ++ chunk)
      | some n =>
          rw [lineLength, findFrom_front hfind]
          exact ⟨rfl, findFrom_length hfind⟩

/-- The next line of the stream is read, and the rest is left. -/
theorem readStrUntil_eq {c c' : Connection} {termChar line : Str} {err : Bool}
    (h : c.readStrUntil termChar = (line, err, c')) :
    line = c.stream.take (lineLength termChar c.stream) ∧
      c'.stream = c.stream.drop (lineLength termChar c.stream) := by
  obtain ⟨hcount, hle⟩ := readUntil_count termChar c.reads c.buf
  have hline : line.length = lineLength termChar c.stream := by
    simp only [readStrUntil, Prod.mk.injEq] at h
    obtain ⟨rfl, -, -⟩ := h
    rw [List.length_take, stream, ← hcount]
    exact Nat.min_eq_left hle
  rw [readStrUntil_stream h] at hline ⊢
  rw [← hline]
  simp

/-! ### The whole request -/

/-- The lines of a stream up to the first empty one. -/
def requestHead (s : Str) : Str :=
  match _h : findFrom CRLF s with
  | none => []
  | some n => if n = 0 then CRLF else s.take (n + 2) ++ requestHead (s.drop (n + 2))
termination_by s.length
decreasing_by
  have hlen := findFrom_length _h
  simp only [CRLF, lit, List.length_drop] at hlen ⊢
  simp at hlen
  omega

theorem requestHead_none {s : Str} (h : findFrom CRLF s = none) : requestHead s = [] := by
  rw [requestHead]
  split <;> simp_all

theorem requestHead_some {s : Str} {n : Nat} (h : findFrom CRLF s = some n) :
    requestHead s = if n = 0 then CRLF else s.take (n + 2) ++ requestHead (s.drop (n + 2)) := by
  rw [requestHead]
  split <;> simp_all

/-- **The loop reads the same text however the stream is cut.** -/
theorem readRequest_eq (c : Connection) (req : Str) :
    (c.readRequest req).1 = req ++ requestHead c.stream := by
  induction hn : c.stream.length using Nat.strong_induction_on generalizing c req with
  | _ n ih =>
      rw [readRequest]
      split
      rename_i line err c' hline
      obtain ⟨rfl, hrest⟩ := readStrUntil_eq hline
      cases hfind : findFrom CRLF c.stream with
      | none => simp [lineLength, hfind, requestHead_none hfind]
      | some k =>
          have hCRLF : CRLF.length = 2 := rfl
          have hlen := findFrom_length hfind
          rw [lineLength, hfind, Option.elim_some, hCRLF] at hrest ⊢
          rw [hCRLF] at hlen
          obtain ⟨b, hb, -⟩ := findFrom_spec hfind
          by_cases hzero : k = 0
          · subst hzero
            have htake : c.stream.take (0 + 2) = CRLF := by
              rw [List.drop_zero] at hb
              rw [hb]
              rfl
            simp [requestHead_some hfind, htake, hCRLF]
          · have hlong : ¬(c.stream.take (k + 2)).length ≤ 2 := by
              rw [List.length_take]
              omega
            have hless : c'.stream.length < n := by
              rw [hrest, List.length_drop]
              omega
            rw [dif_neg hlong, ih _ hless c' _ rfl, requestHead_some hfind, if_neg hzero, hrest,
              List.append_assoc]

/-- A line that is not empty is read with its end. -/
theorem requestHead_line {line : Str} (hne : line ≠ []) (hline : OneLine line) (rest : Str) :
    requestHead (line ++ CRLF ++ rest) = line ++ CRLF ++ requestHead rest := by
  have hfind : findFrom CRLF (line ++ CRLF ++ rest) = some line.length := by
    rw [List.append_assoc]
    exact findFrom_append hline.1 rest
  have hlen : line.length + 2 = (line ++ CRLF).length := by simp [CRLF, lit]
  rw [requestHead_some hfind, if_neg (by simpa using hne), hlen, List.take_left, List.drop_left]

/-- At the empty line the text is complete. -/
theorem requestHead_empty (rest : Str) : requestHead (CRLF ++ rest) = CRLF := by
  have hfind : findFrom CRLF (CRLF ++ rest) = some 0 := by
    have hfirst := @findFrom_append (byte '\r') (lit "\n") [] (by simp) rest
    simpa [CRLF, lit] using hfirst
  rw [requestHead_some hfind, if_pos rfl]

theorem requestHead_lines {lines : List Str} (hlines : ∀ line ∈ lines, line ≠ [] ∧ OneLine line)
    (rest : Str) : requestHead (lines.flatMap (· ++ CRLF) ++ CRLF ++ rest)
      = lines.flatMap (· ++ CRLF) ++ CRLF := by
  induction lines with
  | nil => simpa using requestHead_empty rest
  | cons line lines ih =>
      obtain ⟨hne, hline⟩ := hlines line (by simp)
      have hfirst := requestHead_line hne hline (lines.flatMap (· ++ CRLF) ++ CRLF ++ rest)
      rw [ih fun l hl => hlines l (by simp [hl])] at hfirst
      simpa using hfirst

end Connection

open Connection

/-! ### A request with a body -/

/-- What a client sends: a request line, header lines, an empty line, and a body. -/
structure Upload where
  requestLine : Str
  headerLines : List Str
  body : Str
  requestLine_line : OneLine requestLine
  headerLines_line : ∀ line ∈ headerLines, line ≠ [] ∧ OneLine line
  announces : lit "Content-Length: " ++ decimal body.length ∈ headerLines

namespace Upload

def text (u : Upload) : Str :=
  u.requestLine ++ CRLF ++ u.headerLines.flatMap (· ++ CRLF) ++ CRLF ++ u.body

/-- The length the server takes from the headers: the last `Content-Length`, as an `int`. -/
def announced (u : Upload) : Int :=
  Request.announced (u.headerLines.filterMap Request.parseHeader)

end Upload

theorem filterMap_of_mapM {α β : Type} {f : α → Option β} {l : List α} {l' : List β}
    (h : l.mapM f = some l') : l.filterMap f = l' := by
  induction l generalizing l' with
  | nil =>
      cases h
      rfl
  | cons a l ih =>
      rw [List.mapM_cons] at h
      obtain ⟨b, hb, hrest⟩ := Option.bind_eq_some_iff.mp h
      obtain ⟨bs, hbs, hl⟩ := Option.bind_eq_some_iff.mp hrest
      cases hl
      rw [List.filterMap_cons_some hb, ih hbs]

/-- Of an upload, the server parses everything but the body. -/
theorem parse_requestHead_upload {u : Upload} {req : Request}
    (h : Request.parse (requestHead u.text) = some req) :
    req.body = List.replicate u.announced.toNat 0 := by
  have hhead : u.requestLine ≠ [] := by
    intro hnil
    have htext : u.text = CRLF ++ (u.headerLines.flatMap (· ++ CRLF) ++ CRLF ++ u.body) := by
      simp [Upload.text, hnil]
    have hnone : Request.parse CRLF = none := by decide +kernel
    rw [htext, requestHead_empty, hnone] at h
    cases h
  have htext : u.text = u.requestLine ++ CRLF ++
      (u.headerLines.flatMap (· ++ CRLF) ++ CRLF ++ u.body) := by
    simp [Upload.text]
  rw [htext, requestHead_line hhead u.requestLine_line, requestHead_lines u.headerLines_line] at h
  have hline := Request.getCRLFLine_line u.requestLine_line.2
    (u.headerLines.flatMap (· ++ CRLF) ++ CRLF)
  have hheaders := Request.parseHeaders_lines
    (fun line hl => ⟨(u.headerLines_line line hl).1, (u.headerLines_line line hl).2.2⟩) [] 0 []
  rw [List.append_nil] at hheaders
  simp only [Request.parse, hline, hheaders] at h
  split at h
  · split at h
    · cases h
    · split at h
      · cases h
      · rename_i headers contentLength reqSS' hsome
        obtain ⟨more, hmore, hparts⟩ := Option.map_eq_some_iff.mp hsome
        cases hparts
        cases h
        rw [Upload.announced, filterMap_of_mapM hmore]
        exact Request.readBody_nil _
  · cases h

variable {H W : Type}

/--
**The body reaches the handler exactly when nothing is lost by replacing it with zero
bytes**: it consists of zero bytes, as many as the server takes to be announced.
-/
theorem body_received_iff {ws : Webserver H W} {u : Upload} {reads : List Str} {handler : H}
    {req : Request} (hreads : reads.flatten = u.text)
    (hhanded : ws.handed (readRequest { reads } []).1 = some (handler, req)) :
    req.body = u.body ↔ (∀ b ∈ u.body, b = 0) ∧ u.announced.toNat = u.body.length := by
  obtain ⟨hparse, -⟩ := Webserver.handed_eq_some_iff.mp hhanded
  have hstream : (Connection.mk [] reads).stream = u.text := by simp [stream, hreads]
  rw [readRequest_eq, hstream, List.nil_append] at hparse
  rw [parse_requestHead_upload hparse, eq_comm, List.eq_replicate_iff]
  constructor
  · intro h
    exact ⟨h.2, h.1.symm⟩
  · intro h
    exact ⟨h.2.symm, h.1⟩

/-- A server without realms, whose handler answers everything with an empty 200. -/
def openServer : Webserver Unit Unit where
  opt := { handlerMap := ∅, defaultHandler := some (), auth := none }
  handleRequest _ _ resp s := (.returned (.ok, resp.setStatus Response.code200OK), s)

def exampleUpload : Upload where
  requestLine := lit "POST / HTTP/1.1"
  headerLines := [lit "Content-Length: 10"]
  body := lit "0123456789"
  requestLine_line := by decide
  headerLines_line := by decide
  announces := by decide +kernel

/-- What the handler is handed for it. -/
def exampleReceived : Request where
  method := lit "POST"
  uri := lit "/"
  version := lit "HTTP/1.1"
  headers := [(lit "Content-Length", lit "10")]
  body := List.replicate 10 0

/-- Ten digits are sent, and ten zero bytes arrive. -/
theorem body_not_received :
    openServer.handed (readRequest { reads := [exampleUpload.text] } []).1
        = some ((), exampleReceived) ∧ exampleReceived.body ≠ exampleUpload.body := by
  refine ⟨?_, ?_⟩
  · decide +kernel
  · decide

/-- The same bytes in three reads, cut within the empty line. -/
theorem body_received_example : exampleReceived.body = exampleUpload.body ↔
    (∀ b ∈ exampleUpload.body, b = 0) ∧ exampleUpload.announced.toNat = exampleUpload.body.length :=
  @body_received_iff _ _ openServer exampleUpload
    [lit "POST / HTTP/1.1\r", lit "\nContent-Length: 10\r\n\r", lit "\n0123456789"] () _
    (by decide +kernel) (by decide +kernel)

/-! ### A request that breaks off -/

/-- The stream ends before an empty line: no line end at its start, and no two in a row. -/
def Truncated (s : Str) : Prop := ¬CRLF <+: s ∧ ¬CRLF ++ CRLF <:+: s

/-- A stream without what follows its last line end. -/
def upToLastCRLF : Str → Str
  | [] => []
  | c :: cs =>
    if upToLastCRLF cs ≠ [] then c :: upToLastCRLF cs
    else if CRLF <+: c :: cs then CRLF
    else []

theorem upToLastCRLF_of_not_infix {s : Str} (h : ¬CRLF <:+: s) : upToLastCRLF s = [] := by
  induction s with
  | nil => rfl
  | cons c cs ih =>
      have hrest : upToLastCRLF cs = [] :=
        ih fun hlater => h (hlater.trans (List.suffix_cons c cs).isInfix)
      have hhere : ¬CRLF <+: c :: cs := fun hhead => h hhead.isInfix
      simp [upToLastCRLF, hrest, hhere]

theorem upToLastCRLF_append (a b : Str) :
    upToLastCRLF (a ++ (CRLF ++ b)) = a ++ (CRLF ++ upToLastCRLF b) := by
  induction a with
  | nil =>
      have hsecond : ¬CRLF <+: byte '\n' :: b := by
        rintro ⟨t, ht⟩
        have hfirst : some (byte '\r') = some (byte '\n') := congrArg List.head? ht
        revert hfirst
        decide
      by_cases hb : upToLastCRLF b = []
      · have hrest : upToLastCRLF (byte '\n' :: b) = [] := by simp [upToLastCRLF, hb, hsecond]
        have hfirst : CRLF <+: byte '\r' :: byte '\n' :: b := ⟨b, rfl⟩
        show upToLastCRLF (byte '\r' :: byte '\n' :: b) = _
        rw [upToLastCRLF, hrest, hb]
        simp [hfirst]
      · show upToLastCRLF (byte '\r' :: byte '\n' :: b) = _
        simp [upToLastCRLF, hb]
        rfl
  | cons c a ih =>
      rw [List.cons_append, upToLastCRLF, ih, if_pos (by simp [CRLF, lit])]
      rfl

/-- **Of a truncated stream, the loop reads the complete lines.** -/
theorem requestHead_truncated {s : Str} (h : Truncated s) : requestHead s = upToLastCRLF s := by
  induction hn : s.length using Nat.strong_induction_on generalizing s with
  | _ n ih =>
      cases hfind : findFrom CRLF s with
      | none =>
          have hnot : ¬CRLF <:+: s := by
            intro hin
            obtain ⟨k, hk⟩ := findFrom_of_infix hin
            rw [hfind] at hk
            cases hk
          rw [requestHead_none hfind, upToLastCRLF_of_not_infix hnot]
      | some k =>
          obtain ⟨b, hb, hk⟩ := findFrom_spec hfind
          have hs : s = s.take k ++ (CRLF ++ b) := by rw [← hb, List.take_append_drop]
          have hlen : (s.take k ++ CRLF).length = k + 2 := by
            rw [List.length_append, List.length_take, Nat.min_eq_left hk]
            rfl
          have hzero : k ≠ 0 := by
            rintro rfl
            exact h.1 ⟨b, by rw [List.drop_zero] at hb; exact hb.symm⟩
          have hrest : Truncated b := by
            refine ⟨?_, ?_⟩
            · rintro ⟨t, rfl⟩
              exact h.2 ⟨s.take k, t, by simpa using hs.symm⟩
            · intro hin
              exact h.2 (hin.trans ⟨s.take k ++ CRLF, [], by simpa using hs.symm⟩)
          have hless : b.length < n := by
            have hwhole := congrArg List.length hs
            simp [CRLF, lit] at hwhole
            omega
          have htake : s.take (k + 2) = s.take k ++ CRLF := by
            rw [← hlen]
            conv_lhs => arg 2; rw [hs, ← List.append_assoc]
            exact List.take_left
          have hdrop : s.drop (k + 2) = b := by
            rw [← hlen]
            conv_lhs => arg 2; rw [hs, ← List.append_assoc]
            exact List.drop_left
          rw [requestHead_some hfind, if_neg hzero, htake, hdrop, ih _ hless hrest rfl]
          conv_rhs => rw [hs, upToLastCRLF_append]
          simp

/--
**A truncated request is left unserved exactly when its complete lines are no request**
that gets past authentication to a handler.
-/
theorem truncated_unserved_iff {ws : Webserver H W} {garbage : ResponseCode} {reads : List Str}
    {s : ServerState W} (h : Truncated reads.flatten) :
    (ws.processConnection garbage { reads } s).1.served.handler = none ↔
      ∀ req, Request.parse (upToLastCRLF reads.flatten) = some req →
        ws.refused req ≠ none ∨ ws.matchRequestWithHandler req = none := by
  have hstream : (Connection.mk [] reads).stream = reads.flatten := by simp [stream]
  rw [Webserver.processConnection_handler, readRequest_eq, hstream, List.nil_append,
    requestHead_truncated h, Option.map_eq_none_iff, Option.eq_none_iff_forall_ne_some]
  constructor
  · intro hnone req hparse
    by_contra hserved
    rw [not_or, not_not] at hserved
    obtain ⟨handler, hmatch⟩ := Option.ne_none_iff_exists'.mp hserved.2
    exact hnone (handler, req) (Webserver.handed_eq_some_iff.mpr ⟨hparse, hserved.1, hmatch⟩)
  · intro hall p hhanded
    obtain ⟨hparse, href, hmatch⟩ := Webserver.handed_eq_some_iff.mp hhanded
    rcases hall p.2 hparse with hrefused | hnomatch
    · exact hrefused href
    · rw [hmatch] at hnomatch
      cases hnomatch

/-- A request line without the empty line after it. -/
def brokenOff : Str := lit "GET / HTTP/1.1\r\n"

theorem truncated_served : Truncated brokenOff ∧
    (openServer.processConnection 0 { reads := [brokenOff] } { world := () }).1.served.handler
      = some () := by
  refine ⟨⟨?_, ?_⟩, ?_⟩
  · decide
  · decide
  · decide +kernel

/-- The same request, broken off within its line. -/
theorem truncated_unserved_example :
    (openServer.processConnection 0 { reads := [lit "GET / HT", lit "TP/1.1\r"] }
        { world := () }).1.served.handler = none ↔
      ∀ req, Request.parse (upToLastCRLF [lit "GET / HT", lit "TP/1.1\r"].flatten) = some req →
        openServer.refused req ≠ none ∨ openServer.matchRequestWithHandler req = none :=
  truncated_unserved_iff ⟨by decide, by decide⟩

end JustEnough
