/-
`webserver.cc`, from a client's socket to a raw request: `readStrUntil` and
`processConnection`.

A client is the list of what the reads of its socket give; after the last one every
read fails, by an end of file or by an error.  `read_until` reads into a buffer until
the delimiter is in it, answers with the length up to and including the delimiter, and
leaves whatever came after it in the buffer; where the reads fail first it answers 0.

The loop of `processConnection` adds one line after another to the request, stops at a
line of at most two bytes, and never looks at the error it was given.
-/
import JustEnough.Server.Webserver

namespace JustEnough

/-- The buffer of a connection, and what the reads still to come will give. -/
structure Connection where
  buf : Str := []
  reads : List Str
  deriving DecidableEq, Repr

namespace Connection

/-- `read_until`: `bytes_read`, whether the error is set, and the connection after it. -/
def readUntil (termChar : Str) : Str → List Str → Nat × Bool × Connection
  | buf, reads =>
    match findFrom termChar buf with
    | some n => (n + termChar.length, false, { buf, reads })
    | none =>
      match reads with
      | [] => (0, true, { buf, reads := [] })
      | chunk :: reads => readUntil termChar (buf ++ chunk) reads
termination_by structural _ reads => reads

/-- The line that was read, the error, and the connection after it. -/
def readStrUntil (c : Connection) (termChar : Str) : Str × Bool × Connection :=
  match readUntil termChar c.buf c.reads with
  | (bytesRead, err, c') => (c'.buf.take bytesRead, err, { c' with buf := c'.buf.drop bytesRead })

/-- Everything that the client still has to say. -/
def stream (c : Connection) : Str := c.buf ++ c.reads.flatten

/-- Reading moves bytes into the buffer and loses none. -/
theorem readUntil_stream (termChar : Str) :
    ∀ (buf : Str) (reads : List Str),
      (readUntil termChar buf reads).2.2.stream = buf ++ reads.flatten := by
  intro buf reads
  induction reads generalizing buf with
  | nil =>
      unfold readUntil
      cases findFrom termChar buf <;> rfl
  | cons chunk reads ih =>
      unfold readUntil
      cases findFrom termChar buf with
      | some n => rfl
      | none => simpa using ih (buf ++ chunk)

theorem readStrUntil_stream {c c' : Connection} {termChar line : Str} {err : Bool}
    (h : c.readStrUntil termChar = (line, err, c')) : c.stream = line ++ c'.stream := by
  have hstream := readUntil_stream termChar c.buf c.reads
  simp only [readStrUntil, Prod.mk.injEq] at h
  obtain ⟨rfl, -, rfl⟩ := h
  rw [stream, ← hstream]
  simp [stream, ← List.append_assoc]

/-- The `while (true)` loop of `processConnection`: `req`, and the connection after it. -/
def readRequest (c : Connection) (req : Str) : Str × Connection :=
  match _h : c.readStrUntil CRLF with
  | (line, _, c') =>
    if _hshort : line.length ≤ 2 then (req ++ line, c') else readRequest c' (req ++ line)
termination_by c.stream.length
decreasing_by
  rw [readStrUntil_stream _h, List.length_append]
  omega

end Connection

namespace Webserver

variable {H W : Type} (ws : Webserver H W)

/-- What a connection came to, and the response that was written to the socket, if any. -/
structure Connected (H : Type) where
  served : Served H
  written : Option Str

/-- An exception on the way leaves `processConnection` before anything is written. -/
def processConnection (garbage : ResponseCode) (c : Connection) (s : ServerState W) :
    Connected H × ServerState W :=
  match ws.processRawRequest garbage (c.readRequest []).1 s with
  | (served, s') =>
    match served.response with
    | .returned response =>
      if response = [] then ({ served, written := none }, s')
      else ({ served, written := some response }, s')
    | _ => ({ served, written := none }, s')

/-- The handler a raw request is handed to, and the request it is handed. -/
def handed (reqStr : Str) : Option (H × Request) :=
  match Request.parse reqStr with
  | none => none
  | some req =>
    match ws.refused req with
    | some _ => none
    | none => (ws.matchRequestWithHandler req).map fun handler => (handler, req)

variable {ws : Webserver H W}

theorem handed_eq_some_iff {reqStr : Str} {handler : H} {req : Request} :
    ws.handed reqStr = some (handler, req) ↔ Request.parse reqStr = some req ∧
      ws.refused req = none ∧ ws.matchRequestWithHandler req = some handler := by
  unfold handed
  cases hparse : Request.parse reqStr with
  | none => simp
  | some req' =>
      cases href : ws.refused req' with
      | some auth =>
          simp only [href, reduceCtorEq, Option.some.injEq, false_iff, not_and]
          intro hreq hnone
          rw [← hreq, href] at hnone
          cases hnone
      | none =>
          simp only [href, Option.map_eq_some_iff, Prod.mk.injEq, Option.some.injEq]
          constructor
          · rintro ⟨h, hmatch, rfl, rfl⟩
            exact ⟨rfl, href, hmatch⟩
          · rintro ⟨rfl, -, hmatch⟩
            exact ⟨handler, hmatch, rfl, rfl⟩

/-- **A handler runs exactly when the request is handed to it.** -/
theorem processRawRequest_handler (garbage : ResponseCode) (reqStr : Str) (s : ServerState W) :
    (ws.processRawRequest garbage reqStr s).1.handler = (ws.handed reqStr).map (·.1) := by
  unfold processRawRequest handed
  cases Request.parse reqStr with
  | none => rfl
  | some req =>
      cases href : ws.refused req with
      | some auth => simp [href]
      | none =>
          cases hmatch : ws.matchRequestWithHandler req with
          | none => simp [href, dispatch, hmatch]
          | some handler =>
              simp only [href, dispatch, hmatch]
              split <;> rfl

theorem processConnection_handler (garbage : ResponseCode) (c : Connection) (s : ServerState W) :
    (ws.processConnection garbage c s).1.served.handler
      = (ws.handed (c.readRequest []).1).map (·.1) := by
  rw [← processRawRequest_handler garbage _ s]
  unfold processConnection
  cases ws.processRawRequest garbage (c.readRequest []).1 s with
  | mk served s' =>
      simp only
      cases served.response with
      | returned response =>
          simp only
          split <;> rfl
      | threw e => rfl
      | running => rfl
      | stuck => rfl

end Webserver

end JustEnough
