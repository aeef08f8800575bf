/-
What stands in front of the body of a response.

A client chooses the URI, the headers and the credentials of its request, and an echo or
a status page puts them into the body.  None of that gets in front of it.  Whatever
threads run at the same time, the status line and the headers of an answer are one of a
few that the configuration fixes (`ServerHead`), and a reader of the answer finds exactly
these headers and the body behind them (`answers_headed`).

The one head with free text in it names the realm that refuses.  A realm in quotes may
have line ends in its name, but then it is no prefix of any URI, since a URI has none.
-/
import JustEnough.Proofs.Counting
import JustEnough.Proofs.RequestCodec
import JustEnough.Proofs.ResponseCodec

namespace JustEnough

open ProxyHandler

/-- The status and the headers that a server with these options answers a URI with. -/
inductive ServerHead (opt : Options BuiltinHandler) (uri : Str) : ResponseCode → Headers → Prop
  | typed (mt : MIMEType) :
      ServerHead opt uri Response.code200OK [(lit "Content-Type", MIMETypeMap mt)]
  | notFound : ServerHead opt uri Response.code404NotFound [(lit "Content-Type", lit "text/plain")]
  /-- A file that could not be converted. -/
  | failed : ServerHead opt uri Response.code500InternalError []
  | refused {auth : Authentication} {name : Str} {realm : AuthenticationRealm}
      (hauth : opt.auth = some auth) (hrealm : LongestPrefix auth.realms (scanned uri) name realm) :
      ServerHead opt uri Response.code401Unauthorized [(lit "Content-Type", lit "text/html"),
        (lit "WWW-Authenticate", lit "Basic realm=\"" ++ name ++ lit "\"")]

/-- An answer to a raw request: none, or a response with such a head that is read back. -/
def AnswersWithHead (opt : Options BuiltinHandler) (arrival : Arrival Empty) (text : Str) : Prop :=
  match Request.parse arrival.raw with
  | none => text = []
  | some req => ∃ resp : Response, resp.toString = .ok text ∧
      ServerHead opt req.uri resp.code resp.headers ∧ ReadsBack resp

variable {opt : Options BuiltinHandler} {convertMarkdownToHtml : Str → Str}

/-! ### Every such head is read back -/

theorem printedHeader_contentType {value : Str} (hvalue : ¬CRLF <:+: value)
    (hspace : value.head? ≠ some (byte ' ')) : PrintedHeader (lit "Content-Type", value) := by
  have hcolon : byte ':' ∉ lit "Content-Type" := by decide
  have hline : ¬CRLF <+: lit "Content-Type" := by decide
  exact ⟨hcolon, hline, hvalue, hspace⟩

theorem printedHeader_type (mt : MIMEType) :
    PrintedHeader (lit "Content-Type", MIMETypeMap mt) := by
  apply printedHeader_contentType
  · cases mt <;> decide
  · cases mt <;> decide

/-- The name of a realm that a URI is under has no line end, as the URI has none. -/
theorem printedHeader_realm {uri name : Str} (huri : byte '\n' ∉ uri) (hname : name <+: uri) :
    PrintedHeader (lit "WWW-Authenticate", lit "Basic realm=\"" ++ name ++ lit "\"") := by
  have hline : byte '\n' ∉ name := fun hmem => huri (hname.subset hmem)
  have hcolon : byte ':' ∉ lit "WWW-Authenticate" := by decide
  have hfirst : ¬CRLF <+: lit "WWW-Authenticate" := by decide
  refine ⟨hcolon, hfirst, ?_, by simp [lit, byte]⟩
  intro hCRLF
  have hmem : byte '\n' ∈ lit "Basic realm=\"" ++ name ++ lit "\"" :=
    hCRLF.subset (by simp [CRLF, lit])
  have hfront : byte '\n' ∉ lit "Basic realm=\"" := by decide
  have hback : byte '\n' ∉ lit "\"" := by decide
  simp [hfront, hback, hline] at hmem

theorem ServerHead.known {uri : Str} {code : ResponseCode} {headers : Headers}
    (h : ServerHead opt uri code headers) :
    code ∈ Response.knownCodes ∧ code ≠ Response.code301Moved ∧ code ≠ Response.code302Found := by
  cases h <;> decide

theorem ServerHead.length_le {uri : Str} {code : ResponseCode} {headers : Headers}
    (h : ServerHead opt uri code headers) : headers.length ≤ 2 := by
  cases h <;> simp

theorem ServerHead.printed {uri : Str} {code : ResponseCode} {headers : Headers}
    (h : ServerHead opt uri code headers) (huri : byte '\n' ∉ uri) :
    ∀ header ∈ headers, PrintedHeader header := by
  intro header hmem
  cases h with
  | typed mt =>
      rw [List.mem_singleton.mp hmem]
      exact printedHeader_type mt
  | notFound =>
      rw [List.mem_singleton.mp hmem]
      exact printedHeader_type .text
  | failed => cases hmem
  | refused hauth hrealm =>
      have hname := hrealm.isPrefix.trans (scanned_isPrefix uri)
      rcases List.mem_cons.mp hmem with rfl | hmem
      · exact printedHeader_type .html
      · rw [List.mem_singleton.mp hmem]
        exact printedHeader_realm huri hname

/-- No such response is a redirect, so no header of it has to have a path. -/
theorem ServerHead.readsBack {uri : Str} {resp : Response} (h : ServerHead opt uri resp.code resp.headers)
    (huri : byte '\n' ∉ uri) : ReadsBack resp := by
  obtain ⟨hknown, h301, h302⟩ := h.known
  refine (readsBack_iff resp).mpr ⟨hknown, h.printed huri, ?_⟩
  intro header _ hredirect
  simp [isRedirect, h301, h302] at hredirect

/-! ### Handlers -/

/-- A file is sent with the type of its name. -/
theorem respondWith_headed (handler : StaticHandler) (filepath data uri : Str)
    (garbage : ResponseCode) :
    let resp := handler.respondWith convertMarkdownToHtml filepath data (.uninitialised garbage)
    ServerHead opt uri resp.code resp.headers := by
  unfold StaticHandler.respondWith
  simp only
  split
  · split
    · exact .failed
    · exact .typed .html
  · exact .typed (guessMIMEType filepath)

theorem static_headed {files : FileSystem} {handler : StaticHandler} {req : Request}
    {garbage : ResponseCode} {status : Status} {resp : Response}
    (h : handler.handleRequest files convertMarkdownToHtml req (.uninitialised garbage)
      = .ok (status, resp)) : ServerHead opt req.uri resp.code resp.headers := by
  unfold StaticHandler.handleRequest at h
  cases hpath : handler.filePath files req.uri with
  | error e =>
      rw [hpath] at h
      cases h
  | ok filepath =>
      rw [hpath] at h
      simp only [Except.map, openFile] at h
      cases hcontents : files.contents (cString filepath) with
      | none =>
          rw [hcontents] at h
          cases h
          exact .notFound
      | some data =>
          rw [hcontents] at h
          cases h
          exact respondWith_headed handler filepath data req.uri garbage

/-- **Every handler answers with such a head**, whatever the counters tell it. -/
theorem handleRequest_headed (outside : Surroundings Empty) (handler : BuiltinHandler) (req : Request)
    (garbage : ResponseCode) :
    (handler.handleRequest opt convertMarkdownToHtml outside req (.uninitialised garbage)).wp ()
      fun r _ => ServerHead opt req.uri r.2.code r.2.headers := by
  cases handler with
  | echo => exact .typed .text
  | notFound => exact .notFound
  | static s => exact Prog.wp_ofExcept fun r hr => static_headed hr
  | status =>
      show (StatusHandler.handleRequest (some opt) (.uninitialised garbage)).wp () _
      unfold StatusHandler.handleRequest
      refine Prog.wp_bind fun keys => Prog.wp_bind ?_
      have hrows : ∀ keys, (StatusHandler.requestCounts keys).wp () fun _ _ => True := by
        intro keys
        induction keys with
        | nil => trivial
        | cons k keys ih =>
            unfold StatusHandler.requestCounts
            exact Prog.wp_bind fun inner => Prog.wp_bind (Prog.wp_mono ih fun _ _ _ => trivial)
      exact Prog.wp_mono (hrows keys) fun rows _ _ => .typed .html
  | other type handler => cases handler

theorem refusal_headed {outside : Surroundings Empty} {req : Request} {auth : Authentication}
    (h : (countedServer opt convertMarkdownToHtml outside).refused req = some auth)
    (garbage : ResponseCode) :
    ServerHead opt req.uri (Webserver.refusal auth garbage req).code
      (Webserver.refusal auth garbage req).headers := by
  obtain ⟨hauth, hrequires, -⟩ := Webserver.refused_eq_some_iff.mp h
  obtain ⟨realm, hrealm⟩ := Option.isSome_iff_exists.mp hrequires
  obtain ⟨name, hlongest⟩ := mapHasPrefix_some_iff.mp hrealm
  have hname : realm.realm = name := auth.named name realm hlongest.entry
  unfold Webserver.refusal Authentication.generateFailedAuthenticationResponse
  rw [hrealm]
  simp only [hname]
  exact .refused hauth hlongest

/-! ### Answers -/

/-- The answer is counted and printed. -/
theorem countAndRespond_headed {arrival : Arrival Empty} {req : Request} {resp : Response}
    (hparse : Request.parse arrival.raw = some req) (h : ServerHead opt req.uri resp.code resp.headers) :
    (countAndRespond req resp).wp () fun text _ => AnswersWithHead opt arrival text := by
  have huri : byte '\n' ∉ req.uri := (Request.parse_framed hparse).1.uri.2
  unfold countAndRespond
  refine Prog.wp_bind fun _ => Prog.wp_ofExcept fun text htext => ?_
  rw [AnswersWithHead, hparse]
  exact ⟨resp, htext, h, h.readsBack huri⟩

theorem processArrival_headed (arrival : Arrival Empty) :
    (processArrival opt convertMarkdownToHtml arrival).wp () fun text _ =>
      AnswersWithHead opt arrival text := by
  unfold processArrival
  cases hparse : Request.parse arrival.raw with
  | none =>
      show AnswersWithHead opt arrival []
      rw [AnswersWithHead, hparse]
  | some req =>
      simp only
      cases hrefused : (countedServer opt convertMarkdownToHtml arrival.outside).refused req with
      | some auth =>
          simp only
          exact countAndRespond_headed hparse (refusal_headed hrefused arrival.garbage)
      | none =>
          simp only
          cases (countedServer opt convertMarkdownToHtml arrival.outside).matchRequestWithHandler req with
          | none => trivial
          | some handler =>
              refine Prog.wp_bind (Prog.wp_mono
                (handleRequest_headed arrival.outside handler req arrival.garbage) ?_)
              intro r _ hr
              exact countAndRespond_headed hparse hr

/--
**No client writes into the head of an answer.**  However the threads of a server take
turns, every text that was answered has a head that the options fix, and is read as the
response it was printed from.
-/
theorem answers_headed (opt : Options BuiltinHandler) (convertMarkdownToHtml : Str → Str)
    (counters : Counters) {s : Workers (Arrival Empty) Counters CounterCall CounterAnswer Fault Str}
    (hrun : Workers.Run (processArrival opt convertMarkdownToHtml) Counters.call counters s) :
    ∀ arrival text, (arrival, Outcome.returned text) ∈ s.finished → AnswersWithHead opt arrival text :=
  (hrun.returns fun arrival => processArrival_headed arrival).2

/-- A server that sends every request back. -/
def echoOptions : Options BuiltinHandler where
  handlerMap := ∅
  defaultHandler := some .echo
  auth := none

theorem echo_routes (outside : Surroundings Empty) : Routes (countedServer echoOptions id outside) := by
  intro req
  refine ⟨.echo, rfl, ?_⟩
  intro s h
  cases h

/-- A client that sends the text of a response in its header. -/
def splitting : Arrival Empty where
  raw := lit "GET /\r/ HTTP/1.1\r\nA: b\rHTTP/1.1 200 OK\r\n\r\n"
  outside := { isDirectory := fun _ => .ok false, contents := fun _ => none, others := nofun }
  garbage := 0

/-- The text is in the body of the answer, and the head is the server's. -/
theorem answers_headed_example : AnswersWithHead echoOptions splitting
    (lit "HTTP/1.1 200 OK\r\nContent-Type: text/plain\r\n\r\n" ++ splitting.raw) := by
  have hrun := processAll_run echo_routes [splitting] (s := { world := () }) .init
  have htext : ((countedServer echoOptions id splitting.outside).processRawRequest splitting.garbage
      splitting.raw { world := () }).1.response
        = .returned (lit "HTTP/1.1 200 OK\r\nContent-Type: text/plain\r\n\r\n" ++ splitting.raw) := by
    decide +kernel
  apply answers_headed echoOptions id {} hrun
  simp [processAll, htext]

end JustEnough
