/-
What the counters count.

A request is counted once, after its handler has returned and before its response is
printed; one that is rejected, or whose handler throws, is not.  So each thread enters
at most one pair of URI and status with the counters, the pair of its own answer, and
by the ledger rule the counters agree with the answers once every thread is done,
however their calls were interleaved.  Looking at the counters for the status page
enters nothing: an inner map that is put there has no counters in it.
-/
import JustEnough.Proofs.Options
import JustEnough.Server.Handlers

namespace JustEnough

/-! ### Entries -/

namespace MultiMapCounter

variable {A B : Type} [Ord A] [Ord B] [Std.TransOrd A] [Std.TransOrd B] [Std.LawfulEqOrd A]

/-- The counter, if there is one. -/
def entry (m : MultiMapCounter A B) (outerKey : A) (innerKey : B) : Option counter_t :=
  m.map[outerKey]?.bind (·[innerKey]?)

omit [Std.TransOrd A] [Std.LawfulEqOrd A] in
theorem count_eq_entry (m : MultiMapCounter A B) (a : A) (b : B) :
    m.count a b = (m.entry a b).getD 0 := by
  unfold count entry
  cases m.map[a]? with
  | none => rfl
  | some inner => exact Std.TreeMap.getD_eq_getD_getElem?

/-- An increment sets one counter, and makes it if it is not there. -/
theorem entry_increment [Std.LawfulEqOrd B] [DecidableEq A] [DecidableEq B] (m : MultiMapCounter A B)
    (a a' : A) (b b' : B) (delta : counter_t) : (m.increment a b delta).entry a' b'
      = if a = a' ∧ b = b' then some ((m.entry a b).getD 0 + delta) else m.entry a' b' := by
  unfold increment entry
  by_cases ha : a = a'
  · subst ha
    cases h : m.map[a]? with
    | none =>
        by_cases hb : b = b'
        · subst hb
          simp
        · have hcmp : compare b b' ≠ .eq := fun hc => hb (Std.LawfulEqCmp.eq_of_compare hc)
          simp [hb, hcmp]
    | some inner =>
        by_cases hb : b = b'
        · subst hb
          simp [Std.TreeMap.getD_eq_getD_getElem?]
        · have hcmp : compare b b' ≠ .eq := fun hc => hb (Std.LawfulEqCmp.eq_of_compare hc)
          simp [Std.TreeMap.getElem?_insert, hb, hcmp]
  · have hcmp : compare a a' ≠ .eq := fun hc => ha (Std.LawfulEqCmp.eq_of_compare hc)
    rw [if_neg fun h => ha h.1]
    cases h : m.map[a]? with
    | none => simp [Std.TreeMap.getElem?_insert, hcmp]
    | some inner => simp [Std.TreeMap.getElem?_insert, hcmp]

/-- A copy of an inner map leaves every counter as it is. -/
theorem entry_iterateKey (m : MultiMapCounter A B) (a a' : A) (b : B) :
    (m.iterateKey a).2.entry a' b = m.entry a' b := by
  unfold iterateKey
  cases h : m.map[a]? with
  | some inner => rfl
  | none =>
      unfold entry
      by_cases ha : compare a a' = .eq
      · have hsame := Std.LawfulEqCmp.eq_of_compare ha
        subst hsame
        simp [h]
      · simp [Std.TreeMap.getElem?_insert, ha]

end MultiMapCounter

/-! ### The ledger -/

/-- The counters are those of a collection of URIs and codes. -/
def Records (m : Counters) (ks : Multiset (Str × ResponseCode)) : Prop :=
  ∀ uri code, m.entry uri code
    = if ks.count (uri, code) = 0 then none else some (BitVec.ofNat 32 (ks.count (uri, code)))

/-- One increment by one is an entry; a job makes no more than one. -/
def counted : CounterCall → Option (Str × ResponseCode) → Option (Option (Str × ResponseCode))
  | .increment outerKey innerKey delta, none =>
    if delta = 1 then some (some (outerKey, innerKey)) else none
  | .increment .., some _ => none
  | .getKeys, e => some e
  | .iterateKey _, e => some e

theorem records_increment {m : Counters} {ks : Multiset (Str × ResponseCode)} (h : Records m ks)
    (uri : Str) (code : ResponseCode) :
    Records (m.increment uri code 1) (ks + (some (uri, code)).toList) := by
  intro uri' code'
  have hcount : (ks + ((some (uri, code)).toList : Multiset _)).count (uri', code')
      = ks.count (uri', code') + if uri = uri' ∧ code = code' then 1 else 0 := by
    simp [Multiset.count_singleton, eq_comm]
  rw [MultiMapCounter.entry_increment, hcount]
  by_cases hsame : uri = uri' ∧ code = code'
  · obtain ⟨rfl, rfl⟩ := hsame
    have hold : (m.entry uri code).getD 0 = BitVec.ofNat 32 (ks.count (uri, code)) := by
      rw [h uri code]
      split
      · rename_i hzero
        rw [hzero]
        rfl
      · rfl
    simpa [BitVec.ofNat_add] using hold
  · rw [if_neg hsame, if_neg hsame]
    exact h uri' code'

theorem counters_keepsLedger : Workers.KeepsLedger Counters.call Records counted := by
  intro q e e' hnote w others hrecords
  cases q with
  | increment outerKey innerKey delta =>
      cases e with
      | none =>
          simp only [counted] at hnote
          split at hnote
          · rename_i hone
            cases hnote
            subst hone
            have hrecords : Records w others := by simpa using hrecords
            exact records_increment hrecords outerKey innerKey
          · cases hnote
      | some _ => cases hnote
  | getKeys =>
      cases hnote
      exact hrecords
  | iterateKey outerKey =>
      cases hnote
      intro uri code
      show (w.iterateKey outerKey).2.entry uri code = _
      rw [MultiMapCounter.entry_iterateKey]
      exact hrecords uri code

/-! ### The answers -/

/-- The status in the first line of a response. -/
def statusOf (text : Str) : Option ResponseCode :=
  if lit "HTTP/1.1 " <+: text then (stoi ((text.drop 9).take 3)).toOption else none

/-- A response with a known code is printed with it. -/
theorem exists_status_of_known {resp : Response} (hknown : resp.code ∈ Response.knownCodes) :
    ∃ text, resp.toString = .ok text ∧ statusOf text = some resp.code := by
  obtain ⟨reason, -, hprint⟩ := Response.toString_of_known hknown
  obtain ⟨hnonneg, hlt⟩ := Response.knownCodes_bounded _ hknown
  refine ⟨_, hprint, ?_⟩
  generalize htext : lit "HTTP/1.1 " ++ Response.statusDigits resp.code.toNat ++ lit " " ++ reason ++
    CRLF ++ headerLines resp.headers ++ CRLF ++ resp.body = text
  have hfront : text = lit "HTTP/1.1 " ++ (Response.statusDigits resp.code.toNat ++
      (lit " " ++ reason ++ CRLF ++ headerLines resp.headers ++ CRLF ++ resp.body)) := by
    simpa using htext.symm
  have hdigits : (text.drop 9).take 3 = Response.statusDigits resp.code.toNat := by
    rw [hfront]
    rfl
  have hread : stoi (Response.statusDigits resp.code.toNat) = .ok resp.code := by
    have hnat : resp.code.toNat < 1000 := by omega
    rw [Response.stoi_statusDigits hnat, Int.toNat_of_nonneg hnonneg]
  rw [statusOf, if_pos ⟨_, hfront.symm⟩, hdigits, hread]
  rfl

/-- What an answer is counted as. -/
def answerEntry (arrival : Arrival Empty) (o : Outcome Fault Str) : Option (Str × ResponseCode) :=
  match Request.parse arrival.raw, o with
  | some req, .returned text => (statusOf text).map fun code => (req.uri, code)
  | _, _ => none

/-- A request that is accepted gets an answer, unless looking for a file throws. -/
def Answered (arrival : Arrival Empty) (o : Outcome Fault Str) : Prop :=
  ∀ req, Request.parse arrival.raw = some req →
    (∃ text code, o = .returned text ∧ statusOf text = some code) ∨
      ∃ path e, arrival.outside.isDirectory path = .error e ∧ o = .threw e

/-! ### Handlers -/

/-- A handler enters nothing; it gives a response with a known code, or looking for a file throws. -/
def HandlerEnd (files : FileSystem) (o : Outcome Fault (Status × Response))
    (e : Option (Str × ResponseCode)) : Prop :=
  e = none ∧ ((∃ status resp, o = .returned (status, resp) ∧ resp.code ∈ Response.knownCodes) ∨
    ∃ path err, files.isDirectory path = .error err ∧ o = .threw err)

theorem handlerEnd_known {files : FileSystem} {status : Status} {resp : Response}
    (h : resp.code ∈ Response.knownCodes) : HandlerEnd files (.returned (status, resp)) none :=
  ⟨rfl, Or.inl ⟨status, resp, rfl, h⟩⟩

/-- The handler can be given the request: a static one has a root, and its path is in front. -/
def Fits (handler : BuiltinHandler) (uri : Str) : Prop :=
  ∀ s, handler = .static s → s.filebase ≠ [] ∧ s.path <+: uri

/-- Reading the counters for the status page. -/
theorem requestCounts_tracks {Φ : Outcome Fault Str → Option (Str × ResponseCode) → Prop}
    (h : ∀ text, Φ (.returned text) none) (keys : List Str) :
    (StatusHandler.requestCounts keys).Tracks counted Φ none := by
  induction keys generalizing Φ with
  | nil => exact Prog.tracks_pure (h [])
  | cons k keys ih =>
      unfold StatusHandler.requestCounts
      apply Prog.tracks_bind
      apply Prog.tracks_query rfl
      intro inner
      apply Prog.tracks_bind
      apply ih
      intro rest
      exact h _

/-- A file is sent with a 200, unless its conversion fails. -/
theorem respondWith_known (handler : StaticHandler) (convertMarkdownToHtml : Str → Str)
    (filepath data : Str) (resp : Response) :
    (handler.respondWith convertMarkdownToHtml filepath data resp).code ∈ Response.knownCodes := by
  have h200 : Response.code200OK ∈ Response.knownCodes := by decide
  have h500 : Response.code500InternalError ∈ Response.knownCodes := by decide
  unfold StaticHandler.respondWith
  simp only
  split
  · split
    · exact h500
    · exact h200
  · exact h200

/-- The static handler throws only where the file system does. -/
theorem static_end (files : FileSystem) (convertMarkdownToHtml : Str → Str) {handler : StaticHandler}
    {req : Request} (hroot : handler.filebase ≠ []) (hpath : handler.path <+: req.uri)
    (resp : Response) :
    HandlerEnd files (.ofExcept (handler.handleRequest files convertMarkdownToHtml req resp))
      none := by
  obtain ⟨rest, hrest⟩ : ∃ rest, handler.requestPath req.uri = .ok rest := by
    have hcut : substr req.uri handler.path.length none = .ok (req.uri.drop handler.path.length) :=
      if_pos hpath.length_le
    exact ⟨_, by rw [StaticHandler.requestPath, hcut]; rfl⟩
  obtain ⟨filepath, hlocated⟩ : ∃ filepath, handler.located req.uri = .ok filepath := by
    obtain ⟨c, hc⟩ := Option.ne_none_iff_exists'.mp (mt List.getLast?_eq_none_iff.mp hroot)
    exact ⟨_, by simp only [StaticHandler.located, hrest, hc]; rfl⟩
  unfold StaticHandler.handleRequest StaticHandler.filePath
  rw [hlocated]
  cases hdir : files.isDirectory (cString filepath) with
  | error err => exact ⟨rfl, Or.inr ⟨cString filepath, err, hdir, by simp [hdir, Except.map, Outcome.ofExcept]⟩⟩
  | ok isDirectory =>
      simp only [hdir, Except.map, Outcome.ofExcept, openFile]
      split
      · exact handlerEnd_known (show Response.code404NotFound ∈ Response.knownCodes by decide)
      · exact handlerEnd_known (show Response.code401Unauthorized ∈ Response.knownCodes by decide)
      · exact handlerEnd_known (show Response.code500InternalError ∈ Response.knownCodes by decide)
      · exact handlerEnd_known (respondWith_known handler convertMarkdownToHtml _ _ resp)

theorem handleRequest_tracks (opt : Options BuiltinHandler) (convertMarkdownToHtml : Str → Str)
    (outside : Surroundings Empty) {handler : BuiltinHandler} {req : Request} (hfits : Fits handler req.uri)
    (resp : Response) :
    (handler.handleRequest opt convertMarkdownToHtml outside req resp).Tracks counted
      (HandlerEnd outside.toFileSystem) none := by
  cases handler with
  | echo =>
      exact Prog.tracks_pure
        (handlerEnd_known (show Response.code200OK ∈ Response.knownCodes by decide))
  | notFound =>
      exact Prog.tracks_pure
        (handlerEnd_known (show Response.code404NotFound ∈ Response.knownCodes by decide))
  | static s =>
      obtain ⟨hroot, hpath⟩ := hfits s rfl
      exact Prog.tracks_ofExcept (static_end outside.toFileSystem convertMarkdownToHtml hroot hpath resp)
  | status =>
      show (StatusHandler.handleRequest (some opt) resp).Tracks _ _ _
      unfold StatusHandler.handleRequest
      apply Prog.tracks_bind
      apply Prog.tracks_query rfl
      intro keys
      apply Prog.tracks_bind
      apply requestCounts_tracks
      intro rows
      exact handlerEnd_known (show Response.code200OK ∈ Response.knownCodes by decide)
  | other type handler => cases handler

/-! ### Requests -/

/-- The increment, and then the answer it is for. -/
theorem countAndRespond_tracks {arrival : Arrival Empty} {req : Request} {resp : Response}
    (hparse : Request.parse arrival.raw = some req) (hknown : resp.code ∈ Response.knownCodes) :
    (countAndRespond req resp).Tracks counted (Workers.EndsAs answerEntry Answered arrival) none := by
  obtain ⟨text, hprint, hstatus⟩ := exists_status_of_known hknown
  unfold countAndRespond
  apply Prog.tracks_bind
  apply Prog.tracks_query rfl
  intro _
  apply Prog.tracks_ofExcept
  rw [hprint]
  refine ⟨?_, fun req' _ => Or.inl ⟨_, _, rfl, hstatus⟩⟩
  simp [answerEntry, hparse, Outcome.ofExcept, hstatus]

/-- Every request finds a handler that can be given it. -/
def Routes (ws : Webserver BuiltinHandler Unit) : Prop :=
  ∀ req, ∃ handler, ws.matchRequestWithHandler req = some handler ∧ Fits handler req.uri

/-- **What a thread enters is what it answers.** -/
theorem processArrival_tracks {opt : Options BuiltinHandler} {convertMarkdownToHtml : Str → Str}
    (hroutes : ∀ outside, Routes (countedServer opt convertMarkdownToHtml outside)) (arrival : Arrival Empty) :
    (processArrival opt convertMarkdownToHtml arrival).Tracks counted
      (Workers.EndsAs answerEntry Answered arrival) none := by
  unfold processArrival
  cases hparse : Request.parse arrival.raw with
  | none =>
      refine Prog.tracks_pure ⟨?_, fun req hreq => ?_⟩
      · simp [answerEntry, hparse]
      · rw [hparse] at hreq
        cases hreq
  | some req =>
      cases hrefused : (countedServer opt convertMarkdownToHtml arrival.outside).refused req with
      | some auth =>
          have hcode : (Webserver.refusal auth arrival.garbage req).code ∈ Response.knownCodes := by
            rw [Webserver.refusal, Authentication.generateFailed_code]
            decide
          simp only [hrefused]
          exact countAndRespond_tracks hparse hcode
      | none =>
          obtain ⟨handler, hmatch, hfits⟩ := hroutes arrival.outside req
          simp only [hrefused, hmatch]
          apply Prog.tracks_bind
          apply Prog.tracks_mono (handleRequest_tracks opt convertMarkdownToHtml arrival.outside hfits _)
          rintro o e ⟨rfl, ⟨status, resp, rfl, hknown⟩ | ⟨path, err, hthrew, rfl⟩⟩
          · exact countAndRespond_tracks hparse hknown
          · refine ⟨?_, fun req' _ => Or.inr ⟨path, err, hthrew, rfl⟩⟩
            simp [answerEntry, hparse]

/-! ### A server that was configured -/

/-- The server has that handler. -/
def HasHandler (opt : Options BuiltinHandler) (handler : BuiltinHandler) : Prop :=
  (∃ path : Str, opt.handlerMap[path]? = some handler) ∨ opt.defaultHandler = some handler

/-- Every static handler has a root. -/
def Rooted (opt : Options BuiltinHandler) : Prop :=
  ∀ s, HasHandler opt (.static s) → s.filebase ≠ []

theorem initFrom_path {handler s : StaticHandler} {issetMarkdown : Bool} {config : NginxConfig}
    (h : StaticHandler.initFrom handler issetMarkdown config = some s) : s.path = handler.path := by
  induction config generalizing handler issetMarkdown with
  | nil =>
      cases h
      rfl
  | cons statement rest ih =>
      unfold StaticHandler.initFrom at h
      split at h
      · split at h
        · exact (ih h).trans rfl
        · split at h
          · exact (ih h).trans rfl
          · cases h
      · cases h

/-- A static handler that was made for a path has it. -/
theorem creates_path {type path : Str} {block : NginxConfig} {s : StaticHandler}
    (h : Creates builtinHandlers type path block (.static s)) : s.path = path := by
  obtain ⟨init, hinit, hnew⟩ := h
  unfold createByName builtinHandlers at hinit
  split at hinit
  · cases hinit
    cases hnew
  split at hinit
  · cases hinit
    have hstatic : (StaticHandler.init path block).map RequestHandler.static
        = some (RequestHandler.static s : BuiltinHandler) := by
      simpa using hnew
    obtain ⟨s', hs', hsame⟩ := Option.map_eq_some_iff.mp hstatic
    cases hsame
    exact initFrom_path hs'
  split at hinit
  · cases hinit
    cases hnew
  split at hinit
  · cases hinit
    cases hnew
  · cases hinit

theorem builtinHandlers_notFound : HasNotFoundHandler builtinHandlers := by
  refine ⟨.plain .notFound, ?_, fun _ _ => ⟨.notFound, rfl⟩⟩
  unfold builtinHandlers
  rw [if_neg (by decide), if_neg (by decide), if_neg (by decide), if_pos rfl]

/-- **A loaded server routes every request to a handler that can be given it.** -/
theorem loaded_routes {text : Str} {opt : LoadedOptions BuiltinHandler}
    (hload : loadOptionsFromStream builtinHandlers text .fresh = .ok (some opt))
    (hroot : Rooted opt.toOptions) (convertMarkdownToHtml : Str → Str)
    (outside : Surroundings Empty) : Routes (countedServer opt.toOptions convertMarkdownToHtml outside) := by
  obtain ⟨config, st, -, hloaded, hfinish⟩ := loadOptionsFromStream_eq_some hload
  have hdescribes := finish_describes builtinHandlers_notFound hloaded hfinish
  obtain ⟨default, hdefault, hmade⟩ := hdescribes.default
  intro req
  cases hmap : mapHasPrefix opt.handlerMap req.uri with
  | some handler =>
      refine ⟨handler, by simp [Webserver.matchRequestWithHandler, countedServer, hmap], ?_⟩
      rintro s rfl
      obtain ⟨path, hlongest⟩ := mapHasPrefix_some_iff.mp hmap
      refine ⟨hroot s (Or.inl ⟨path, hlongest.entry⟩), ?_⟩
      have hrel := hdescribes.handlers path
      rw [hlongest.entry] at hrel
      generalize lastFor (lit "path") path config = last at hrel
      cases hrel with
      | some hpath =>
          obtain ⟨type, block, -, -, hcreates⟩ := hpath
          rw [creates_path hcreates]
          exact hlongest.isPrefix.trans (scanned_isPrefix req.uri)
  | none =>
      refine ⟨default, by simp [Webserver.matchRequestWithHandler, countedServer, hmap, hdefault], ?_⟩
      rintro s rfl
      refine ⟨hroot s (Or.inr hdefault), ?_⟩
      have hpath : s.path = [] := by
        cases hlast : lastOf (lit "default") config with
        | none =>
            rw [hlast] at hmade
            exact creates_path hmade
        | some statement =>
            rw [hlast] at hmade
            obtain ⟨type, block, -, -, hcreates⟩ := hmade
            exact creates_path hcreates
      rw [hpath]
      exact List.nil_prefix

/-! ### One request after the other -/

section Sequential

variable {O : Type} (opt : Options (RequestHandler O)) (convertMarkdownToHtml : Str → Str)

theorem run_countAndRespond (req : Request) (resp : Response) (m : Prog.Mem Unit Counters CounterCall) :
    ∃ asked, (countAndRespond req resp).run (Workers.answer Counters.call) m
      = (Webserver.respond resp, { m with env := m.env.increment req.uri resp.code 1, asked }) := by
  unfold countAndRespond Webserver.respond
  rw [Prog.run_bind]
  cases resp.toString with
  | ok text => exact ⟨_, rfl⟩
  | error e => exact ⟨_, rfl⟩

theorem countedServer_handleRequest (outside : Surroundings O) (handler : RequestHandler O)
    (req : Request) (resp : Response) (s : ServerState Unit) :
    (countedServer opt convertMarkdownToHtml outside).handleRequest handler req resp s
      = (((handler.handleRequest opt convertMarkdownToHtml outside req resp).run
            (Workers.answer Counters.call)
            { shared := (), held := false, env := s.counters, asked := [] }).1,
          { counters := ((handler.handleRequest opt convertMarkdownToHtml outside req resp).run
              (Workers.answer Counters.call)
              { shared := (), held := false, env := s.counters, asked := [] }).2.env, world := () }) :=
  rfl

/-- **A thread alone does what `processRawRequest` does.** -/
theorem run_processArrival (arrival : Arrival O) (s : ServerState Unit) :
    ∃ m, (processArrival opt convertMarkdownToHtml arrival).run (Workers.answer Counters.call)
        { shared := (), held := false, env := s.counters, asked := [] }
      = (((countedServer opt convertMarkdownToHtml arrival.outside).processRawRequest arrival.garbage
          arrival.raw s).1.response, m) ∧
      m.env = ((countedServer opt convertMarkdownToHtml arrival.outside).processRawRequest
        arrival.garbage arrival.raw s).2.counters := by
  unfold processArrival Webserver.processRawRequest
  cases Request.parse arrival.raw with
  | none => exact ⟨_, rfl, rfl⟩
  | some req =>
      cases hrefused : (countedServer opt convertMarkdownToHtml arrival.outside).refused req with
      | some auth =>
          obtain ⟨asked, hrun⟩ := run_countAndRespond req (Webserver.refusal auth arrival.garbage req)
            { shared := (), held := false, env := s.counters, asked := [] }
          simp only [hrefused, hrun]
          exact ⟨_, rfl, rfl⟩
      | none =>
          cases hmatch : (countedServer opt convertMarkdownToHtml arrival.outside).matchRequestWithHandler
              req with
          | none =>
              simp only [hrefused, hmatch, Webserver.dispatch]
              exact ⟨_, rfl, rfl⟩
          | some handler =>
              simp only [hrefused, hmatch, Webserver.dispatch, Prog.run_bind,
                countedServer_handleRequest]
              generalize (handler.handleRequest opt convertMarkdownToHtml arrival.outside req
                (.uninitialised arrival.garbage)).run (Workers.answer Counters.call)
                { shared := (), held := false, env := s.counters, asked := [] } = r
              obtain ⟨o, m⟩ := r
              cases o with
              | returned a =>
                  obtain ⟨status, resp⟩ := a
                  obtain ⟨asked, hrun⟩ := run_countAndRespond req resp m
                  rw [Prog.andThen_returned, hrun]
                  exact ⟨_, rfl, rfl⟩
              | threw e => exact ⟨_, rfl, rfl⟩
              | running => exact ⟨_, rfl, rfl⟩
              | stuck => exact ⟨_, rfl, rfl⟩

variable {opt : Options BuiltinHandler} {convertMarkdownToHtml}

/-- Requests one by one are a run in which one thread at a time is under way. -/
theorem processAll_run (hroutes : ∀ outside, Routes (countedServer opt convertMarkdownToHtml outside))
    {m : Counters} (arrivals : List (Arrival Empty)) : ∀ {s : ServerState Unit}
      {finished : List (Arrival Empty × Outcome Fault Str)},
      Workers.Run (processArrival opt convertMarkdownToHtml) Counters.call m
        { object := s.counters, active := [], finished } →
      Workers.Run (processArrival opt convertMarkdownToHtml) Counters.call m {
        object := (processAll opt convertMarkdownToHtml arrivals s).2.counters
        active := []
        finished := finished ++ (processAll opt convertMarkdownToHtml arrivals s).1 } := by
  induction arrivals with
  | nil =>
      intro s finished h
      simpa [processAll] using h
  | cons arrival rest ih =>
      intro s finished h
      obtain ⟨mem, hrun, henv⟩ := run_processArrival opt convertMarkdownToHtml arrival s
      have halone := (h.start arrival).alone
        (m := { shared := (), held := false, env := s.counters, asked := [] })
        (processArrival_tracks hroutes arrival)
      rw [hrun, henv] at halone
      have hrest := ih halone
      rw [List.append_assoc] at hrest
      exact hrest

end Sequential

/-! ### The counters -/

/-- How many answers there are with that URI and status. -/
def answeredAs (uri : Str) (code : ResponseCode) (log : List (Arrival Empty × Outcome Fault Str)) : Nat :=
  log.countP fun f => answerEntry f.1 f.2 = some (uri, code)

theorem count_finishedEntries (uri : Str) (code : ResponseCode)
    (log : List (Arrival Empty × Outcome Fault Str)) :
    (Workers.finishedEntries answerEntry log).count (uri, code) = answeredAs uri code log := by
  induction log using List.reverseRecOn with
  | nil => rfl
  | append_singleton log f ih =>
      obtain ⟨arrival, o⟩ := f
      rw [Workers.finishedEntries_concat, Multiset.count_add, ih, answeredAs, answeredAs,
        List.countP_append]
      cases hentry : answerEntry arrival o with
      | none => simp [hentry]
      | some k => simp [hentry, Multiset.count_singleton, eq_comm]

/-- The counters agree with what was answered. -/
structure Exact (m : Counters) (log : List (Arrival Empty × Outcome Fault Str)) : Prop where
  count : ∀ uri code, (m.count uri code).toInt = answeredAs uri code log
  /-- There is a counter for what was answered, and no other. -/
  entry : ∀ uri code, m.entry uri code = none ↔ answeredAs uri code log = 0
  /-- Every request that was accepted was answered, unless looking for a file threw. -/
  answered : ∀ f ∈ log, Answered f.1 f.2

theorem exact_of_run {opt : Options BuiltinHandler} {convertMarkdownToHtml : Str → Str}
    (hroutes : ∀ outside, Routes (countedServer opt convertMarkdownToHtml outside))
    {s : Workers (Arrival Empty) Counters CounterCall CounterAnswer Fault Str}
    (hrun : Workers.Run (processArrival opt convertMarkdownToHtml) Counters.call {} s)
    (hover : s.active = []) (hfew : s.finished.length < 2 ^ 31) : Exact s.object s.finished := by
  have hstart : Records {} 0 := by
    intro uri code
    simp [MultiMapCounter.entry]
  obtain ⟨hrecords, hgood⟩ := hrun.ledger counters_keepsLedger
    (fun arrival => processArrival_tracks hroutes arrival) hstart hover
  refine ⟨fun uri code => ?_, fun uri code => ?_, hgood⟩
  · have hle : answeredAs uri code s.finished ≤ s.finished.length := List.countP_le_length
    rw [MultiMapCounter.count_eq_entry, hrecords uri code, count_finishedEntries]
    split
    · rename_i hzero
      rw [hzero]
      rfl
    · rw [Option.getD_some, BitVec.toInt_ofNat', Int.bmod_eq_of_le (by omega) (by omega)]
  · rw [hrecords uri code, count_finishedEntries]
    simp

theorem processAll_length (opt : Options BuiltinHandler) (convertMarkdownToHtml : Str → Str)
    (arrivals : List (Arrival Empty)) (s : ServerState Unit) :
    (processAll opt convertMarkdownToHtml arrivals s).1.length = arrivals.length := by
  induction arrivals generalizing s with
  | nil => rfl
  | cons arrival rest ih => simp [processAll, ih]

/--
**The counters are exact**, for a loaded server whose static handlers have roots: after
any interleaving of threads that are done, and after requests one by one.  A request that
is rejected makes no call of the counters at all.
-/
theorem counters_exact {text : Str} {opt : LoadedOptions BuiltinHandler}
    (hload : loadOptionsFromStream builtinHandlers text .fresh = .ok (some opt))
    (hroot : Rooted opt.toOptions) (convertMarkdownToHtml : Str → Str) :
    (∀ s : Workers (Arrival Empty) Counters CounterCall CounterAnswer Fault Str,
      Workers.Run (processArrival opt.toOptions convertMarkdownToHtml) Counters.call {} s →
      s.active = [] → s.finished.length < 2 ^ 31 → Exact s.object s.finished) ∧
    (∀ arrivals : List (Arrival Empty), arrivals.length < 2 ^ 31 →
      Exact (processAll opt.toOptions convertMarkdownToHtml arrivals { world := () }).2.counters
        (processAll opt.toOptions convertMarkdownToHtml arrivals { world := () }).1) ∧
    ∀ arrival : Arrival Empty, Request.parse arrival.raw = none →
      processArrival opt.toOptions convertMarkdownToHtml arrival = pure [] := by
  have hroutes := loaded_routes hload hroot convertMarkdownToHtml
  refine ⟨fun s hrun hover hfew => exact_of_run hroutes hrun hover hfew, fun arrivals hfew => ?_,
    fun arrival hparse => by rw [processArrival, hparse]⟩
  have hrun := processAll_run hroutes arrivals (s := { world := () }) .init
  apply exact_of_run hroutes hrun rfl
  rw [List.nil_append, processAll_length]
  exact hfew

/-- A server with a handler of each kind. -/
def countedConfig : Str :=
  lit "port 8080; path /e EchoHandler \x7b\x7d path /status StatusHandler \x7b\x7d " ++
    lit "path /s StaticHandler \x7b root /www; \x7d"

theorem countedConfig_loads : ∃ opt : LoadedOptions BuiltinHandler,
    loadOptionsFromStream builtinHandlers countedConfig .fresh = .ok (some opt) ∧
      Rooted opt.toOptions := by
  obtain ⟨opt, hload⟩ := exists_of_isSome_join
    (x := loadOptionsFromStream builtinHandlers countedConfig .fresh) (by decide +kernel)
  have hhandlers : (loadOptionsFromStream builtinHandlers countedConfig .fresh).toOption.join.map
      (fun o => (o.handlerMap.toList, o.defaultHandler)) = some
        ([(lit "/e", .echo), (lit "/s", .static { filebase := lit "/www", path := lit "/s" }),
          (lit "/status", .status)], some .notFound) := by
    decide +kernel
  refine ⟨opt, hload, ?_⟩
  rw [hload] at hhandlers
  obtain ⟨hmap, hdefault⟩ : opt.handlerMap.toList = _ ∧ opt.defaultHandler = _ := by
    simpa [Except.toOption] using hhandlers
  rintro s (⟨path, hpath⟩ | hnone)
  · have hmem := Std.TreeMap.mem_toList_iff_getElem?_eq_some.mpr hpath
    rw [hmap] at hmem
    obtain ⟨-, rfl⟩ : path = lit "/s" ∧ s = { filebase := lit "/www", path := lit "/s" } := by
      simpa using hmem
    decide
  · rw [hdefault] at hnone
    cases hnone

theorem counters_exact_example : ∃ opt : LoadedOptions BuiltinHandler,
    loadOptionsFromStream builtinHandlers countedConfig .fresh = .ok (some opt) ∧
    (∀ s : Workers (Arrival Empty) Counters CounterCall CounterAnswer Fault Str,
      Workers.Run (processArrival opt.toOptions id) Counters.call {} s →
      s.active = [] → s.finished.length < 2 ^ 31 → Exact s.object s.finished) ∧
    (∀ arrivals : List (Arrival Empty), arrivals.length < 2 ^ 31 →
      Exact (processAll opt.toOptions id arrivals { world := () }).2.counters
        (processAll opt.toOptions id arrivals { world := () }).1) ∧
    ∀ arrival : Arrival Empty, Request.parse arrival.raw = none →
      processArrival opt.toOptions id arrival = pure [] := by
  obtain ⟨opt, hload, hroot⟩ := countedConfig_loads
  exact ⟨opt, hload, counters_exact hload hroot id⟩

end JustEnough
