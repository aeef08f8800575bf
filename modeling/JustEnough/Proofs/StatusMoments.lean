/-
What the status page says while other threads count.

The page asks for the keys, and then for one inner map after the other; between two of
these calls other threads may count.  So the page need not be the counters at any one
moment.  But each of its parts is the counters at some moment while the request was under
way (`replay_status`), and counters only grow.  So a number on the page lies between what
was counted before the request began and what was counted when it ended, and nothing that
was counted before is missing (`status_counts`).  A page that is asked for after another
was answered is never behind it (`status_monotone`).
-/
import JustEnough.Lib.Timeline
import JustEnough.Proofs.StatusPage

namespace JustEnough

open StatusHandler

variable {O : Type}

/-! ### The log and the counters -/

/-- A call that counts adds one. -/
def CountsByOne : CounterCall → Prop
  | .increment _ _ delta => delta = 1
  | _ => True

/-- An increment of a counter. -/
def Increments (uri : Str) (code : ResponseCode) : CounterCall → Bool
  | .increment outerKey innerKey _ => outerKey = uri && innerKey = code
  | _ => false

/-- How often a counter was incremented. -/
def countedBy (log : List CounterCall) (uri : Str) (code : ResponseCode) : Nat :=
  log.countP (Increments uri code)

theorem countedBy_take_le (log : List CounterCall) (uri : Str) (code : ResponseCode) {first last : Nat}
    (h : first ≤ last) : countedBy (log.take first) uri code ≤ countedBy (log.take last) uri code :=
  (List.take_prefix_take_left h).sublist.countP_le

/-- The counters are those of the log. -/
theorem entry_objectAfter {log : List CounterCall} (h : ∀ q ∈ log, CountsByOne q) (uri : Str)
    (code : ResponseCode) : (objectAfter Counters.call {} log).entry uri code
      = if countedBy log uri code = 0 then none else some (BitVec.ofNat 32 (countedBy log uri code)) := by
  induction log using List.reverseRecOn with
  | nil => simp [objectAfter, MultiMapCounter.entry, countedBy]
  | append_singleton log q ih =>
      have hlog := ih fun q' hq' => h q' (by simp [hq'])
      rw [objectAfter, List.foldl_append, List.foldl_cons, List.foldl_nil, ← objectAfter]
      cases q with
      | increment outerKey innerKey delta =>
          have hdelta : delta = 1 := h (.increment outerKey innerKey delta) (by simp)
          have hcall : (Counters.call (.increment outerKey innerKey delta) (objectAfter Counters.call {} log)).2
              = (objectAfter Counters.call {} log).increment outerKey innerKey 1 := by rw [hdelta]; rfl
          rw [hcall, MultiMapCounter.entry_increment]
          by_cases hsame : outerKey = uri ∧ innerKey = code
          · obtain ⟨rfl, rfl⟩ := hsame
            have hcount : countedBy (log ++ [.increment outerKey innerKey delta]) outerKey innerKey
                = countedBy log outerKey innerKey + 1 := by simp [countedBy, Increments]
            rw [hcount, hlog]
            by_cases hzero : countedBy log outerKey innerKey = 0
            · simp [hzero]
            · simp [hzero, BitVec.ofNat_add]
          · have hcount : countedBy (log ++ [.increment outerKey innerKey delta]) uri code
                = countedBy log uri code := by
              simp only [countedBy, List.countP_append, List.countP_singleton, Increments]
              simp [hsame]
            rw [if_neg hsame, hcount, hlog]
      | getKeys =>
          have hcount : countedBy (log ++ [.getKeys]) uri code = countedBy log uri code := by
            simp [countedBy, Increments]
          rw [hcount]
          exact hlog
      | iterateKey outerKey =>
          have hcount : countedBy (log ++ [.iterateKey outerKey]) uri code = countedBy log uri code := by
            simp [countedBy, Increments]
          rw [hcount]
          exact (MultiMapCounter.entry_iterateKey _ _ _ _).trans hlog

/-- A request counts by one, if it does. -/
theorem processArrival_countsByOne {opt : Options (RequestHandler O)}
    {convertMarkdownToHtml : Str → Str} (arrival : Arrival O) :
    (processArrival opt convertMarkdownToHtml arrival).Calls CountsByOne := by
  refine processArrival_calls ?_ fun req code _ => rfl
  intro q hreads
  cases q with
  | increment => cases hreads
  | getKeys => trivial
  | iterateKey => trivial

/-! ### What the page is made of -/

/-- A key and its counters. -/
abbrev TableRow := Str × List (ResponseCode × counter_t)

def tableText (table : List TableRow) : Str := table.flatMap fun row => countRows row.1 true row.2

/-- The rows for keys, each from the counters at a moment of its own. -/
def tableAt (keys : List Str) (ws : List Counters) : List TableRow :=
  (keys.zip ws).map fun x => (x.1, (x.2.iterateKey x.1).1.toList)

theorem replay_requestCounts {keys : List Str} {ws : List Counters} {text : Str}
    (h : (requestCounts keys).replay Counters.call ws = some (.returned text)) :
    ws.length = keys.length ∧ text = tableText (tableAt keys ws) := by
  induction keys generalizing ws text with
  | nil =>
      obtain ⟨rfl, rfl⟩ := Prog.replay_pure h
      exact ⟨rfl, rfl⟩
  | cons k keys ih =>
      obtain ⟨first, second, inner, rfl, hfirst, hsecond⟩ := Prog.replay_bind h
      obtain ⟨w, rfl, rfl⟩ := Prog.replay_query hfirst
      obtain ⟨third, last, rest, rfl, hthird, hlast⟩ := Prog.replay_bind hsecond
      obtain ⟨rfl, rfl⟩ := Prog.replay_pure hlast
      obtain ⟨hlength, rfl⟩ := ih hthird
      refine ⟨by simp [hlength], ?_⟩
      rw [List.append_nil]
      rfl

/-- The page with a table. -/
def statusResponse (opt : Options (RequestHandler O)) (garbage : ResponseCode)
    (table : List TableRow) : Response :=
  (((Response.uninitialised garbage).setStatus Response.code200OK).setBody
    (pageTop opt ++ tableText table ++ pageFoot)).addHeader (lit "Content-Type") (lit "text/html")

section Page

variable {opt : Options (RequestHandler O)} {convertMarkdownToHtml : Str → Str}

/-- A request that the status handler answers. -/
def StatusRequest (opt : Options (RequestHandler O)) (convertMarkdownToHtml : Str → Str)
    (arrival : Arrival O) : Prop :=
  ∃ req, Request.parse arrival.raw = some req ∧
    (countedServer opt convertMarkdownToHtml arrival.outside).refused req = none ∧
    (countedServer opt convertMarkdownToHtml arrival.outside).matchRequestWithHandler req = some .status

/-- The answer to such a request: the keys at the first of its calls, and each row at one of the
next. -/
theorem replay_status {arrival : Arrival O} {ws : List Counters} {text : Str}
    (hstatus : StatusRequest opt convertMarkdownToHtml arrival)
    (h : (processArrival opt convertMarkdownToHtml arrival).replay Counters.call ws = some (.returned text)) :
    ∃ w inner last, ws = w :: (inner ++ [last]) ∧ inner.length = w.getKeys.length ∧
      (statusResponse opt arrival.garbage (tableAt w.getKeys inner)).toString = .ok text := by
  obtain ⟨req, hparse, hrefused, hmatch⟩ := hstatus
  rw [processArrival, hparse] at h
  simp only [hrefused, hmatch] at h
  obtain ⟨first, second, r, rfl, hfirst, hsecond⟩ := Prog.replay_bind h
  obtain ⟨keysAt, rest, keys, rfl, hkeys, hrest⟩ := Prog.replay_bind hfirst
  obtain ⟨w, rfl, rfl⟩ := Prog.replay_query hkeys
  obtain ⟨inner, none_, counts, rfl, hinner, hnone⟩ := Prog.replay_bind hrest
  obtain ⟨rfl, rfl⟩ := Prog.replay_pure hnone
  obtain ⟨hlength, rfl⟩ := replay_requestCounts hinner
  obtain ⟨counted, none_, _, rfl, hcounted, hprint⟩ := Prog.replay_bind hsecond
  obtain ⟨last, rfl, _⟩ := Prog.replay_query hcounted
  obtain ⟨rfl, htext⟩ := Prog.replay_ofExcept hprint
  refine ⟨w, inner, last, by simp, hlength, ?_⟩
  rw [← htext]
  rfl

/-! ### The numbers on the page -/

/-- A table for a request that was under way between two moments. -/
structure Shows (log : List CounterCall) (began ended : Nat) (table : List TableRow) : Prop where
  keys : (table.map Prod.fst).Nodup
  codes : ∀ row ∈ table, (row.2.map Prod.fst).Nodup
  /-- A number was right at some time. -/
  numbers : ∀ row ∈ table, ∀ c ∈ row.2, ∃ n, c.2 = BitVec.ofNat 32 n ∧ 0 < n ∧
    countedBy (log.take began) row.1 c.1 ≤ n ∧ n ≤ countedBy (log.take ended) row.1 c.1
  /-- What was counted before is there. -/
  complete : ∀ uri code, 0 < countedBy (log.take began) uri code →
    ∃ row ∈ table, row.1 = uri ∧ ∃ c ∈ row.2, c.1 = code

theorem mem_iterateKey_toList {m : Counters} {uri : Str} {code : ResponseCode} {value : counter_t} :
    (code, value) ∈ (m.iterateKey uri).1.toList ↔ m.entry uri code = some value := by
  rw [Std.TreeMap.mem_toList_iff_getElem?_eq_some, MultiMapCounter.iterateKey, MultiMapCounter.entry]
  cases h : m.map[uri]? with
  | none => simp
  | some inner => simp

theorem nodup_keys {α β : Type} [Ord α] [Std.TransOrd α] [Std.LawfulEqOrd α] (t : Std.TreeMap α β) :
    t.keys.Nodup := by
  refine t.distinct_keys.imp ?_
  intro a b hne heq
  exact hne (by rw [heq]; exact Std.ReflCmp.compare_self)

/-- The table of a page, from the moments at which its parts were asked for. -/
theorem shows_tableAt {log : List CounterCall} {began ended first : Nat} {moments : List Nat}
    (hlog : ∀ q ∈ log, CountsByOne q) (hfirst : began ≤ first) (hmoments : ∀ i ∈ moments, first ≤ i ∧ i ≤ ended)
    (hlength : moments.length
      = (objectAfter Counters.call {} (log.take first)).getKeys.length) :
    Shows log began ended (tableAt (objectAfter Counters.call {} (log.take first)).getKeys
      (moments.map fun i => objectAfter Counters.call {} (log.take i))) where
  keys := by
    have hmap : (tableAt (objectAfter Counters.call {} (log.take first)).getKeys
        (moments.map fun i => objectAfter Counters.call {} (log.take i))).map Prod.fst
          = (objectAfter Counters.call {} (log.take first)).getKeys := by
      rw [tableAt, List.map_map]
      exact List.map_fst_zip (by simp [hlength])
    rw [hmap]
    exact nodup_keys _
  codes := by
    intro row hrow
    obtain ⟨⟨key, w⟩, _, rfl⟩ := List.mem_map.mp hrow
    have hmap : (w.iterateKey key).1.toList.map Prod.fst = (w.iterateKey key).1.keys :=
      Std.TreeMap.map_fst_toList_eq_keys
    rw [hmap]
    exact nodup_keys _
  numbers := by
    intro row hrow c hc
    obtain ⟨⟨key, w⟩, hmem, rfl⟩ := List.mem_map.mp hrow
    obtain ⟨i, hi, rfl⟩ := List.mem_map.mp (List.of_mem_zip hmem).2
    obtain ⟨hafter, hbefore⟩ := hmoments i hi
    have hentry := mem_iterateKey_toList.mp hc
    rw [entry_objectAfter fun q hq => hlog q (List.mem_of_mem_take hq)] at hentry
    by_cases hzero : countedBy (log.take i) key c.1 = 0
    · rw [if_pos hzero] at hentry
      cases hentry
    · rw [if_neg hzero] at hentry
      refine ⟨countedBy (log.take i) key c.1, (Option.some.inj hentry).symm, by omega, ?_, ?_⟩
      · exact countedBy_take_le log key c.1 (hfirst.trans hafter)
      · exact countedBy_take_le log key c.1 hbefore
  complete := by
    intro uri code hpos
    have hentry : ∀ i, began ≤ i → ∃ value,
        (objectAfter Counters.call {} (log.take i)).entry uri code = some value := by
      intro i hi
      have hle := countedBy_take_le log uri code hi
      refine ⟨_, (entry_objectAfter (fun q hq => hlog q (List.mem_of_mem_take hq)) uri code).trans
        (if_neg ?_)⟩
      omega
    have hkey : uri ∈ (objectAfter Counters.call {} (log.take first)).getKeys := by
      obtain ⟨value, hvalue⟩ := hentry first hfirst
      obtain ⟨inner, hinner, _⟩ := Option.bind_eq_some_iff.mp hvalue
      rw [MultiMapCounter.getKeys, Std.TreeMap.mem_keys, Std.TreeMap.mem_iff_isSome_getElem?, hinner]
      rfl
    obtain ⟨j, hj, hget⟩ := List.getElem_of_mem hkey
    have hj' : j < moments.length := by rw [hlength]; exact hj
    obtain ⟨value, hvalue⟩ := hentry moments[j] (hfirst.trans (hmoments _ (List.getElem_mem hj')).1)
    refine ⟨(uri, ((objectAfter Counters.call {} (log.take moments[j])).iterateKey uri).1.toList), ?_, rfl,
      (code, value), mem_iterateKey_toList.mpr hvalue, rfl⟩
    refine List.mem_map.mpr ⟨(uri, objectAfter Counters.call {} (log.take moments[j])), ?_, rfl⟩
    apply List.mem_iff_getElem.mpr
    refine ⟨j, by simp [hj, hj'], ?_⟩
    simp [hget]

/-! ### In a run -/

section Run

variable {t : Timeline (Arrival O) CounterCall CounterAnswer Fault Str}
  {d d' : Done (Arrival O) Fault Str} {text text' : Str}

/-- A timeline of a server. -/
abbrev CountingTimeline (opt : Options (RequestHandler O)) (convertMarkdownToHtml : Str → Str)
    (t : Timeline (Arrival O) CounterCall CounterAnswer Fault Str) : Prop :=
  Timeline.Run (processArrival opt convertMarkdownToHtml) Counters.call {} t

/-- The moments of a status request that was answered. -/
theorem status_moments (hrun : CountingTimeline opt convertMarkdownToHtml t) (hd : d ∈ t.finished)
    (hstatus : StatusRequest opt convertMarkdownToHtml d.job) (hreturned : d.outcome = .returned text) :
    ∃ (first : Nat) (moments : List Nat), d.began ≤ first ∧ (∀ i ∈ moments, first ≤ i ∧ i ≤ d.ended) ∧
      moments.length = (objectAfter Counters.call {} (t.log.take first)).getKeys.length ∧
      (statusResponse opt d.job.garbage
        (tableAt (objectAfter Counters.call {} (t.log.take first)).getKeys
          (moments.map fun i => objectAfter Counters.call {} (t.log.take i)))).toString = .ok text := by
  obtain ⟨_, _, moments, hmoments, hreplay⟩ := hrun.sees.2 d hd
  rw [hreturned] at hreplay
  obtain ⟨w, inner, last, hws, hlength, htext⟩ := replay_status hstatus hreplay
  obtain ⟨first, rest, rfl, rfl, hrest⟩ := List.map_eq_cons_iff.mp hws
  obtain ⟨middle, lasts, rfl, rfl, _⟩ := List.map_eq_append_iff.mp hrest
  refine ⟨first, middle, hmoments.notBefore first (by simp), fun i hi => ⟨?_, ?_⟩, ?_, htext⟩
  · exact (List.rel_of_pairwise_cons hmoments.ordered (by simp [hi])).le
  · exact (hmoments.before i (by simp [hi])).le
  · rw [List.length_map] at hlength
    exact hlength

theorem log_countsByOne (hrun : CountingTimeline opt convertMarkdownToHtml t) :
    ∀ q ∈ t.log, CountsByOne q :=
  (hrun.log_allowed processArrival_countsByOne).2

/-- **The page and the counters.**  Whatever other threads do meanwhile, the page that is sent is
the source's text around a table that lists each counter once; its numbers lie between what was
counted when the request began and what was counted when it ended, and no counter from before is
missing. -/
theorem status_counts (hrun : CountingTimeline opt convertMarkdownToHtml t) (hd : d ∈ t.finished)
    (hstatus : StatusRequest opt convertMarkdownToHtml d.job) (hreturned : d.outcome = .returned text) :
    ∃ table, (statusResponse opt d.job.garbage table).toString = .ok text ∧
      Shows t.log d.began d.ended table := by
  obtain ⟨first, moments, hfirst, hmoments, hlength, htext⟩ := status_moments hrun hd hstatus hreturned
  exact ⟨_, htext, shows_tableAt (log_countsByOne hrun) hfirst hmoments hlength⟩

/-- Every number of one table is in the other, and not smaller there. -/
def NotBehind (table table' : List TableRow) : Prop :=
  ∀ row ∈ table, ∀ c ∈ row.2, ∃ row' ∈ table', row'.1 = row.1 ∧
    ∃ c' ∈ row'.2, c'.1 = c.1 ∧ c.2.toInt ≤ c'.2.toInt

theorem countedBy_le (log : List CounterCall) (moment : Nat) (uri : Str) (code : ResponseCode) :
    countedBy (log.take moment) uri code ≤ log.length :=
  List.countP_le_length.trans (List.length_take_le' moment log)

theorem toInt_ofNat_of_lt {n : Nat} (h : n < 2 ^ 31) : (BitVec.ofNat 32 n).toInt = n := by
  rw [BitVec.toInt_ofNat']
  exact Int.bmod_eq_of_le (by omega) (by omega)

/-- Tables of requests one after the other. -/
theorem Shows.notBehind {log : List CounterCall} {began ended began' ended' : Nat} {table table' : List TableRow}
    (h : Shows log began ended table) (h' : Shows log began' ended' table') (hle : ended ≤ began')
    (hfew : log.length < 2 ^ 31) : NotBehind table table' := by
  intro row hrow c hc
  obtain ⟨n, hn, hpos, _, hupper⟩ := h.numbers row hrow c hc
  have hbetween := countedBy_take_le log row.1 c.1 hle
  obtain ⟨row', hrow', hkey, c', hc', hcode⟩ := h'.complete row.1 c.1 (by omega)
  obtain ⟨n', hn', _, hlower, hupper'⟩ := h'.numbers row' hrow' c' hc'
  rw [hkey, hcode] at hlower hupper'
  have hlength := countedBy_le log ended' row.1 c.1
  refine ⟨row', hrow', hkey, c', hc', hcode, ?_⟩
  rw [hn, hn', toInt_ofNat_of_lt (by omega), toInt_ofNat_of_lt (by omega)]
  omega

/-- **No page is behind an earlier one.**  Of two status requests, one answered before the other
began, the second shows every number that the first did, and none of them smaller, as long as the
counters have not run over. -/
theorem status_monotone (hrun : CountingTimeline opt convertMarkdownToHtml t)
    (hfew : t.log.length < 2 ^ 31) (hd : d ∈ t.finished) (hd' : d' ∈ t.finished)
    (hstatus : StatusRequest opt convertMarkdownToHtml d.job)
    (hstatus' : StatusRequest opt convertMarkdownToHtml d'.job)
    (hreturned : d.outcome = .returned text) (hreturned' : d'.outcome = .returned text')
    (hle : d.ended ≤ d'.began) :
    ∃ table table', (statusResponse opt d.job.garbage table).toString = .ok text ∧
      (statusResponse opt d'.job.garbage table').toString = .ok text' ∧ NotBehind table table' := by
  obtain ⟨first, moments, hfirst, hmoments, hlength, htext⟩ := status_moments hrun hd hstatus hreturned
  obtain ⟨first', moments', hfirst', hmoments', hlength', htext'⟩ :=
    status_moments hrun hd' hstatus' hreturned'
  have hlog := log_countsByOne hrun
  exact ⟨_, _, htext, htext', (shows_tableAt hlog hfirst hmoments hlength).notBehind
    (shows_tableAt hlog hfirst' hmoments' hlength') hle hfew⟩

end Run

end Page

/-! ### Two requests -/

def statusArrival : Arrival Empty := arrivalOf (lit "GET /status HTTP/1.1\r\n\r\n")

/-- The first request, and the second with the counters that it left. -/
def firstAnswer : Outcome Fault Str × Prog.Mem Unit Counters CounterCall :=
  (processArrival statusServer id statusArrival).run (Workers.answer Counters.call)
    { shared := (), held := false, env := {}, asked := [] }

def secondAnswer : Outcome Fault Str × Prog.Mem Unit Counters CounterCall :=
  (processArrival statusServer id statusArrival).run (Workers.answer Counters.call) firstAnswer.2

theorem statusRequest_arrivalOf {raw uri : Str} (huri : (Request.parse raw).map (·.uri) = some uri)
    (hmatch : mapHasPrefix statusServer.handlerMap uri = some .status) :
    StatusRequest statusServer id (arrivalOf raw) := by
  obtain ⟨req, hparse, rfl⟩ := Option.map_eq_some_iff.mp huri
  refine ⟨req, hparse, ?_, ?_⟩
  · rw [Webserver.refused_eq_none_iff]
    intro auth hauth
    exact absurd hauth (by simp [countedServer, statusServer])
  · have hopt : (countedServer statusServer id (arrivalOf raw).outside).opt = statusServer := rfl
    rw [Webserver.matchRequestWithHandler, hopt, hmatch]

theorem statusArrival_status : StatusRequest statusServer id statusArrival :=
  @statusRequest_arrivalOf _ (lit "/status") (by decide +kernel) (by decide +kernel)

theorem exists_returned {o : Outcome Fault Str}
    (h : (match o with | .returned _ => true | _ => false) = true) : ∃ text, o = .returned text := by
  cases o with
  | returned text => exact ⟨text, rfl⟩
  | _ => cases h

/-- The two requests as a timeline. -/
theorem exists_two_answers : ∃ (t : Timeline (Arrival Empty) CounterCall CounterAnswer Fault Str) (began ended : Nat)
    (text text' : Str), CountingTimeline statusServer id t ∧ t.log.length < 2 ^ 31 ∧
      ⟨0, statusArrival, .returned text, began⟩ ∈ t.finished ∧
      ⟨began, statusArrival, .returned text', ended⟩ ∈ t.finished := by
  have htracks := fun arrival => @processArrival_tracks statusServer id
    (routes_of_notFound rfl statusServer_static) arrival
  have hstart : CountingTimeline statusServer id
      ⟨[], [⟨0, statusArrival, processArrival statusServer id statusArrival⟩], []⟩ :=
    Timeline.Run.init.start statusArrival
  have hfirst := @Timeline.Run.alone _ _ _ _ _ _ _ _ _ _ _ _ _ _ _ _ _ _
    { shared := (), held := false, env := {}, asked := [] } hstart rfl (htracks statusArrival)
  obtain ⟨hrun, henv⟩ := hfirst
  obtain ⟨hrun', _⟩ := (hrun.start statusArrival).alone henv (htracks statusArrival)
  obtain ⟨text, htext⟩ := exists_returned (o := firstAnswer.1) (by decide +kernel)
  obtain ⟨text', htext'⟩ := exists_returned (o := secondAnswer.1) (by decide +kernel)
  refine ⟨_, firstAnswer.2.asked.length, secondAnswer.2.asked.length, text, text', hrun', ?_, ?_, ?_⟩
  · show secondAnswer.2.asked.length < 2 ^ 31
    decide +kernel
  · rw [← htext]
    exact List.mem_append_left _ List.mem_cons_self
  · rw [← htext']
    exact List.mem_append_right _ List.mem_cons_self

theorem status_counts_example : ∃ (t : Timeline (Arrival Empty) CounterCall CounterAnswer Fault Str)
    (began ended : Nat) (text : Str) (table : List TableRow), CountingTimeline statusServer id t ∧
      ⟨began, statusArrival, .returned text, ended⟩ ∈ t.finished ∧
      (statusResponse statusServer statusArrival.garbage table).toString = .ok text ∧
      Shows t.log began ended table := by
  obtain ⟨t, began, ended, _, text, hrun, _, _, hd⟩ := exists_two_answers
  obtain ⟨table, htext, hshows⟩ := status_counts hrun hd statusArrival_status rfl
  exact ⟨t, began, ended, text, table, hrun, hd, htext, hshows⟩

theorem status_monotone_example : ∃ (t : Timeline (Arrival Empty) CounterCall CounterAnswer Fault Str)
    (text text' : Str) (table table' : List TableRow), CountingTimeline statusServer id t ∧
      (statusResponse statusServer statusArrival.garbage table).toString = .ok text ∧
      (statusResponse statusServer statusArrival.garbage table').toString = .ok text' ∧
      NotBehind table table' := by
  obtain ⟨t, began, ended, text, text', hrun, hfew, hd, hd'⟩ := exists_two_answers
  obtain ⟨table, table', htext, htext', hbehind⟩ :=
    status_monotone hrun hfew hd hd' statusArrival_status statusArrival_status rfl rfl le_rfl
  exact ⟨t, text, text', table, table', hrun, htext, htext', hbehind⟩

end JustEnough
