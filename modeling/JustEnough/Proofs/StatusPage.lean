/-
What clients put into the status page.

The page is text that the source has, and in between, for each counter, the URI that was
counted, as it came in the request.  The text itself leaves no tag open, and neither does
a row, since it ends with one; so the tags of the page are those of its parts, and a row
has its own eight and those of its URI (`count_countRow`).

A URI without a `<` has none.  If no request had one in its URI, then the tags are a
matter of the handlers and of how many codes were counted for each URI; and the page of
any other run with the same numbers has these tags only if it shows no `<` of a client
(`sameTags_of_runs`).
-/
import JustEnough.Lib.Markup
import JustEnough.Proofs.Counting

namespace JustEnough.StatusHandler

open Markup (Closed closed_concat closed_text count_tags tags_append tags_text SameUpToRows)

variable {O : Type}

/-! ### The page -/

/-- The page that is sent if no one else counts meanwhile. -/
def page (opt : Options (RequestHandler O)) (resp : Response) (m : Counters) : Option Str :=
  match ((handleRequest (some opt) resp).run (Workers.answer Counters.call)
      { shared := (), held := false, env := m, asked := [] }).1 with
  | .returned (_, resp) => some resp.body
  | _ => none

/-- What is above the rows of the counters. -/
def pageTop (opt : Options (RequestHandler O)) : Str := pageHead ++ handlersStr opt ++ pageMiddle

/-- The rows of the counters. -/
def rows (m : Counters) : Str := m.map.toList.flatMap fun e => countRows e.1 true e.2.toList

theorem run_requestCounts (keys : List Str) (mem : Prog.Mem Unit Counters CounterCall)
    (h : ∀ k ∈ keys, k ∈ mem.env.map) :
    ∃ asked, (requestCounts keys).run (Workers.answer Counters.call) mem
      = (.returned (keys.flatMap fun k => countRows k true (mem.env.map.getD k ∅).toList),
          { mem with asked }) := by
  induction keys generalizing mem with
  | nil => exact ⟨mem.asked, rfl⟩
  | cons k keys ih =>
      obtain ⟨inner, hinner⟩ : ∃ inner, mem.env.map[k]? = some inner := by
        have hmem := h k List.mem_cons_self
        rw [Std.TreeMap.mem_iff_isSome_getElem?] at hmem
        exact Option.isSome_iff_exists.mp hmem
      have hcall : Counters.call (.iterateKey k) mem.env = (inner, mem.env) := by
        simp [Counters.call, MultiMapCounter.iterateKey, hinner]
      obtain ⟨asked, hrest⟩ := ih { mem with asked := mem.asked ++ [.iterateKey k] }
        fun k' hk' => h k' (List.mem_cons_of_mem k hk')
      refine ⟨asked, ?_⟩
      rw [requestCounts, Prog.run_bind, Prog.run_query, Workers.answer, hcall]
      simp only [Prog.andThen_returned, Prog.run_bind, hrest, Prog.run_pure]
      simp [Std.TreeMap.getD_eq_getD_getElem?, hinner]

theorem page_eq (opt : Options (RequestHandler O)) (resp : Response) (m : Counters) :
    page opt resp m = some (pageTop opt ++ rows m ++ pageFoot) := by
  have hkeys : ∀ k ∈ m.getKeys, k ∈ m.map := fun k hk => Std.TreeMap.mem_keys.mp hk
  obtain ⟨asked, hcounts⟩ := run_requestCounts m.getKeys
    { shared := (), held := false, env := m, asked := [.getKeys] } hkeys
  have hrows : (m.getKeys.flatMap fun k => countRows k true (m.map.getD k ∅).toList) = rows m := by
    rw [MultiMapCounter.getKeys, ← Std.TreeMap.map_fst_toList_eq_keys, List.flatMap_map, rows]
    refine List.flatMap_congr ?_
    intro e he
    have hget : m.map[e.1]? = some e.2 := Std.TreeMap.mem_toList_iff_getElem?_eq_some.mp he
    rw [Std.TreeMap.getD_eq_getD_getElem?, hget, Option.getD_some]
  rw [page, handleRequest, Prog.run_bind, Prog.run_query, Workers.answer, Counters.call]
  simp only [Prog.andThen_returned, Prog.run_bind, List.nil_append, hcounts, Prog.run_pure, hrows]
  rfl

/-! ### Its tags -/

/-- `<` and `>`. -/
abbrev tags (s : Str) : List Str := Markup.tags (byte '<') (byte '>') s

theorem closed_of_getLast? {s : Str} (h : s.getLast? = some (byte '>')) :
    Closed (byte '<') (byte '>') s := by
  rw [← List.dropLast_append_getLast? _ h]
  exact closed_concat (by decide) _

theorem closed_pageTop (opt : Options (RequestHandler O)) :
    Closed (byte '<') (byte '>') (pageTop opt) := by
  have hmiddle : pageMiddle.getLast? = some (byte '>') := by decide +kernel
  refine closed_of_getLast? ?_
  rw [pageTop, List.getLast?_append, hmiddle]
  rfl

theorem closed_pageFoot : Closed (byte '<') (byte '>') pageFoot := by decide +kernel

/-- The row of one counter. -/
def countRow (k : Str) (first : Bool) (c : ResponseCode × counter_t) : Str :=
  (if first then lit "<tr class=\"overline\">" else lit "<tr>") ++ lit "<td>" ++ k ++ lit "</td>" ++
    lit "<td>" ++ decimalInt c.1 ++ lit "</td>" ++ lit "<td>" ++ decimalInt c.2.toInt ++
    lit "</td>" ++ lit "</tr>"

theorem countRows_cons (k : Str) (first : Bool) (c : ResponseCode × counter_t)
    (cs : List (ResponseCode × counter_t)) :
    countRows k first (c :: cs) = countRow k first c ++ countRows k false cs := by
  simp only [countRows, countRow, List.append_assoc]

theorem closed_countRow (k : Str) (first : Bool) (c : ResponseCode × counter_t) :
    Closed (byte '<') (byte '>') (countRow k first c) := by
  refine closed_of_getLast? ?_
  rw [countRow, List.getLast?_append]
  rfl

theorem closed_countRows (k : Str) (first : Bool) (cs : List (ResponseCode × counter_t)) :
    Closed (byte '<') (byte '>') (countRows k first cs) := by
  induction cs generalizing first with
  | nil => exact closed_text (by simp [countRows])
  | cons c cs ih =>
      rw [countRows_cons]
      exact (closed_countRow k first c).append (ih false)

theorem closed_rows (m : Counters) : Closed (byte '<') (byte '>') (rows m) := by
  unfold rows
  induction m.map.toList with
  | nil => exact closed_text (by simp)
  | cons e es ih =>
      rw [List.flatMap_cons]
      exact (closed_countRows e.1 true e.2.toList).append ih

theorem not_mem_decimalInt (n : Int) : byte '<' ∉ decimalInt n := by
  intro h
  rcases isDigit_of_mem_decimalInt h with hdigit | hsign
  · exact absurd hdigit (by decide)
  · exact absurd hsign (by decide)

/-- The tags of a row, where the URI has none. -/
def rowTags (first : Bool) : List Str :=
  (if first then lit "<tr class=\"overline\">" else lit "<tr>") ::
    [lit "<td>", lit "</td>", lit "<td>", lit "</td>", lit "<td>", lit "</td>", lit "</tr>"]

theorem tags_countRow {k : Str} (hk : byte '<' ∉ k) (first : Bool) (c : ResponseCode × counter_t) :
    tags (countRow k first c) = rowTags first := by
  have hfirst : Closed (byte '<') (byte '>')
      (if first then lit "<tr class=\"overline\">" else lit "<tr>") := by
    cases first <;> decide
  have hopen : Closed (byte '<') (byte '>') (lit "<td>") := by decide
  have hclose : Closed (byte '<') (byte '>') (lit "</td>") := by decide
  have hcode := not_mem_decimalInt c.1
  have hcount := not_mem_decimalInt c.2.toInt
  simp only [countRow, List.append_assoc, tags, tags_append hfirst, tags_append hopen,
    tags_append hclose, tags_append (closed_text hk), tags_append (closed_text hcode),
    tags_append (closed_text hcount), tags_text hk, tags_text hcode, tags_text hcount]
  cases first <;> decide

/-- A row has eight tags of its own, and what its URI opens. -/
theorem count_countRow (k : Str) (first : Bool) (c : ResponseCode × counter_t) :
    (countRow k first c).count (byte '<') = 8 + k.count (byte '<') := by
  have hcode := List.count_eq_zero.mpr (not_mem_decimalInt c.1)
  have hcount := List.count_eq_zero.mpr (not_mem_decimalInt c.2.toInt)
  have hfirst : (if first then lit "<tr class=\"overline\">" else lit "<tr>").count (byte '<') = 1 := by
    cases first <;> decide
  have hopen : (lit "<td>").count (byte '<') = 1 := by decide
  have hclose : (lit "</td>").count (byte '<') = 1 := by decide
  have hend : (lit "</tr>").count (byte '<') = 1 := by decide
  simp only [countRow, List.count_append, hfirst, hopen, hclose, hend, hcode, hcount]
  omega

/-! ### Its rows -/

/-- From the beginning of a row to its end. -/
def IsRow (row : List Str) : Prop :=
  ∃ start cells, row = start :: (cells ++ [lit "</tr>"]) ∧ lit "</tr>" ∉ cells ∧
    (start = lit "<tr>" ∨ start = lit "<tr class=\"overline\">")

theorem isRow_rowTags (first : Bool) : IsRow (rowTags first) := by
  refine ⟨_, [lit "<td>", lit "</td>", lit "<td>", lit "</td>", lit "<td>", lit "</td>"], rfl,
    by decide, ?_⟩
  cases first
  · exact Or.inl rfl
  · exact Or.inr rfl

/-- The rows of a key with that many counters. -/
def keyTags : Bool → Nat → List (List Str)
  | _, 0 => []
  | first, n + 1 => rowTags first :: keyTags false n

theorem isRow_of_mem_keyTags {first : Bool} {n : Nat} {row : List Str} (h : row ∈ keyTags first n) :
    IsRow row := by
  induction n generalizing first with
  | zero => cases h
  | succ n ih =>
      rcases List.mem_cons.mp h with rfl | h
      · exact isRow_rowTags first
      · exact ih h

theorem tags_countRows {k : Str} {cs : List (ResponseCode × counter_t)}
    (hk : cs.length ≠ 0 → byte '<' ∉ k) (first : Bool) :
    tags (countRows k first cs) = (keyTags first cs.length).flatten := by
  induction cs generalizing first with
  | nil => exact tags_text (by simp [countRows])
  | cons c cs ih =>
      have hplain : byte '<' ∉ k := hk (by simp)
      rw [countRows_cons, tags, tags_append (closed_countRow k first c)]
      show tags (countRow k first c) ++ tags (countRows k false cs) = _
      rw [tags_countRow hplain, ih fun _ => hplain]
      rfl

theorem count_countRows (k : Str) (first : Bool) (cs : List (ResponseCode × counter_t)) :
    (countRows k first cs).count (byte '<') = cs.length * (8 + k.count (byte '<')) := by
  induction cs generalizing first with
  | nil => simp [countRows]
  | cons c cs ih =>
      rw [countRows_cons, List.count_append, count_countRow, ih, List.length_cons]
      ring

/-- How many codes were counted for each URI. -/
def shape (m : Counters) : List Nat := m.map.toList.map fun e => e.2.size

/-- No URI that was counted has a `<`. -/
def CountsPlain (m : Counters) : Prop := ∀ uri code, (m.entry uri code).isSome → byte '<' ∉ uri

theorem countsPlain_iff (m : Counters) :
    CountsPlain m ↔ ∀ e ∈ m.map.toList, e.2.size ≠ 0 → byte '<' ∉ e.1 := by
  constructor
  · intro h e he hsize
    have hget : m.map[e.1]? = some e.2 := Std.TreeMap.mem_toList_iff_getElem?_eq_some.mp he
    obtain ⟨c, hc⟩ : ∃ c, c ∈ e.2.toList := by
      refine List.exists_mem_of_length_pos ?_
      rw [Std.TreeMap.length_toList]
      omega
    have hcode : e.2[c.1]? = some c.2 := Std.TreeMap.mem_toList_iff_getElem?_eq_some.mp hc
    refine h e.1 c.1 ?_
    rw [MultiMapCounter.entry, hget, Option.bind_some, hcode]
    rfl
  · intro h uri code hentry
    cases hinner : m.map[uri]? with
    | none => simp [MultiMapCounter.entry, hinner] at hentry
    | some inner =>
        have hmem : (uri, inner) ∈ m.map.toList :=
          Std.TreeMap.mem_toList_iff_getElem?_eq_some.mpr hinner
        refine h (uri, inner) hmem ?_
        intro hsize
        have hempty : inner.isEmpty := by
          rw [Std.TreeMap.isEmpty_eq_size_eq_zero]
          simpa using hsize
        simp [MultiMapCounter.entry, hinner, Std.TreeMap.getElem?_of_isEmpty hempty] at hentry

theorem tags_rows {m : Counters} (h : CountsPlain m) :
    tags (rows m) = ((shape m).flatMap (keyTags true)).flatten := by
  rw [countsPlain_iff] at h
  unfold rows shape
  generalize m.map.toList = es at h ⊢
  induction es with
  | nil => exact tags_text (by simp)
  | cons e es ih =>
      have hfirst : e.2.toList.length ≠ 0 → byte '<' ∉ e.1 := by
        rw [Std.TreeMap.length_toList]
        exact h e List.mem_cons_self
      have hrest := ih fun e' he' => h e' (List.mem_cons_of_mem e he')
      rw [List.flatMap_cons, tags, tags_append (closed_countRows e.1 true e.2.toList)]
      show tags (countRows e.1 true e.2.toList) ++ tags _ = _
      rw [tags_countRows hfirst, hrest, Std.TreeMap.length_toList, List.map_cons, List.flatMap_cons,
        List.flatten_append]

/-- How many tags clients open in the rows. -/
def opened (m : Counters) : Nat := (m.map.toList.map fun e => e.2.size * e.1.count (byte '<')).sum

theorem countsPlain_iff_opened (m : Counters) : CountsPlain m ↔ opened m = 0 := by
  rw [countsPlain_iff, opened, List.sum_eq_zero_iff]
  simp only [List.mem_map, forall_exists_index, and_imp, forall_apply_eq_imp_iff₂, Nat.mul_eq_zero,
    List.count_eq_zero, or_iff_not_imp_left]

theorem count_rows (m : Counters) :
    (rows m).count (byte '<') = 8 * (shape m).sum + opened m := by
  unfold rows shape opened
  induction m.map.toList with
  | nil => rfl
  | cons e es ih =>
      rw [List.flatMap_cons, List.count_append, count_countRows, ih, Std.TreeMap.length_toList]
      simp only [List.map_cons, List.sum_cons]
      ring

/-! ### Two pages -/

/-- The same paths with the same handlers. -/
def SameHandlers (opt opt' : Options (RequestHandler O)) : Prop :=
  opt.handlerMap = opt'.handlerMap ∧ opt.defaultHandler = opt'.defaultHandler

theorem pageTop_eq {opt opt' : Options (RequestHandler O)} (h : SameHandlers opt opt') :
    pageTop opt = pageTop opt' := by
  rw [pageTop, pageTop, handlersStr, handlersStr, h.1, h.2]

theorem tags_page (opt : Options (RequestHandler O)) (m : Counters) :
    tags (pageTop opt ++ rows m ++ pageFoot)
      = tags (pageTop opt) ++ tags (rows m) ++ tags pageFoot := by
  rw [tags, tags_append ((closed_pageTop opt).append (closed_rows m)),
    tags_append (closed_pageTop opt)]

/-- As many as there are `<` in the page. -/
theorem count_page (opt : Options (RequestHandler O)) (m : Counters) :
    (tags (pageTop opt ++ rows m ++ pageFoot)).flatten.count (byte '<')
      = (pageTop opt).count (byte '<') + (8 * (shape m).sum + opened m)
        + pageFoot.count (byte '<') := by
  have hclosed := ((closed_pageTop opt).append (closed_rows m)).append closed_pageFoot
  rw [tags, count_tags hclosed, List.count_append, List.count_append, count_rows]

/-- The same number of URIs, with the same number of codes each. -/
def SameShape (m m' : Counters) : Prop := (shape m).Perm (shape m')

/-- Both are pages, and their tags are the same up to the order of rows. -/
def SameTags (html html' : Option Str) : Prop :=
  ∃ text text', html = some text ∧ html' = some text' ∧ SameUpToRows IsRow (tags text) (tags text')

theorem sameTags_of_plain {opt opt' : Options (RequestHandler O)} (hhandlers : SameHandlers opt opt')
    {m m' : Counters} (hshape : SameShape m m') (hplain : CountsPlain m) (hplain' : CountsPlain m')
    (resp resp' : Response) : SameTags (page opt resp m) (page opt' resp' m') := by
  refine ⟨_, _, page_eq opt resp m, page_eq opt' resp' m', ?_⟩
  rw [← pageTop_eq hhandlers, tags_page, tags_page, tags_rows hplain, tags_rows hplain']
  refine ⟨_, _, _, _, ?_, hshape.flatMap_right (keyTags true), rfl, rfl⟩
  intro row hrow
  obtain ⟨n, -, hrow⟩ := List.mem_flatMap.mp hrow
  exact isRow_of_mem_keyTags hrow

/-- What a client opens is in a tag that the other page has no place for. -/
theorem plain_of_sameTags {opt opt' : Options (RequestHandler O)} (hhandlers : SameHandlers opt opt')
    {m m' : Counters} (hshape : SameShape m m') (hplain : CountsPlain m) {resp resp' : Response}
    (h : SameTags (page opt resp m) (page opt' resp' m')) : CountsPlain m' := by
  obtain ⟨text, text', htext, htext', hrows⟩ := h
  rw [page_eq] at htext htext'
  have htext := Option.some.inj htext
  have htext' := Option.some.inj htext'
  rw [← htext, ← htext', ← pageTop_eq hhandlers] at hrows
  have hcount := hrows.perm.flatten.count_eq (byte '<')
  rw [count_page, count_page, hshape.sum_eq] at hcount
  rw [countsPlain_iff_opened] at hplain ⊢
  omega

/-! ### What requests count -/

section Runs

variable {opt : Options (RequestHandler O)} {convertMarkdownToHtml : Str → Str}

/-- A count is of a URI without a `<`. -/
def PlainCall : CounterCall → Prop
  | .increment outerKey _ _ => byte '<' ∉ outerKey
  | _ => True

theorem countsPlain_call {q : CounterCall} {m : Counters} (hq : PlainCall q) (h : CountsPlain m) :
    CountsPlain (Counters.call q m).2 := by
  intro uri code hentry
  cases q with
  | increment outerKey innerKey delta =>
      have hentry : ((m.increment outerKey innerKey delta).entry uri code).isSome := hentry
      rw [MultiMapCounter.entry_increment] at hentry
      by_cases hsame : outerKey = uri ∧ innerKey = code
      · rw [← hsame.1]
        exact hq
      · rw [if_neg hsame] at hentry
        exact h uri code hentry
  | getKeys => exact h uri code hentry
  | iterateKey outerKey =>
      have hentry : ((m.iterateKey outerKey).2.entry uri code).isSome := hentry
      rw [MultiMapCounter.entry_iterateKey] at hentry
      exact h uri code hentry

/-- A call that counts nothing. -/
def ReadsOnly : CounterCall → Prop
  | .increment .. => False
  | _ => True

theorem requestCounts_reads (keys : List Str) : (requestCounts keys).Calls ReadsOnly := by
  induction keys with
  | nil => trivial
  | cons k keys ih =>
      refine Prog.calls_bind (Prog.calls_query trivial) ?_
      intro inner
      exact Prog.calls_bind ih fun rest => trivial

/-- Handlers count nothing, whatever they are. -/
theorem handleRequest_reads (outside : Surroundings O) (handler : RequestHandler O) (req : Request)
    (resp : Response) :
    (handler.handleRequest opt convertMarkdownToHtml outside req resp).Calls ReadsOnly := by
  cases handler with
  | echo => trivial
  | static handler => exact Prog.calls_ofExcept _
  | status =>
      refine Prog.calls_bind (Prog.calls_query trivial) ?_
      intro keys
      exact Prog.calls_bind (requestCounts_reads keys) fun text => trivial
  | notFound => trivial
  | other type handler => exact Prog.calls_ofExcept _

/-- **All that a request counts is one for its URI**, if it is accepted. -/
theorem processArrival_calls {allowed : CounterCall → Prop} {arrival : Arrival O}
    (hreads : ∀ q, ReadsOnly q → allowed q)
    (hcounts : ∀ req code, Request.parse arrival.raw = some req → allowed (.increment req.uri code 1)) :
    (processArrival opt convertMarkdownToHtml arrival).Calls allowed := by
  have hcount : ∀ req resp, Request.parse arrival.raw = some req →
      (countAndRespond req resp).Calls allowed := by
    intro req resp hparse
    exact Prog.calls_bind (Prog.calls_query (hcounts req _ hparse)) fun _ => Prog.calls_ofExcept _
  unfold processArrival
  cases hparse : Request.parse arrival.raw with
  | none => trivial
  | some req =>
      cases hrefused : (countedServer opt convertMarkdownToHtml arrival.outside).refused req with
      | some auth =>
          simp only [hrefused]
          exact hcount req _ hparse
      | none =>
          cases hmatch : (countedServer opt convertMarkdownToHtml
              arrival.outside).matchRequestWithHandler req with
          | none =>
              simp only [hrefused, hmatch]
              trivial
          | some handler =>
              simp only [hrefused, hmatch]
              refine Prog.calls_bind ((handleRequest_reads arrival.outside handler req _).mono hreads) ?_
              intro r
              exact hcount req r.2 hparse

/-- A request whose URI has no `<`, if it is accepted. -/
def PlainRequest (arrival : Arrival O) : Prop :=
  ∀ req, Request.parse arrival.raw = some req → byte '<' ∉ req.uri

theorem plainCall_of_reads {q : CounterCall} (h : ReadsOnly q) : PlainCall q := by
  cases q with
  | increment => cases h
  | getKeys => trivial
  | iterateKey => trivial

/-- A run of a server, with its counters; any number of threads are under way. -/
abbrev CountingRun (opt : Options (RequestHandler O)) (convertMarkdownToHtml : Str → Str)
    (s : Workers (Arrival O) Counters CounterCall CounterAnswer Fault Str) : Prop :=
  Workers.Run (processArrival opt convertMarkdownToHtml) Counters.call {} s

theorem countsPlain_of_run {s : Workers (Arrival O) Counters CounterCall CounterAnswer Fault Str}
    (hrun : CountingRun opt convertMarkdownToHtml s) (hplain : ∀ arrival ∈ s.jobs, PlainRequest arrival) :
    CountsPlain s.object := by
  have hstart : CountsPlain {} := by
    intro uri code hentry
    simp [MultiMapCounter.entry] at hentry
  have hcalls : ∀ arrival, PlainRequest arrival →
      (processArrival opt convertMarkdownToHtml arrival).Calls PlainCall := by
    intro arrival hfine
    exact processArrival_calls (fun q => plainCall_of_reads) fun req code hparse => hfine req hparse
  exact (hrun.keeps (fun q w hq => countsPlain_call hq) hcalls hstart hplain).1

end Runs

/-! ### A server with a status page -/

/-- And nothing else. -/
def statusServer : Options BuiltinHandler where
  handlerMap := (∅ : Std.TreeMap Str BuiltinHandler).insert (lit "/status") .status
  defaultHandler := some .notFound
  auth := none

def arrivalOf (raw : Str) : Arrival Empty where
  raw
  outside := { isDirectory := fun _ => .ok false, contents := fun _ => none, others := nofun }
  garbage := 0

/-- The server has answered one request. -/
def answered (raw : Str) : Workers (Arrival Empty) Counters CounterCall CounterAnswer Fault Str where
  object := (processAll statusServer id [arrivalOf raw] { world := () }).2.counters
  active := []
  finished := (processAll statusServer id [arrivalOf raw] { world := () }).1

/-- Without static handlers a handler can be given any request. -/
theorem routes_of_notFound {opt : Options BuiltinHandler} (hdefault : opt.defaultHandler = some .notFound)
    (hmap : ∀ (path : Str) s, opt.handlerMap[path]? ≠ some (.static s)) (outside : Surroundings Empty) :
    Routes (countedServer opt id outside) := by
  intro req
  cases hprefix : mapHasPrefix opt.handlerMap req.uri with
  | some handler =>
      refine ⟨handler, by simp [Webserver.matchRequestWithHandler, countedServer, hprefix], ?_⟩
      rintro s rfl
      obtain ⟨path, hlongest⟩ := mapHasPrefix_some_iff.mp hprefix
      exact absurd hlongest.entry (hmap path s)
  | none =>
      refine ⟨.notFound, by simp [Webserver.matchRequestWithHandler, countedServer, hprefix, hdefault],
        ?_⟩
      intro s hs
      cases hs

theorem statusServer_static (path : Str) (s : StaticHandler) :
    statusServer.handlerMap[path]? ≠ some (.static s) := by
  rw [statusServer, Std.TreeMap.getElem?_insert]
  split
  · simp
  · simp

theorem answered_run (raw : Str) : CountingRun statusServer id (answered raw) := by
  have hrun := processAll_run (routes_of_notFound rfl statusServer_static) [arrivalOf raw]
    (s := { world := () }) .init
  rw [List.nil_append] at hrun
  exact hrun

theorem answered_plain {raw uri : Str} (huri : (Request.parse raw).map (·.uri) = some uri)
    (hplain : byte '<' ∉ uri) : ∀ arrival ∈ (answered raw).jobs, PlainRequest arrival := by
  intro arrival harrival req hparse
  have hraw : arrival = arrivalOf raw := by
    simpa [Workers.jobs, answered, processAll] using harrival
  rw [hraw, arrivalOf] at hparse
  rw [hparse] at huri
  rwa [← Option.some.inj huri] at hplain

/-! ### Two runs of a server -/

/--
**The status page has the tags of its source.**  In two runs of servers with the same
handlers, with the same number of URIs and of codes for each: if no request had a `<` in
its URI, the pages have the same tags.  If there was none in one run, the page of the
other has these tags only if no counted URI has a `<`.
-/
theorem sameTags_of_runs {opt opt' : Options (RequestHandler O)} (hhandlers : SameHandlers opt opt')
    {convertMarkdownToHtml convertMarkdownToHtml' : Str → Str}
    {s s' : Workers (Arrival O) Counters CounterCall CounterAnswer Fault Str}
    (hrun : CountingRun opt convertMarkdownToHtml s)
    (hrun' : CountingRun opt' convertMarkdownToHtml' s') (hshape : SameShape s.object s'.object)
    (hplain : ∀ arrival ∈ s.jobs, PlainRequest arrival) (resp resp' : Response) :
    ((∀ arrival ∈ s'.jobs, PlainRequest arrival) →
        SameTags (page opt resp s.object) (page opt' resp' s'.object)) ∧
      (SameTags (page opt resp s.object) (page opt' resp' s'.object) ↔ CountsPlain s'.object) := by
  have hcounts := countsPlain_of_run hrun hplain
  have hiff : SameTags (page opt resp s.object) (page opt' resp' s'.object)
      ↔ CountsPlain s'.object := by
    constructor
    · exact plain_of_sameTags hhandlers hshape hcounts
    · intro hcounts'
      exact sameTags_of_plain hhandlers hshape hcounts hcounts' resp resp'
  refine ⟨?_, hiff⟩
  intro hplain'
  exact hiff.mpr (countsPlain_of_run hrun' hplain')

theorem sameTags_of_runs_example : SameTags
    (page statusServer (.uninitialised 0) (answered (lit "GET /a HTTP/1.1\r\n\r\n")).object)
    (page statusServer (.uninitialised 0) (answered (lit "GET /b HTTP/1.1\r\n\r\n")).object) := by
  have hshape : shape (answered (lit "GET /a HTTP/1.1\r\n\r\n")).object
      = shape (answered (lit "GET /b HTTP/1.1\r\n\r\n")).object := by
    decide +kernel
  have hplain := @answered_plain (lit "GET /a HTTP/1.1\r\n\r\n") (lit "/a") (by decide +kernel)
    (by decide)
  have hplain' := @answered_plain (lit "GET /b HTTP/1.1\r\n\r\n") (lit "/b") (by decide +kernel)
    (by decide)
  exact (sameTags_of_runs ⟨rfl, rfl⟩ (answered_run _) (answered_run _) (List.Perm.of_eq hshape)
    hplain _ _).1 hplain'

/-- A client's tag is in the page of everyone who looks at it later. -/
theorem client_tag_shown : CountingRun statusServer id (answered (lit "GET /a HTTP/1.1\r\n\r\n")) ∧
    CountingRun statusServer id (answered (lit "GET /<script> HTTP/1.1\r\n\r\n")) ∧
    SameShape (answered (lit "GET /a HTTP/1.1\r\n\r\n")).object
      (answered (lit "GET /<script> HTTP/1.1\r\n\r\n")).object ∧
    ∀ resp resp', ¬SameTags
      (page statusServer resp (answered (lit "GET /a HTTP/1.1\r\n\r\n")).object)
      (page statusServer resp' (answered (lit "GET /<script> HTTP/1.1\r\n\r\n")).object) := by
  refine ⟨answered_run _, answered_run _, ?_, ?_⟩
  · have hshape : shape (answered (lit "GET /a HTTP/1.1\r\n\r\n")).object
        = shape (answered (lit "GET /<script> HTTP/1.1\r\n\r\n")).object := by
      decide +kernel
    exact List.Perm.of_eq hshape
  · rintro resp resp' ⟨text, text', htext, htext', hrows⟩
    rw [page_eq] at htext htext'
    have htext := Option.some.inj htext
    have htext' := Option.some.inj htext'
    rw [← htext, ← htext', tags_page, tags_page] at hrows
    have hlength := hrows.perm.length_eq
    simp only [List.length_append] at hlength
    have hplain : (tags (rows (answered (lit "GET /a HTTP/1.1\r\n\r\n")).object)).length = 8 := by
      decide +kernel
    have hscript : (tags (rows (answered
        (lit "GET /<script> HTTP/1.1\r\n\r\n")).object)).length = 9 := by
      decide +kernel
    omega

end JustEnough.StatusHandler
