/-
Where an index leaves its string.

`Checked` makes every access a step that can fail.  Reading a request, the only one that
does is the look at the last character of a line, and it fails where the line is empty
and ends in a line feed alone: for every other text the checked reader does what the
reader does elsewhere (`parse_ok`).  Building a path, it is the look at the last
character of the root, which fails where no `root` was configured (`located_eq`).
-/
import JustEnough.Proofs.Counting
import JustEnough.Proofs.RequestLines
import JustEnough.Proofs.StaticPaths
import JustEnough.Server.CharAccess

namespace JustEnough

namespace Checked

open Request (rawLines firstLine afterFirstLine dropCR)

/-! ### One header line -/

/-- The loop over the spaces stays inside the line. -/
theorem skipSpaces_eq {s : Str} : ∀ {start : Nat}, start ≤ s.length →
    skipSpaces s start = .ok (start + ((s.drop start).takeWhile (· = byte ' ')).length) := by
  intro start hle
  induction hn : s.length - start using Nat.strong_induction_on generalizing start with
  | _ n ih =>
      rw [skipSpaces]
      by_cases hlt : start < s.length
      · have hdrop : s.drop start = s[start] :: s.drop (start + 1) := List.drop_eq_getElem_cons hlt
        have hchar : charAt s start = .ok s[start] := by
          rw [charAt, List.getElem?_eq_getElem hlt]
        rw [if_pos hlt, hchar, hdrop, List.takeWhile_cons]
        show (if s[start] = byte ' ' then _ else _) = _
        by_cases hspace : s[start] = byte ' '
        · have hrest := @ih (s.length - (start + 1)) (by omega) (start + 1) hlt rfl
          rw [if_pos hspace, hrest, if_pos (by simpa using hspace), List.length_cons]
          congr 1
          omega
        · rw [if_neg hspace, if_neg (by simpa using hspace)]
          rfl
      · have hend : s.drop start = [] := List.drop_eq_nil_of_le (by omega)
        rw [if_neg hlt, hend]
        rfl

theorem drop_length_takeWhile (p : UInt8 → Bool) (s : Str) :
    s.drop (s.takeWhile p).length = s.dropWhile p := by
  calc s.drop (s.takeWhile p).length
      = (s.takeWhile p ++ s.dropWhile p).drop (s.takeWhile p).length := by
        rw [List.takeWhile_append_dropWhile]
    _ = s.dropWhile p := List.drop_left

theorem parseHeader_eq (line : Str) : parseHeader line = .ok (Request.parseHeader line) := by
  unfold parseHeader Request.parseHeader
  cases hfind : findFrom (lit ":") line with
  | none => rfl
  | some delimPos =>
      have hlen : delimPos + 1 ≤ line.length := findFrom_length hfind
      have hspaces := (List.takeWhile_prefix (· = byte ' ') (l := line.drop (delimPos + 1))).length_le
      rw [List.length_drop] at hspaces
      have hkey : substr line 0 (some delimPos) = .ok (line.take delimPos) := by
        simp [substr]
      have hvalue : substr line
            (delimPos + 1 + ((line.drop (delimPos + 1)).takeWhile (· = byte ' ')).length) none
          = .ok ((line.drop (delimPos + 1)).dropWhile (· = byte ' ')) := by
        rw [substr, if_pos (by omega), ← List.drop_drop, drop_length_takeWhile]
      simp only [hkey, skipSpaces_eq hlen, hvalue, ok_bind, Option.map_some]
      rfl

/-! ### All header lines -/

/-- The first of the lines that has no colon is empty. -/
def ComesToEmpty (lines : List Str) : Prop :=
  (lines.dropWhile (byte ':' ∈ ·)).head? = some []

instance (lines : List Str) : Decidable (ComesToEmpty lines) :=
  inferInstanceAs (Decidable (_ = _))

theorem mem_dropCR {line : Str} {c : UInt8} (hc : c ≠ byte '\r') : c ∈ dropCR line ↔ c ∈ line := by
  unfold dropCR
  split
  · rename_i hlast
    have hline := List.dropLast_append_getLast? _ hlast
    constructor
    · exact List.mem_of_mem_dropLast
    · intro hmem
      rw [← hline] at hmem
      simpa [hc] using hmem
  · rfl

theorem comesToEmpty_cons (line : Str) (lines : List Str) :
    ComesToEmpty (line :: lines) ↔ if byte ':' ∈ line then ComesToEmpty lines else line = [] := by
  by_cases hcolon : byte ':' ∈ line
  · simp [ComesToEmpty, hcolon]
  · simp [ComesToEmpty, hcolon]

/-- A line that is not empty is read as elsewhere. -/
theorem parseHeaders_line {reqSS reqSS' : IStream} {line : Str}
    (hline : getCRLFLine reqSS = .ok (line, reqSS')) (contentLength : Int) (headers : Headers) :
    parseHeaders reqSS contentLength headers =
      if line = [] then .ok (some (headers, contentLength, reqSS'))
      else
        match Request.parseHeader line with
        | none => .ok none
        | some header =>
          parseHeaders reqSS' (Request.announcedFrom contentLength [header]) (headers ++ [header]) := by
  rw [parseHeaders]
  split
  · rename_i e herror
    rw [hline] at herror
    cases herror
  · rename_i line' next hread
    obtain ⟨rfl, rfl⟩ := Prod.mk.inj (Except.ok.inj (hread.symm.trans hline))
    by_cases hempty : line' = []
    · simp [hempty]
    · rw [if_neg hempty, parseHeader_eq]
      cases Request.parseHeader line' with
      | none => simp [hempty]
      | some header => simp [hempty, Request.announcedFrom]

theorem parseHeaders_error {reqSS : IStream} {e : Fault} (hline : getCRLFLine reqSS = .error e)
    (contentLength : Int) (headers : Headers) :
    parseHeaders reqSS contentLength headers = .error e := by
  rw [parseHeaders]
  split <;> simp_all

theorem getCRLFLine_cons {line : Str} (hline : byte '\n' ∉ line) (rest : Str) :
    getCRLFLine { rest := line ++ byte '\n' :: rest }
      = if line = [] then .error .undefinedBehaviour else .ok (dropCR line, { rest }) := by
  rw [getCRLFLine_eq, IStream.getline_cons hline, Request.getCRLFLine_cons hline]
  simp

theorem getCRLFLine_last {line : Str} (hne : line ≠ []) (hline : byte '\n' ∉ line) :
    getCRLFLine { rest := line } = .ok (dropCR line, ⟨[], false⟩) := by
  rw [getCRLFLine_eq, IStream.getline_last hne hline, Request.getCRLFLine_last hne hline]
  simp [hne]

/-- Where the stream has ended there is no line to look at. -/
theorem getCRLFLine_ended : getCRLFLine ⟨[], false⟩ = .ok ([], ⟨[], false⟩) := rfl

theorem parseHeaders_ended (contentLength : Int) (headers : Headers) :
    parseHeaders ⟨[], false⟩ contentLength headers
      = .ok (some (headers, contentLength, ⟨[], false⟩)) := by
  rw [parseHeaders_line getCRLFLine_ended, if_pos rfl]

/-- **The header lines are read as elsewhere, unless the one that ends them is empty.** -/
theorem parseHeaders_eq (s : Str) : ∀ (contentLength : Int) (headers : Headers),
    parseHeaders { rest := s } contentLength headers
      = if ComesToEmpty (rawLines s) then .error .undefinedBehaviour
        else .ok (Request.parseHeaders { rest := s } contentLength headers) := by
  induction s using Request.byLines with
  | nil =>
      intro contentLength headers
      have hnil : getCRLFLine { rest := [] } = .ok ([], ⟨[], false⟩) := rfl
      rw [parseHeaders_line hnil, if_pos rfl, Request.rawLines_nil,
        Request.parseHeaders_end Request.getCRLFLine_nil, if_neg (by decide)]
  | last line hne hline =>
      intro contentLength headers
      have hnot : ¬ComesToEmpty [line] := by
        rw [comesToEmpty_cons]
        split
        · decide
        · exact hne
      rw [parseHeaders_line (getCRLFLine_last hne hline), Request.rawLines_last hne hline, if_neg hnot]
      by_cases hempty : dropCR line = []
      · rw [if_pos hempty, Request.parseHeaders_end (hempty ▸ Request.getCRLFLine_last hne hline)]
      · rw [if_neg hempty, Request.parseHeaders_line (Request.getCRLFLine_last hne hline) hempty]
        cases Request.parseHeader (dropCR line) with
        | none => rfl
        | some header =>
            simp only [Option.bind_some, parseHeaders_ended,
              Request.parseHeaders_end (Request.getCRLFLine_not_good [])]
  | cons line rest hline ih =>
      intro contentLength headers
      have hread := getCRLFLine_cons hline rest
      rw [Request.rawLines_cons hline]
      by_cases hnone : line = []
      · rw [if_pos hnone] at hread
        have hcomes : ComesToEmpty (line :: rawLines rest) := by
          rw [comesToEmpty_cons, hnone, if_neg (by simp)]
        rw [parseHeaders_error hread, if_pos hcomes]
      · rw [if_neg hnone] at hread
        rw [parseHeaders_line hread]
        by_cases hempty : dropCR line = []
        · have hcolon : byte ':' ∉ line := by
            rw [← mem_dropCR (by decide), hempty]
            simp
          have hnot : ¬ComesToEmpty (line :: rawLines rest) := by
            rw [comesToEmpty_cons, if_neg hcolon]
            exact hnone
          rw [if_pos hempty, if_neg hnot,
            Request.parseHeaders_end (hempty ▸ Request.getCRLFLine_cons hline rest)]
        · rw [if_neg hempty, Request.parseHeaders_line (Request.getCRLFLine_cons hline rest) hempty,
            Request.parseHeader_eq]
          by_cases hcolon : byte ':' ∈ line
          · have hcolon' : byte ':' ∈ dropCR line := (mem_dropCR (by decide)).mpr hcolon
            simp only [if_pos hcolon', Option.bind_some, ih, comesToEmpty_cons, if_pos hcolon]
          · have hcolon' : byte ':' ∉ dropCR line := fun h => hcolon ((mem_dropCR (by decide)).mp h)
            have hnot : ¬ComesToEmpty (line :: rawLines rest) := by
              rw [comesToEmpty_cons, if_neg hcolon]
              exact hnone
            rw [if_neg hcolon', if_neg hnot]
            rfl

/-! ### The whole request -/

/-- The line is cut into three words of which the third is a version. -/
def HeadAccepted (line : Str) : Prop :=
  ∃ method uri version, split line (byte ' ') = [method, uri, version] ∧ version.take 5 = lit "HTTP/"

/--
The first line is empty and has no CR, or the first line is accepted and the first line
after it without a colon is.
-/
def ReadsEmptyLine (s : Str) : Prop :=
  (rawLines s).head? = some [] ∨
    HeadAccepted (firstLine s) ∧ ComesToEmpty (rawLines (afterFirstLine s))

theorem readBody_eq (reqSS : IStream) (contentLength : Int) :
    readBody reqSS contentLength = .ok (Request.readBody reqSS contentLength) := by
  unfold readBody
  by_cases hpos : contentLength > 0
  · obtain ⟨n, hn⟩ : ∃ n, contentLength.toNat = n + 1 := ⟨contentLength.toNat - 1, by omega⟩
    rw [if_pos hpos, hn]
    rfl
  · rw [if_neg hpos, Request.readBody, if_neg hpos]
    rfl

/-- The first line, and what the stream behind it gives. -/
theorem getCRLFLine_text {s : Str} (h : (rawLines s).head? ≠ some []) :
    ∃ reqSS, getCRLFLine { rest := s } = .ok (firstLine s, reqSS) ∧
      JustEnough.getCRLFLine { rest := s } = (firstLine s, reqSS) ∧
      parseHeaders reqSS 0 [] = if ComesToEmpty (rawLines (afterFirstLine s))
        then .error .undefinedBehaviour else .ok (Request.parseHeaders reqSS 0 []) := by
  have hnone : ∀ line : Str, byte '\n' ∉ line →
      parseHeaders ⟨[], false⟩ 0 [] = if ComesToEmpty (rawLines (afterFirstLine line))
        then .error .undefinedBehaviour else .ok (Request.parseHeaders ⟨[], false⟩ 0 []) := by
    intro line hline
    rw [Request.afterFirstLine_last hline, Request.rawLines_nil, if_neg (by decide),
      parseHeaders_ended, Request.parseHeaders_end (Request.getCRLFLine_not_good [])]
  induction s using Request.byLines with
  | nil =>
      refine ⟨⟨[], false⟩, ?_, ?_, hnone [] (by simp)⟩
      · rw [firstLine, Request.textLines_nil]
        rfl
      · rw [firstLine, Request.textLines_nil]
        rfl
  | last line hne hline =>
      have hfirst : firstLine line = dropCR line := by
        rw [firstLine, Request.textLines_last hne hline]
        rfl
      refine ⟨⟨[], false⟩, ?_, ?_, hnone line hline⟩
      · rw [getCRLFLine_last hne hline, hfirst]
      · rw [Request.getCRLFLine_last hne hline, hfirst]
  | cons line rest hline _ =>
      have hne : line ≠ [] := by
        rw [Request.rawLines_cons hline] at h
        exact fun hnil => h (congrArg some hnil)
      refine ⟨{ rest }, ?_, ?_, ?_⟩
      · rw [getCRLFLine_cons hline, if_neg hne, Request.firstLine_cons hline]
      · rw [Request.getCRLFLine_cons hline, Request.firstLine_cons hline]
      · rw [Request.afterFirstLine_cons hline, parseHeaders_eq]

theorem getCRLFLine_text_empty {s : Str} (h : (rawLines s).head? = some []) :
    getCRLFLine { rest := s } = .error .undefinedBehaviour := by
  induction s using Request.byLines with
  | nil =>
      rw [Request.rawLines_nil] at h
      cases h
  | last line hne hline =>
      rw [Request.rawLines_last hne hline] at h
      exact absurd (Option.some.inj h) hne
  | cons line rest hline _ =>
      rw [Request.rawLines_cons hline] at h
      rw [getCRLFLine_cons hline, if_pos (Option.some.inj h)]

/-- **Reading an empty line leaves the string.** -/
theorem parse_error {s : Str} (h : ReadsEmptyLine s) : parse s = .error .undefinedBehaviour := by
  by_cases hfirst : (rawLines s).head? = some []
  · rw [parse, getCRLFLine_text_empty hfirst, error_bind]
  · obtain ⟨reqSS, hread, -, hheaders⟩ := getCRLFLine_text hfirst
    rcases h with hempty | ⟨⟨method, uri, version, hsplit, hhttp⟩, hcomes⟩
    · exact absurd hempty hfirst
    · have hsubstr : substr version 0 (some 5) = .ok (version.take 5) := by simp [substr]
      rw [if_pos hcomes] at hheaders
      simp [parse, hread, hsplit, hsubstr, hhttp, hheaders]

/-- **Every other request is read as elsewhere.** -/
theorem parse_ok {s : Str} (h : ¬ReadsEmptyLine s) : parse s = .ok (Request.parse s) := by
  obtain ⟨hfirst, hlines⟩ := not_or.mp h
  obtain ⟨reqSS, hread, hread', hheaders⟩ := getCRLFLine_text hfirst
  unfold parse Request.parse
  unfold HeadAccepted at hlines
  rw [hread, hread', ok_bind]
  simp only
  generalize split (firstLine s) (byte ' ') = words at hlines ⊢
  -- The number of words decides; only three of them are looked at.
  rcases words with _ | ⟨method, _ | ⟨uri, _ | ⟨version, _ | ⟨extra, more⟩⟩⟩⟩
  · rfl
  · rfl
  · rfl
  · have hsubstr : substr version 0 (some 5) = .ok (version.take 5) := by simp [substr]
    simp only [hsubstr, ok_bind]
    by_cases hhttp : version.take 5 = lit "HTTP/"
    · have hcomes : ¬ComesToEmpty (rawLines (afterFirstLine s)) :=
        fun hcomes => hlines ⟨⟨method, uri, version, rfl, hhttp⟩, hcomes⟩
      rw [if_neg hcomes] at hheaders
      rw [if_neg (by simpa using hhttp), if_neg (by simpa using hhttp), hheaders, ok_bind]
      cases Request.parseHeaders reqSS 0 [] with
      | none => rfl
      | some r =>
          simp only [readBody_eq, ok_bind]
          rfl
    · rw [if_pos hhttp, if_pos hhttp]
      rfl
  · rfl

/-- Every access and every cut is inside its string. -/
def InBounds (s : Str) : Prop := ∃ result, parse s = .ok result

/-- **Reading a request stays in bounds exactly where no empty line is read that lacks its CR.** -/
theorem request_inBounds_iff (s : Str) : InBounds s ↔ ¬ReadsEmptyLine s := by
  constructor
  · rintro ⟨result, hok⟩ hempty
    rw [parse_error hempty] at hok
    cases hok
  · intro h
    exact ⟨_, parse_ok h⟩

/-- Bare line feeds are enough. -/
theorem request_out_of_bounds :
    parse (lit "GET / HTTP/1.1\nHost: a\n\n") = .error .undefinedBehaviour ∧
      ¬InBounds (lit "GET / HTTP/1.1\nHost: a\n\n") := by
  have hparse : parse (lit "GET / HTTP/1.1\nHost: a\n\n") = .error .undefinedBehaviour := by
    decide +kernel
  refine ⟨hparse, ?_⟩
  rintro ⟨result, hok⟩
  rw [hparse] at hok
  cases hok

/-! ### The path of a file -/

theorem requestPath_eq (handler : StaticHandler) (uri : Str) :
    requestPath handler uri = handler.requestPath uri := by
  unfold requestPath StaticHandler.requestPath
  cases substr uri handler.path.length none with
  | error e => rfl
  | ok reqPath =>
      cases reqPath with
      | nil => rfl
      | cons c rest =>
          have hchar : charOrEnd (c :: rest) 0 = .ok c := rfl
          rw [ok_bind, hchar, ok_bind]
          by_cases hslash : c = byte '/'
          · simp [hslash, Except.map, pure, Except.pure]
          · simp [hslash, Except.map, pure, Except.pure]

section Path

variable {handler : StaticHandler} {uri : Str}

/-- **The root is the only string whose last character may be missing.** -/
theorem located_eq (hstarts : handler.path <+: uri) : located handler uri = handler.located uri := by
  unfold located StaticHandler.located
  rw [requestPath_eq, StaticHandler.requestPath_eq hstarts, ok_bind]
  cases hroot : handler.filebase.getLast? with
  | none =>
      have hnil : handler.filebase = [] := List.getLast?_eq_none_iff.mp hroot
      rw [hnil, charAt_lastIndex_nil]
      rfl
  | some c =>
      have hsubstr : substr (byte '/' :: handler.remainder uri) 1 none
          = .ok (handler.remainder uri) := if_pos (by simp)
      rw [charAt_lastIndex hroot, ok_bind, hsubstr]
      by_cases hslash : c = byte '/'
      · simp [hslash, pure, Except.pure]
      · simp [hslash, pure, Except.pure]

theorem filePath_ok_iff (hstarts : handler.path <+: uri) (isDirectory : Bool) :
    (∃ path, filePath isDirectory handler uri = .ok path) ↔ handler.filebase ≠ [] := by
  unfold filePath
  rw [located_eq hstarts]
  by_cases hroot : handler.filebase = []
  · have hlocated : handler.located uri = .error .undefinedBehaviour := by
      unfold StaticHandler.located
      rw [StaticHandler.requestPath_eq hstarts, hroot]
      rfl
    simp [hlocated, hroot]
  · obtain ⟨filepath, hlocated, hne, -⟩ := StaticHandler.located_denoted [] hroot hstarts
    obtain ⟨c, hc⟩ := Option.ne_none_iff_exists'.mp (mt List.getLast?_eq_none_iff.mp hne)
    refine ⟨fun _ => hroot, fun _ => ?_⟩
    rw [hlocated, ok_bind, charAt_lastIndex hc]
    cases isDirectory with
    | false => exact ⟨_, rfl⟩
    | true =>
        by_cases hslash : c = byte '/'
        · exact ⟨_, by rw [if_pos rfl, ok_bind, if_pos hslash]; rfl⟩
        · exact ⟨_, by rw [if_pos rfl, ok_bind, if_neg hslash]; rfl⟩

end Path

/-! ### The root of a block -/

/-- The value of a `root` statement. -/
def rootValue (statement : NginxConfigStatement) : Option Str :=
  match statement.tokens with
  | [key, value] => if key = lit "root" then some value else none
  | _ => none

/-- The value of the last `root` statement; none leaves the root empty. -/
def lastRoot (block : NginxConfig) : Str := ((block.filterMap rootValue).getLast?).getD []

theorem initFrom_filebase {handler s : StaticHandler} {issetMarkdown : Bool} {config : NginxConfig}
    (h : StaticHandler.initFrom handler issetMarkdown config = some s) :
    s.filebase = ((config.filterMap rootValue).getLast?).getD handler.filebase := by
  induction config generalizing handler issetMarkdown with
  | nil =>
      cases h
      rfl
  | cons statement rest ih =>
      unfold StaticHandler.initFrom at h
      split at h
      · rename_i key value htokens
        split at h
        · rename_i hroot
          have hvalue : rootValue statement = some value := by
            simp [rootValue, htokens, hroot]
          rw [ih h, List.filterMap_cons_some hvalue, List.getLast?_cons]
          rfl
        · rename_i hroot
          have hvalue : rootValue statement = none := by
            simp [rootValue, htokens, hroot]
          rw [List.filterMap_cons_none hvalue]
          split at h
          · exact (ih h).trans rfl
          · cases h
      · cases h

/-- The root is there, and so is everything the paths of the requests are made from. -/
structure CanServe (uriPrefix : Str) (handler : StaticHandler) : Prop where
  root : handler.filebase ≠ []
  inBounds : ∀ uri, uriPrefix <+: uri → ∀ isDirectory, ∃ path,
    filePath isDirectory handler uri = .ok path

/-- **A handler that was made can serve exactly when its block has a root.** -/
theorem canServe_iff {uriPrefix : Str} {block : NginxConfig} {handler : StaticHandler}
    (h : StaticHandler.init uriPrefix block = some handler) :
    CanServe uriPrefix handler ↔ lastRoot block ≠ [] := by
  have hroot : handler.filebase = lastRoot block := initFrom_filebase h
  have hpath : handler.path = uriPrefix := initFrom_path h
  rw [← hroot]
  constructor
  · intro hserve
    exact hserve.root
  · intro hne
    refine ⟨hne, fun uri hstarts isDirectory => ?_⟩
    rw [← hpath] at hstarts
    exact (filePath_ok_iff hstarts isDirectory).mpr hne

/-- Of two roots the second counts. -/
theorem canServe_example : CanServe (lit "/s") { filebase := lit "/srv/", path := lit "/s" } ↔
    lastRoot [.mk [lit "root", lit "/www"] none, .mk [lit "root", lit "/srv/"] none] ≠ [] :=
  @canServe_iff (lit "/s") [.mk [lit "root", lit "/www"] none, .mk [lit "root", lit "/srv/"] none]
    { filebase := lit "/srv/", path := lit "/s" } (by decide)

/-- A block without statements. -/
def rootlessConfig : Str := lit "port 8080; path /s StaticHandler \x7b\x7d"

theorem rootless_not_served : ∃ opt : LoadedOptions BuiltinHandler,
    loadOptionsFromStream builtinHandlers rootlessConfig .fresh = .ok (some opt) ∧
    opt.handlerMap[lit "/s"]? = some (.static { path := lit "/s" }) ∧
    StaticHandler.init (lit "/s") [] = some { path := lit "/s" } ∧
    filePath false { path := lit "/s" } (lit "/s/a") = .error .undefinedBehaviour ∧
    ¬CanServe (lit "/s") { path := lit "/s" } := by
  obtain ⟨opt, hload⟩ := exists_of_isSome_join
    (x := loadOptionsFromStream builtinHandlers rootlessConfig .fresh) (by decide +kernel)
  have hhandler : (loadOptionsFromStream builtinHandlers rootlessConfig .fresh).toOption.join.map
      (fun o => o.handlerMap[lit "/s"]?) = some (some (.static { path := lit "/s" })) := by
    decide +kernel
  rw [hload] at hhandler
  refine ⟨opt, hload, Option.some.inj hhandler, rfl, by decide, ?_⟩
  intro hserve
  exact hserve.root rfl

end Checked

end JustEnough
