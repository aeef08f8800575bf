/-
Where the paths of the static handler lead.

The handler puts the rest of the URI behind its root with exactly one slash between
them, so the file it opens is found by walking from the root directory along the
segments of that rest, up to the first NUL byte, and one step further where the walk ends
in a directory (`filePath_eq`).  Nothing in the code looks at the segments.

Whether the walk stays at or below the root is therefore a matter of the segments
alone (`static_confined_iff`).  And a realm protects a directory from its files' plain
names (`PlainlySpelled.named`), but not from a URI that spells the directory in another
way than any realm does (`static_guarded_iff`).
-/
import JustEnough.Lib.Paths
import JustEnough.Server.StaticHandler
import JustEnough.Server.Webserver
import JustEnough.Proofs.Authentication

namespace JustEnough

namespace StaticHandler

variable {fs : FileSystem} {sh : StaticHandler} {uri path : Str}

/-! ### The walk of a request -/

/-- The URI after the prefix and one slash. -/
def remainder (sh : StaticHandler) (uri : Str) : Str :=
  let rest := uri.drop sh.path.length
  if rest.head? = some (byte '/') then rest.tail else rest

/-- The moves that `rest` adds to a path: none where that has a NUL byte. -/
def movesAfter (path rest : Str) : List (Move Str) :=
  if 0 ∈ path then [] else moves (cString rest)

/-- The moves a request makes from the root directory. -/
def requestMoves (sh : StaticHandler) (uri : Str) (isDirectory : Bool) : List (Move Str) :=
  movesAfter sh.filebase (sh.remainder uri) ++
    if isDirectory then movesAfter (sh.filebase ++ sh.remainder uri) indexFile else []

/-- What the operating system finds under a name: it reads a C string. -/
def denoted (cwd : List Str) (path : Str) : List Str := resolve cwd (cString path)

theorem requestPath_eq (hstarts : sh.path <+: uri) :
    sh.requestPath uri = .ok (byte '/' :: sh.remainder uri) := by
  have hlen := hstarts.length_le
  simp only [requestPath, substr, if_pos hlen, Except.map, remainder]
  cases h : uri.drop sh.path.length with
  | nil => simp
  | cons c rest =>
      by_cases hc : c = byte '/'
      · simp [hc]
      · simp [hc]

/-- Joining with a slash continues the walk, up to the first NUL byte. -/
theorem denoted_join (cwd : List Str) {a : Str} (ha : a ≠ []) (b : Str) :
    denoted cwd (a ++ byte '/' :: b) = walk (denoted cwd a) (movesAfter a b) := by
  unfold denoted movesAfter
  by_cases hnul : 0 ∈ a
  · rw [if_pos hnul, cString_append_of_mem hnul, walk_nil]
  · have hslash : cString (byte '/' :: b) = byte '/' :: cString b := rfl
    rw [if_neg hnul, cString_append hnul, cString_of_not_mem hnul, hslash, resolve_join cwd ha]

/-- So does what follows a final slash. -/
theorem denoted_join_slash (cwd : List Str) {a : Str} (ha : a.getLast? = some (byte '/')) (b : Str) :
    denoted cwd (a ++ b) = walk (denoted cwd a) (movesAfter a b) := by
  unfold denoted movesAfter
  by_cases hnul : 0 ∈ a
  · rw [if_pos hnul, cString_append_of_mem hnul, walk_nil]
  · rw [if_neg hnul, cString_append hnul, cString_of_not_mem hnul, resolve_join_slash cwd ha]

/-- Only whether there is a NUL byte matters of the path in front. -/
theorem movesAfter_congr {a b : Str} (h : 0 ∈ a ↔ 0 ∈ b) (rest : Str) :
    movesAfter a rest = movesAfter b rest := by
  simp only [movesAfter, h]

theorem zero_ne_slash : (0 : UInt8) ≠ byte '/' := by decide

/-- **A request's path is a walk from the root directory.** -/
theorem located_denoted (cwd : List Str) (hroot : sh.filebase ≠ []) (hstarts : sh.path <+: uri) :
    ∃ filepath, sh.located uri = .ok filepath ∧ filepath ≠ [] ∧
      (0 ∈ filepath ↔ 0 ∈ sh.filebase ++ sh.remainder uri) ∧
      denoted cwd filepath
        = walk (denoted cwd sh.filebase) (movesAfter sh.filebase (sh.remainder uri)) := by
  unfold located
  rw [requestPath_eq hstarts]
  obtain ⟨c, hc⟩ : ∃ c, sh.filebase.getLast? = some c :=
    ⟨_, List.getLast?_eq_some_getLast hroot⟩
  simp only [hc, List.drop_succ_cons, List.drop_zero]
  by_cases hslash : c = byte '/'
  · subst hslash
    exact ⟨_, congrArg Except.ok (if_pos rfl), by simp [hroot], Iff.rfl,
      denoted_join_slash cwd hc _⟩
  · exact ⟨_, congrArg Except.ok (if_neg hslash), by simp, by simp [zero_ne_slash],
      denoted_join cwd hroot _⟩

/-- The index file is looked for in the directory the walk has led to. -/
theorem denoted_index (cwd : List Str) {filepath : Str} (hne : filepath ≠ []) :
    denoted cwd ((if filepath.getLast? = some (byte '/') then filepath else filepath ++ lit "/") ++
      indexFile) = walk (denoted cwd filepath) (movesAfter filepath indexFile) := by
  by_cases hslash : filepath.getLast? = some (byte '/')
  · rw [if_pos hslash, denoted_join_slash cwd hslash]
  · rw [if_neg hslash, List.append_assoc]
    exact denoted_join cwd hne indexFile

/-- **The path given to `openFile`**, wherever the file system gives an answer. -/
theorem filePath_eq (cwd : List Str) (hroot : sh.filebase ≠ []) (hstarts : sh.path <+: uri) :
    ∃ filepath, sh.located uri = .ok filepath ∧
      (∀ e, fs.isDirectory (cString filepath) = .error e → sh.filePath fs uri = .error e) ∧
      ∀ dir, fs.isDirectory (cString filepath) = .ok dir → ∃ path, sh.filePath fs uri = .ok path ∧
        denoted cwd path = walk (denoted cwd sh.filebase) (sh.requestMoves uri dir) := by
  obtain ⟨filepath, hlocated, hne, hnul, hdenoted⟩ := located_denoted cwd hroot hstarts
  refine ⟨filepath, hlocated, fun e he => by simp [filePath, hlocated, he, Except.map],
    fun dir hdir => ?_⟩
  simp only [filePath, hlocated, hdir, Except.map]
  refine ⟨_, rfl, ?_⟩
  rw [requestMoves, walk_append, ← hdenoted, ← movesAfter_congr hnul]
  cases dir with
  | true => exact denoted_index cwd hne
  | false => rfl

/-- What the file system says of the place a request leads to, if it says anything. -/
def IsDirectoryAt (fs : FileSystem) (sh : StaticHandler) (uri : Str) (dir : Bool) : Prop :=
  ∃ filepath, sh.located uri = .ok filepath ∧ fs.isDirectory (cString filepath) = .ok dir

/-- What holds of the file a request opens, in terms of its walk. -/
theorem forall_filePath_iff (cwd : List Str) (hroot : sh.filebase ≠ [])
    (hstarts : sh.path <+: uri) (P : List Str → Prop) :
    (∀ path, sh.filePath fs uri = .ok path → P (denoted cwd path)) ↔
      ∀ dir, IsDirectoryAt fs sh uri dir →
        P (walk (denoted cwd sh.filebase) (sh.requestMoves uri dir)) := by
  obtain ⟨filepath, hlocated, herror, hok⟩ := @filePath_eq fs sh uri cwd hroot hstarts
  constructor
  · rintro h dir ⟨filepath', hlocated', hdir⟩
    obtain rfl : filepath = filepath' := by
      rw [hlocated] at hlocated'
      exact Except.ok.inj hlocated'
    obtain ⟨path, hpath, hdenoted⟩ := hok dir hdir
    exact hdenoted ▸ h path hpath
  · intro h path hpath
    cases hdir : fs.isDirectory (cString filepath) with
    | error e =>
        rw [herror e hdir] at hpath
        cases hpath
    | ok dir =>
        obtain ⟨path', hpath', hdenoted⟩ := hok dir hdir
        obtain rfl : path' = path := by
          rw [hpath'] at hpath
          exact Except.ok.inj hpath
        rw [hdenoted]
        exact h dir ⟨filepath, hlocated, hdir⟩

/-! ### Staying below the root -/

/-- The file opened for `uri` is at or below the root. -/
def RootConfined (fs : FileSystem) (cwd : List Str) (sh : StaticHandler) (uri : Str) : Prop :=
  ∀ path, sh.filePath fs uri = .ok path → denoted cwd sh.filebase <+: denoted cwd path

/--
**A request stays below the root exactly when its segments do**: cancel each `..`
against the name before it; the names the remaining ones climb out of, at the end of
the root, have to be entered again.
-/
theorem static_confined_iff (cwd : List Str) (hroot : sh.filebase ≠ [])
    (hstarts : sh.path <+: uri) :
    RootConfined fs cwd sh uri ↔ ∀ dir, IsDirectoryAt fs sh uri dir →
      abandoned (denoted cwd sh.filebase) (sh.requestMoves uri dir)
        <+: (net (sh.requestMoves uri dir)).2 := by
  unfold RootConfined
  rw [forall_filePath_iff cwd hroot hstarts (denoted cwd sh.filebase <+: ·)]
  simp only [confined_iff]

/-- A file system with no directories and no files. -/
def emptyFileSystem : FileSystem := { isDirectory := fun _ => .ok false, contents := fun _ => none }

/-- The root is left for the file next to it, `/srv/x`. -/
theorem static_not_confined :
    ¬RootConfined emptyFileSystem [] { filebase := lit "/srv/www", path := lit "/static" }
      (lit "/static/../x") := by
  intro h
  have hpath := h (lit "/srv/www/../x") (by decide)
  revert hpath
  decide

/-- The root is left and entered again. -/
theorem static_confined_example :
    RootConfined emptyFileSystem [] { filebase := lit "/srv/www", path := lit "/static" }
      (lit "/static/a/../../www/b.html") :=
  (static_confined_iff [] (by decide) (by decide)).mpr (by
    rintro (_ | _) -
    · decide
    · decide)

/-- Without a `..` there is no way out. -/
theorem confined_of_no_up (cwd : List Str) (hroot : sh.filebase ≠ []) (hstarts : sh.path <+: uri)
    (h : .up ∉ moves (cString (sh.remainder uri))) : RootConfined fs cwd sh uri := by
  have hafter : ∀ (path : Str) {rest : Str}, .up ∉ moves (cString rest) →
      .up ∉ movesAfter path rest := by
    intro path rest hrest
    unfold movesAfter
    split
    · exact List.not_mem_nil
    · exact hrest
  unfold RootConfined
  rw [forall_filePath_iff cwd hroot hstarts (denoted cwd sh.filebase <+: ·)]
  intro dir _
  refine prefix_walk_of_no_up fun hup => ?_
  rcases List.mem_append.mp hup with hup | hup
  · exact hafter _ h hup
  · cases dir with
    | true => exact hafter _ (by decide) hup
    | false => exact List.not_mem_nil hup

/-! ### Realms over files -/

section Realm

variable {H W : Type} {ws : Webserver H W} {h : H} {convertMarkdownToHtml : Str → Str}

/-- `h` is a static handler, under its own prefix and nowhere else. -/
structure Mounted (ws : Webserver H W) (fs : FileSystem) (convertMarkdownToHtml : Str → Str)
    (h : H) (sh : StaticHandler) : Prop where
  serves : ∀ req resp s, ws.handleRequest h req resp s
    = (.ofExcept (sh.handleRequest fs convertMarkdownToHtml req resp), s)
  inMap : ∀ k, ws.opt.handlerMap[k]? = some h → k = sh.path
  /-- The default handler is made with an empty prefix. -/
  asDefault : ws.opt.defaultHandler = some h → sh.path = []

/-- Every request routed to the handler begins with its prefix. -/
theorem Mounted.isPrefix (hmount : Mounted ws fs convertMarkdownToHtml h sh) {req : Request}
    (hroute : ws.matchRequestWithHandler req = some h) : sh.path <+: req.uri := by
  rcases Webserver.matchRequestWithHandler_some hroute with hmap | ⟨-, hdefault⟩
  · obtain ⟨k, hk⟩ := mapHasPrefix_some_iff.mp hmap
    rw [← hmount.inMap k hk.entry]
    exact hk.isPrefix.trans (scanned_isPrefix req.uri)
  · rw [hmount.asDefault hdefault]
    exact List.nil_prefix

/-- A name that is neither `.` nor `..` and has no slash and no NUL byte in it. -/
def PlainName (name : Str) : Prop :=
  byte '/' ∉ name ∧ 0 ∉ name ∧ name ≠ [] ∧ name ≠ lit "." ∧ name ≠ lit ".."

/-- The names with one slash in front of each. -/
def plainPath (names : List Str) : Str := names.flatMap (byte '/' :: ·)

/--
Nothing about the root, the realm and the URI leaves a choice of how to spell a path: no
empty, `.` or `..` segment, no slash too few or too many, no NUL byte, and no index file
that is left to the server to add.
-/
structure PlainlySpelled (sh : StaticHandler) (q uri : Str) (dir : Bool) : Prop where
  root : 0 ∉ sh.filebase
  realm : ∃ names, (∀ n ∈ names, PlainName n) ∧ q = plainPath names ∧
    (dir = true → names.getLast? ≠ some indexFile)
  request : ∃ names, (∀ n ∈ names, PlainName n) ∧ uri = sh.path ++ plainPath names
  /-- Longer ones are not scanned whole. -/
  length : uri.length < 2 ^ 31

/-- With each `..` cancelled, the segments of the URI begin with those of `q`. -/
def Spells (cwd : List Str) (sh : StaticHandler) (q uri : Str) (dir : Bool) : Prop :=
  follow (denoted cwd sh.filebase) (net (movesAfter sh.filebase q))
    <+: follow (denoted cwd sh.filebase) (net (sh.requestMoves uri dir))

theorem cString_plainPath {names : List Str} (h : ∀ n ∈ names, PlainName n) :
    cString (plainPath names) = plainPath names := by
  apply cString_of_not_mem
  intro hzero
  obtain ⟨name, hname, hmem⟩ := List.mem_flatMap.mp hzero
  rcases List.mem_cons.mp hmem with hslash | hmem
  · exact zero_ne_slash hslash
  · exact (h name hname).2.1 hmem

theorem moves_plainPath {names : List Str} (h : ∀ n ∈ names, PlainName n) :
    moves (plainPath names) = .stay :: names.map .down := by
  induction names using List.reverseRecOn with
  | nil => rfl
  | append_singleton names name ih =>
      obtain ⟨hslash, -, hne, hdot, hdots⟩ := h name (by simp)
      have hsplit : plainPath (names ++ [name]) = plainPath names ++ byte '/' :: name := by
        simp [plainPath]
      rw [hsplit, moves_slash, ih fun n hn => h n (by simp [hn]), moves_name hslash hne hdot hdots]
      simp

/-- Where plain names behind a plain path lead. -/
theorem walk_plainPath (dir : List Str) {path : Str} (hpath : 0 ∉ path) {names : List Str}
    (h : ∀ n ∈ names, PlainName n) :
    walk dir (movesAfter path (plainPath names)) = dir ++ names := by
  rw [movesAfter, if_neg hpath, cString_plainPath h, moves_plainPath h, walk_cons]
  exact walk_downs dir names

/-- Leaving out the first slash changes nothing. -/
theorem walk_remainder (dir : List Str) (path : Str) (sh : StaticHandler) (uri : Str) :
    walk dir (movesAfter path (sh.remainder uri))
      = walk dir (movesAfter path (uri.drop sh.path.length)) := by
  unfold remainder
  cases huri : uri.drop sh.path.length with
  | nil => rfl
  | cons c rest =>
      by_cases hc : c = byte '/'
      · subst hc
        have hslash : moves (cString (byte '/' :: rest)) = .stay :: moves (cString rest) :=
          moves_slash [] (cString rest)
        simp only [List.head?_cons, if_true, List.tail_cons, movesAfter, hslash]
        split <;> rfl
      · simp [hc]

/-- **Spelled plainly, the URI and the realm agree on what they protect.** -/
theorem PlainlySpelled.named {cwd : List Str} {q : Str} {dir : Bool} {auth : Authentication}
    {realm : AuthenticationRealm} (h : PlainlySpelled sh q uri dir)
    (hq : q.head? = some (byte '/')) (hrealm : auth.realms[sh.path ++ q]? = some realm)
    (hspells : Spells cwd sh q uri dir) : HasPrefixKey auth.realms (scanned uri) := by
  obtain ⟨realmNames, hplain, rfl, hindex⟩ := h.realm
  obtain ⟨names, hnames, rfl⟩ := h.request
  -- both walks enter one directory after another
  rw [Spells, ← walk_eq_follow, ← walk_eq_follow, walk_plainPath _ h.root hplain, requestMoves,
    walk_append, walk_remainder, List.drop_left, walk_plainPath _ h.root hnames] at hspells
  have hprefix : realmNames <+: names := by
    cases dir with
    | false => exact (List.prefix_append_right_inj _).mp hspells
    | true =>
        have hstep : ∀ dir', ∃ last : List Str, walk dir' (movesAfter
            (sh.filebase ++ sh.remainder (sh.path ++ plainPath names)) indexFile) = dir' ++ last ∧
              (last = [] ∨ last = [indexFile]) := by
          intro dir'
          unfold movesAfter
          split
          · exact ⟨[], by simp, Or.inl rfl⟩
          · exact ⟨[indexFile], rfl, Or.inr rfl⟩
        obtain ⟨last, hlast, hcases⟩ := hstep (denoted cwd sh.filebase ++ names)
        rw [if_pos rfl, hlast, List.append_assoc, List.prefix_append_right_inj] at hspells
        rcases hcases with rfl | rfl
        · rwa [List.append_nil] at hspells
        · rcases List.prefix_concat_iff.mp hspells with heq | hspells
          · exact absurd (by rw [heq]; simp) (hindex rfl)
          · exact hspells
  rw [scanned_eq h.length]
  refine ⟨_, realm, hrealm, ?_, ?_⟩
  · intro hnil
    rw [(List.append_eq_nil_iff.mp hnil).2] at hq
    cases hq
  · obtain ⟨rest, rfl⟩ := hprefix
    rw [plainPath, plainPath, List.flatMap_append, ← List.append_assoc]
    exact List.prefix_append _ _

end Realm

end StaticHandler

end JustEnough
