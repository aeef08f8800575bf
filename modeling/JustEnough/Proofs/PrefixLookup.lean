/-
The longest-prefix lookup and the routing that rests on it.

`mapHasPrefix` finds the value of the longest key that is a prefix of the part of the
string it scans (`mapHasPrefix_some_iff`).  That part is the whole string below 2^31
bytes.  From there on the `int` the length is converted to is negative, or smaller than
the length, and longer keys are passed over; then the answer is still right where a
shorter key has the same value (`findsLongest_iff`).
-/
import JustEnough.Server.Webserver

namespace JustEnough

section Lookup

variable {T : Type} {m : Std.TreeMap Str T} {s : Str}

/-- The lookup gives the value of the longest key that is a prefix, and nothing only if none is. -/
structure FindsLongest (m : Std.TreeMap Str T) (s : Str) : Prop where
  found : ∀ v, mapHasPrefix m s = some v ↔ ∃ k, LongestPrefix m s k v
  missing : mapHasPrefix m s = none ↔ ¬HasPrefixKey m s

/-- The longest key fits in the scanned part, or the longest that does has the same value. -/
def LongestScanned (m : Std.TreeMap Str T) (s : Str) : Prop :=
  ∀ k v, LongestPrefix m s k v →
    k.length ≤ (scanned s).length ∨ ∃ k', LongestPrefix m (scanned s) k' v

/-- Where some key is a prefix, one of them is the longest. -/
theorem exists_longestPrefix (h : HasPrefixKey m s) : ∃ k v, LongestPrefix m s k v := by
  cases hfrom : mapHasPrefixFrom m s s.length with
  | none =>
      have hno := mapHasPrefixFrom_none hfrom
      rw [List.take_length] at hno
      exact absurd h hno
  | some v =>
      obtain ⟨k, hk⟩ := mapHasPrefixFrom_some (Nat.le_refl _) hfrom
      rw [List.take_length] at hk
      exact ⟨k, v, hk⟩

theorem LongestPrefix.hasPrefixKey {k : Str} {v : T} (h : LongestPrefix m s k v) :
    HasPrefixKey m s := ⟨k, v, h.entry, h.nonempty, h.isPrefix⟩

theorem HasPrefixKey.of_scanned (h : HasPrefixKey m (scanned s)) : HasPrefixKey m s := by
  obtain ⟨k, v, hentry, hne, hfront⟩ := h
  exact ⟨k, v, hentry, hne, hfront.trans (scanned_isPrefix s)⟩

/-- A longest key that fits in the scanned part is found. -/
theorem LongestPrefix.inScanned {k : Str} {v : T} (h : LongestPrefix m s k v)
    (hlen : k.length ≤ (scanned s).length) : LongestPrefix m (scanned s) k v := by
  have hwhole := scanned_isPrefix s
  generalize scanned s = front at hlen hwhole ⊢
  refine ⟨h.entry, h.nonempty, List.prefix_of_prefix_length_le h.isPrefix hwhole hlen, ?_⟩
  intro k' v' hentry hne hfront
  exact h.longest k' v' hentry hne (hfront.trans hwhole)

/-- **The lookup is right** where the longest key is scanned. -/
theorem findsLongest_iff : FindsLongest m s ↔ LongestScanned m s := by
  constructor
  · intro hfinds k v hk
    exact Or.inr (mapHasPrefix_some_iff.mp ((hfinds.found v).mpr ⟨k, hk⟩))
  · intro hscanned
    by_cases hkey : HasPrefixKey m s
    · obtain ⟨k, v, hk⟩ := exists_longestPrefix hkey
      have hfound : mapHasPrefix m s = some v := by
        rw [mapHasPrefix_some_iff]
        rcases hscanned k v hk with hlen | hsame
        · exact ⟨k, hk.inScanned hlen⟩
        · exact hsame
      refine ⟨fun w => ?_, by simp [hfound, hkey]⟩
      rw [hfound, Option.some.injEq]
      constructor
      · rintro rfl
        exact ⟨k, hk⟩
      · rintro ⟨k', hk'⟩
        exact (hk.unique hk').2
    · have hnone : mapHasPrefix m s = none :=
        mapHasPrefix_none_iff.mpr fun h => hkey h.of_scanned
      refine ⟨fun w => ?_, by simp [hnone, hkey]⟩
      rw [hnone]
      constructor
      · intro h
        cases h
      · rintro ⟨k, hk⟩
        exact absurd hk.hasPrefixKey hkey

theorem longestScanned_of_lt (h : s.length < 2 ^ 31) : LongestScanned m s := by
  intro k v hk
  rw [scanned_eq h]
  exact Or.inl hk.isPrefix.length_le

end Lookup

/-! ### Routing -/

namespace Webserver

variable {H W : Type}

/-- A request goes to the handler of the longest path it is under, or else to the default one. -/
structure RoutesLongest (ws : Webserver H W) (req : Request) : Prop where
  matched : ∀ path h, LongestPrefix ws.opt.handlerMap req.uri path h →
    ws.matchRequestWithHandler req = some h
  unmatched : ¬HasPrefixKey ws.opt.handlerMap req.uri →
    ws.matchRequestWithHandler req = ws.opt.defaultHandler

/-- The longest path fits in the scanned part of the URI, or what is found instead is its handler. -/
def RouteScanned (ws : Webserver H W) (req : Request) : Prop :=
  ∀ path h, LongestPrefix ws.opt.handlerMap req.uri path h →
    path.length ≤ (scanned req.uri).length ∨
      (∃ path', LongestPrefix ws.opt.handlerMap (scanned req.uri) path' h) ∨
      ¬HasPrefixKey ws.opt.handlerMap (scanned req.uri) ∧ ws.opt.defaultHandler = some h

theorem routesLongest_iff {ws : Webserver H W} {req : Request} :
    ws.RoutesLongest req ↔ ws.RouteScanned req := by
  constructor
  · intro hroutes path h hpath
    rcases matchRequestWithHandler_some (hroutes.matched path h hpath) with hfound | ⟨hnone, hdefault⟩
    · exact Or.inr (Or.inl (mapHasPrefix_some_iff.mp hfound))
    · exact Or.inr (Or.inr ⟨mapHasPrefix_none_iff.mp hnone, hdefault⟩)
  · intro hscanned
    unfold RouteScanned at hscanned
    refine ⟨fun path h hpath => ?_, fun hno => ?_⟩
    · unfold matchRequestWithHandler
      rcases hscanned path h hpath with hlen | hsame | ⟨hno, hdefault⟩
      · rw [mapHasPrefix_some_iff.mpr ⟨path, hpath.inScanned hlen⟩]
      · rw [mapHasPrefix_some_iff.mpr hsame]
      · rw [mapHasPrefix_none_iff.mpr hno, hdefault]
    · unfold matchRequestWithHandler
      rw [mapHasPrefix_none_iff.mpr fun h => hno h.of_scanned]

end Webserver

/--
**Longest-prefix lookup and routing** are right exactly where the longest key that is a prefix
lies in the part that is scanned, or a shorter one leads to the same value.
-/
theorem longest_prefix_iff {T H W : Type} (m : Std.TreeMap Str T) (s : Str) (ws : Webserver H W)
    (req : Request) :
    (FindsLongest m s ↔ LongestScanned m s) ∧ (ws.RoutesLongest req ↔ ws.RouteScanned req) :=
  ⟨findsLongest_iff, Webserver.routesLongest_iff⟩

/-- A string as long as no `int` can say is not looked up at all. -/
theorem longest_prefix_missed :
    ¬FindsLongest ((∅ : Std.TreeMap Str Unit).insert (lit "/") ())
      (List.replicate (2 ^ 31) (byte '/')) := by
  generalize hn : 2 ^ 31 = n
  have hint : toInt32 n = -2 ^ 31 := by
    rw [← hn]
    decide
  have hscanned : scanned (List.replicate n (byte '/')) = [] := by
    rw [scanned, List.length_replicate, hint]
    rfl
  have hkey : HasPrefixKey ((∅ : Std.TreeMap Str Unit).insert (lit "/") ())
      (List.replicate n (byte '/')) := by
    obtain ⟨k, rfl⟩ := Nat.exists_eq_add_one_of_ne_zero (show n ≠ 0 by omega)
    refine ⟨lit "/", (), Std.TreeMap.getElem?_insert_self, by decide, ?_⟩
    rw [List.replicate_succ]
    exact List.prefix_append [byte '/'] _
  intro hfinds
  refine (hfinds.missing.mp (mapHasPrefix_none_iff.mpr ?_)) hkey
  rw [hscanned]
  rintro ⟨k, v, -, hne, hfront⟩
  exact hne (List.prefix_nil.mp hfront)

end JustEnough
