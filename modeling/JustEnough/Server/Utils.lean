/-
`utils.h`: splitting a line, reading a CRLF line, and the longest-prefix lookup.

Both readers inherit what `getline` does at the end of the input: `split` never
returns a final empty piece, and `getCRLFLine` takes a last line without its line
feed for a whole one.  `mapHasPrefix` counts its prefixes down in an `int`, so for a
string of 2^31 bytes or more it starts from the converted length, and looks only at
the prefixes of that part of the string (`scanned`).
-/
import JustEnough.Lib.Strings

namespace JustEnough

/-! ### `split` -/

/-- The `while (std::getline(ss, next, delim))` loop. -/
def splitFrom (ss : IStream) (delim : UInt8) : List Str :=
  match _h : ss.getline delim with
  | (some next, ss') => next :: splitFrom ss' delim
  | (none, _) => []
termination_by ss.rest.length
decreasing_by exact IStream.getline_lt _h

def split (line : Str) (delim : UInt8) : List Str := splitFrom { rest := line } delim

private theorem not_mem_of_mem_splitOn {delim : UInt8} :
    ∀ {line piece : Str}, piece ∈ line.splitOn delim → delim ∉ piece := by
  intro line
  induction line with
  | nil => intro piece h; simp_all
  | cons c rest ih =>
      intro piece h
      rw [List.splitOn_cons_eq_if_modifyHead] at h
      split at h
      · rcases List.mem_cons.mp h with rfl | h'
        · simp
        · exact ih h'
      · rename_i hc
        obtain ⟨head, tail, ht⟩ := List.exists_cons_of_ne_nil (List.splitOn_ne_nil delim rest)
        rw [ht] at h ih
        rcases List.mem_cons.mp h with rfl | h'
        · have hne : delim ≠ c := fun h' => hc (by simp [h'])
          simpa [hne] using @ih head (by simp)
        · exact ih (by simp [h'])

/-- The pieces between delimiters, without a last one that is empty. -/
def dropFinalEmpty (pieces : List Str) : List Str :=
  if pieces.getLast? = some [] then pieces.dropLast else pieces

theorem splitFrom_some {ss ss' : IStream} {delim : UInt8} {next : Str}
    (h : ss.getline delim = (some next, ss')) :
    splitFrom ss delim = next :: splitFrom ss' delim := by
  rw [splitFrom]
  split <;> simp_all

theorem splitFrom_none {ss ss' : IStream} {delim : UInt8}
    (h : ss.getline delim = (none, ss')) : splitFrom ss delim = [] := by
  rw [splitFrom]
  split <;> simp_all

/-- **`split` cuts at every delimiter and drops a final empty piece.** -/
theorem split_eq (line : Str) (delim : UInt8) :
    split line delim = dropFinalEmpty (line.splitOn delim) := by
  unfold split
  induction hn : line.length using Nat.strong_induction_on generalizing line with
  | _ n ih =>
      by_cases hmem : delim ∈ line
      · obtain ⟨piece, tail, rfl, hd⟩ := List.eq_append_cons_of_mem hmem
        have hrec := ih tail.length (by simp [← hn]; omega) tail rfl
        rw [splitFrom_some (IStream.getline_cons hd tail), hrec,
          List.splitOn_append_cons_self_of_not_mem hd]
        have hne := List.splitOn_ne_nil delim tail
        simp only [dropFinalEmpty, List.getLast?_cons_of_ne_nil hne]
        split <;> simp [List.dropLast_cons_of_ne_nil hne]
      · rw [List.splitOn_eq_singleton hmem]
        by_cases hnil : line = []
        · subst hnil
          rw [splitFrom_none (IStream.getline_nil delim)]
          rfl
        · rw [splitFrom_some (IStream.getline_last hnil hmem),
            splitFrom_none (IStream.getline_not_good [] delim)]
          simp [dropFinalEmpty, hnil]

/-- A final empty piece is a delimiter at the end. -/
theorem intercalate_append_nil {delim : UInt8} {pieces : List Str} (hne : pieces ≠ []) :
    [delim].intercalate (pieces ++ [[]]) = [delim].intercalate pieces ++ [delim] := by
  induction pieces with
  | nil => exact absurd rfl hne
  | cons piece rest ih =>
      by_cases hrest : rest = []
      · simp [hrest]
      · rw [List.cons_append, List.intercalate_cons_of_ne_nil (by simp), ih hrest,
          List.intercalate_cons_of_ne_nil hrest]
        simp

/-- **The lines `split` cuts into given pieces**: those pieces with delimiters between them, and
at most one after them. -/
theorem split_eq_iff {line : Str} {pieces : List Str} {delim : UInt8} (hne : pieces ≠ []) :
    split line delim = pieces ↔ (∀ p ∈ pieces, delim ∉ p) ∧
        (line = [delim].intercalate pieces ∧ pieces.getLast? ≠ some [] ∨
          line = [delim].intercalate pieces ++ [delim]) := by
  have hempty : ∀ p ∈ pieces ++ [[]], (∀ p ∈ pieces, delim ∉ p) → delim ∉ p := by
    intro p hp hfree
    rcases List.mem_append.mp hp with hmem | hnil
    · exact hfree p hmem
    · simp [List.mem_singleton.mp hnil]
  rw [split_eq]
  constructor
  · intro h
    have hjoin : [delim].intercalate (line.splitOn delim) = line := List.intercalate_splitOn delim
    have hpiece : ∀ p ∈ line.splitOn delim, delim ∉ p := fun p hp => not_mem_of_mem_splitOn hp
    unfold dropFinalEmpty at h
    split at h
    · rename_i hlast
      have hpieces : line.splitOn delim = pieces ++ [[]] := by
        rw [← List.dropLast_append_getLast? _ hlast, h]
      rw [hpieces] at hjoin hpiece
      rw [intercalate_append_nil hne] at hjoin
      exact ⟨fun p hp => hpiece p (by simp [hp]), Or.inr hjoin.symm⟩
    · rename_i hlast
      rw [h] at hjoin hpiece hlast
      exact ⟨hpiece, Or.inl ⟨hjoin.symm, hlast⟩⟩
  · rintro ⟨hfree, ⟨rfl, hlast⟩ | rfl⟩
    · rw [List.splitOn_intercalate delim hfree hne, dropFinalEmpty, if_neg hlast]
    · rw [← intercalate_append_nil hne,
        List.splitOn_intercalate delim (fun p hp => hempty p hp hfree) (by simp)]
      simp [dropFinalEmpty]

theorem split_eq_nil_iff {line : Str} {delim : UInt8} : split line delim = [] ↔ line = [] := by
  constructor
  · intro h
    rw [split_eq, dropFinalEmpty] at h
    split at h
    · rename_i hlast
      have hpieces := List.dropLast_append_getLast? _ hlast
      have hjoin : [delim].intercalate (line.splitOn delim) = line := List.intercalate_splitOn delim
      rw [h, List.nil_append] at hpieces
      rw [← hjoin, ← hpieces, List.intercalate_singleton]
    · exact absurd h (List.splitOn_ne_nil delim line)
  · intro h
    rw [split_eq, h]
    rfl

/-- Joined pieces end in what the last of them ends in. -/
theorem getLast?_intercalate {delim : UInt8} {pieces : List Str} {last : Str}
    (hlast : pieces.getLast? = some last) (hne : last ≠ []) :
    ([delim].intercalate pieces).getLast? = last.getLast? := by
  induction pieces with
  | nil => cases hlast
  | cons piece rest ih =>
      by_cases hrest : rest = []
      · obtain rfl : piece = last := by simpa [hrest] using hlast
        rw [hrest, List.intercalate_singleton]
      · rw [List.getLast?_cons_of_ne_nil hrest] at hlast
        have hjoin := ih hlast
        have hjoinne : [delim].intercalate rest ≠ [] := by
          intro hnil
          rw [hnil] at hjoin
          exact hne (List.getLast?_eq_none_iff.mp hjoin.symm)
        rw [List.intercalate_cons_of_ne_nil hrest, List.getLast?_append_of_ne_nil _ hjoinne, hjoin]

/--
**Splitting and joining.**  The pieces are free of the delimiter, and joined with it they
give the line, short of a delimiter at its end.  Pieces free of the delimiter are got
back from their join, unless the last of them is empty.
-/
theorem split_join (line : Str) (delim : UInt8) :
    (∀ p ∈ split line delim, delim ∉ p) ∧
      [delim].intercalate (split line delim)
        = (if line.getLast? = some delim then line.dropLast else line) ∧
      ∀ pieces : List Str, pieces ≠ [] → (∀ p ∈ pieces, delim ∉ p) → pieces.getLast? ≠ some [] →
        split ([delim].intercalate pieces) delim = pieces := by
  refine ⟨?_, ?_, fun pieces hne hfree hlast => ?_⟩
  · intro p hp
    have hne : split line delim ≠ [] := List.ne_nil_of_mem hp
    exact ((split_eq_iff hne).mp rfl).1 p hp
  · by_cases hne : split line delim = []
    · rw [hne, split_eq_nil_iff.mp hne]
      rfl
    · obtain ⟨hfree, ⟨hline, hlast⟩ | hline⟩ := (split_eq_iff hne).mp rfl
      · obtain ⟨last, hsome⟩ := Option.ne_none_iff_exists'.mp (mt List.getLast?_eq_none_iff.mp hne)
        have hlastne : last ≠ [] := by
          intro hnil
          exact hlast (hnil ▸ hsome)
        have hend : line.getLast? = last.getLast? :=
          (congrArg List.getLast? hline).trans (getLast?_intercalate hsome hlastne)
        have hother : line.getLast? ≠ some delim := by
          intro hdelim
          rw [hend] at hdelim
          exact hfree last (List.mem_of_getLast? hsome) (List.mem_of_getLast? hdelim)
        rw [if_neg hother]
        exact hline.symm
      · have hend : line.getLast? = some delim := by
          rw [hline]
          exact List.getLast?_concat
        rw [if_pos hend]
        conv_rhs => rw [hline]
        exact List.dropLast_concat.symm
  · exact (split_eq_iff hne).mpr ⟨hfree, Or.inl ⟨rfl, hlast⟩⟩

/-- The piece in front of the first delimiter may be empty. -/
theorem split_join_example :
    split ([byte ','].intercalate [[], lit "a"]) (byte ',') = [[], lit "a"] :=
  (split_join (lit ",a,") (byte ',')).2.2 [[], lit "a"] (by decide) (by decide) (by decide)

/-- A line cut into exactly two pieces is those pieces, with at most one delimiter after them. -/
theorem split_eq_pair {line a b : Str} {delim : UInt8} :
    split line delim = [a, b] ↔
      delim ∉ a ∧ delim ∉ b ∧
        (line = a ++ delim :: b ∧ b ≠ [] ∨ line = a ++ delim :: b ++ [delim]) := by
  rw [split_eq_iff (by simp)]
  simp [and_assoc]

/-- The same for three pieces. -/
theorem split_eq_triple {line a b c : Str} {delim : UInt8} :
    split line delim = [a, b, c] ↔
      delim ∉ a ∧ delim ∉ b ∧ delim ∉ c ∧
        (line = a ++ delim :: b ++ delim :: c ∧ c ≠ [] ∨
          line = a ++ delim :: b ++ delim :: c ++ [delim]) := by
  rw [split_eq_iff (by simp)]
  simp [and_assoc]
/-! ### `getCRLFLine` -/

/--
The next line without its LF and, when one stands before it, its CR.  On an empty
line the source looks at the byte before the string's first; that byte is taken not
to be a CR, so an empty line stays empty.
-/
def getCRLFLine (ss : IStream) : Str × IStream :=
  match ss.getline (byte '\n') with
  | (some line, ss') => (if line.getLast? = some (byte '\r') then line.dropLast else line, ss')
  | (none, ss') => ([], ss')

theorem getCRLFLine_not_mem {ss ss' : IStream} {line : Str} (h : getCRLFLine ss = (line, ss')) :
    byte '\n' ∉ line := by
  unfold getCRLFLine at h
  split at h
  · rename_i hline
    have hfree := IStream.getline_not_mem hline
    obtain ⟨rfl, -⟩ := Prod.mk.inj h
    split
    · exact fun hmem => hfree (List.mem_of_mem_dropLast hmem)
    · exact hfree
  · obtain ⟨rfl, -⟩ := Prod.mk.inj h
    simp

theorem getCRLFLine_lt {ss ss' : IStream} {line : Str} (h : getCRLFLine ss = (line, ss'))
    (hne : line ≠ []) : ss'.rest.length < ss.rest.length := by
  unfold getCRLFLine at h
  split at h
  · rename_i hline
    obtain ⟨-, rfl⟩ := Prod.mk.inj h
    exact IStream.getline_lt hline
  · obtain ⟨rfl, -⟩ := Prod.mk.inj h
    exact absurd rfl hne

/-! ### `mapHasPrefix` -/

section Prefix

variable {T : Type}

/-- The `for` loop over `prefixSize`, counting down to 1. -/
def mapHasPrefixFrom (m : Std.TreeMap Str T) (s : Str) : Nat → Option T
  | 0 => none
  | prefixSize + 1 =>
    match m[s.take (prefixSize + 1)]? with
    | some v => some v
    | none => mapHasPrefixFrom m s prefixSize

def mapHasPrefix (m : Std.TreeMap Str T) (s : Str) : Option T :=
  if m.size = 0 then none else mapHasPrefixFrom m s (toInt32 s.length).toNat

/-- The part of `s` whose prefixes are looked up. -/
def scanned (s : Str) : Str := s.take (toInt32 s.length).toNat

/-- `k` is the longest key of `m` that is a non-empty prefix of `s`, and `v` its value. -/
structure LongestPrefix (m : Std.TreeMap Str T) (s k : Str) (v : T) : Prop where
  entry : m[k]? = some v
  nonempty : k ≠ []
  isPrefix : k <+: s
  longest : ∀ k' v', m[k']? = some v' → k' ≠ [] → k' <+: s → k'.length ≤ k.length

/-- Some key of `m` is a non-empty prefix of `s`. -/
def HasPrefixKey (m : Std.TreeMap Str T) (s : Str) : Prop :=
  ∃ k v, m[k]? = some v ∧ k ≠ [] ∧ k <+: s

theorem scanned_eq {s : Str} (h : s.length < 2 ^ 31) : scanned s = s := by
  have hint : toInt32 s.length = s.length := by
    unfold toInt32
    rw [Int.bmod_eq_of_le] <;> omega
  rw [scanned, hint]
  simp

theorem scanned_isPrefix (s : Str) : scanned s <+: s := List.take_prefix _ _

theorem LongestPrefix.unique {m : Std.TreeMap Str T} {s k k' : Str} {v v' : T}
    (h : LongestPrefix m s k v) (h' : LongestPrefix m s k' v') : k = k' ∧ v = v' := by
  have hlen : k.length = k'.length :=
    Nat.le_antisymm (h'.longest k v h.entry h.nonempty h.isPrefix)
      (h.longest k' v' h'.entry h'.nonempty h'.isPrefix)
  have hk : k = k' := (List.prefix_of_prefix_length_le h.isPrefix h'.isPrefix hlen.le).eq_of_length hlen
  subst hk
  exact ⟨rfl, by simpa using h.entry.symm.trans h'.entry⟩

/-- The prefixes of `s.take (n + 1)` are those of `s.take n` and itself. -/
private theorem prefix_take_succ {s k : Str} {n : Nat} (h : k <+: s.take (n + 1)) :
    k = s.take (n + 1) ∨ k <+: s.take n := by
  rcases Nat.lt_or_ge n k.length with hlt | hge
  · left
    have hk := List.prefix_iff_eq_take.mp h
    have hlen : k.length ≤ n + 1 := Nat.le_trans h.length_le (List.length_take_le _ _)
    rw [show k.length = n + 1 by omega, List.take_take, Nat.min_self] at hk
    exact hk
  · right
    rw [List.prefix_iff_eq_take.mp h, List.take_take]
    exact List.take_prefix_take_left (by omega)

theorem mapHasPrefixFrom_none {m : Std.TreeMap Str T} {s : Str} :
    ∀ {n : Nat}, mapHasPrefixFrom m s n = none → ¬HasPrefixKey m (s.take n) := by
  intro n
  induction n with
  | zero => rintro - ⟨k, v, -, hne, hk⟩; exact hne (by simpa using hk)
  | succ n ih =>
      rintro h ⟨k, v, hv, hne, hk⟩
      simp only [mapHasPrefixFrom] at h
      split at h
      · cases h
      · rename_i hnone
        rcases prefix_take_succ hk with rfl | hk'
        · rw [hnone] at hv
          cases hv
        · exact ih h ⟨k, v, hv, hne, hk'⟩

theorem mapHasPrefixFrom_some {m : Std.TreeMap Str T} {s : Str} {v : T} :
    ∀ {n : Nat}, n ≤ s.length → mapHasPrefixFrom m s n = some v →
      ∃ k, LongestPrefix m (s.take n) k v := by
  intro n
  induction n with
  | zero => intro _ h; cases h
  | succ n ih =>
      intro hn h
      simp only [mapHasPrefixFrom] at h
      split at h
      · rename_i hsome
        obtain rfl := Option.some.inj h
        refine ⟨s.take (n + 1), hsome, ?_, List.prefix_refl _, fun k' _ _ _ hk' => hk'.length_le⟩
        intro hnil
        have : (s.take (n + 1)).length = 0 := by rw [hnil]; rfl
        rw [List.length_take] at this
        omega
      · rename_i hnone
        obtain ⟨k, hk⟩ := ih (by omega) h
        refine ⟨k, hk.entry, hk.nonempty,
          hk.isPrefix.trans (List.take_prefix_take_left (by omega)), ?_⟩
        intro k' v' hv' hne' hk'
        rcases prefix_take_succ hk' with rfl | hk''
        · rw [hnone] at hv'
          cases hv'
        · exact hk.longest k' v' hv' hne' hk''

/-- The loop never starts beyond the end of the string. -/
private theorem toInt32_toNat_le (n : Nat) : (toInt32 n).toNat ≤ n := by
  have h : toInt32 n ≤ n := by
    unfold toInt32
    rcases Nat.lt_or_ge n (2 ^ 31) with hlt | hge
    · rw [Int.bmod_eq_of_le] <;> omega
    · have := Int.bmod_lt (x := n) (m := 2 ^ 32) (by omega)
      omega
  omega

private theorem getElem?_of_size_eq_zero {m : Std.TreeMap Str T} (h : m.size = 0) (k : Str) :
    m[k]? = none := by
  have hempty : m.isEmpty = true := by rw [Std.TreeMap.isEmpty_eq_size_eq_zero]; simpa using h
  exact Std.TreeMap.getElem?_of_isEmpty hempty

/-- **The lookup finds the value of the longest key that is a prefix of the scanned part.** -/
theorem mapHasPrefix_some_iff {m : Std.TreeMap Str T} {s : Str} {v : T} :
    mapHasPrefix m s = some v ↔ ∃ k, LongestPrefix m (scanned s) k v := by
  have hsome : ∀ {w : T}, mapHasPrefix m s = some w → ∃ k, LongestPrefix m (scanned s) k w := by
    intro w h
    unfold mapHasPrefix at h
    split at h
    · cases h
    · exact mapHasPrefixFrom_some (toInt32_toNat_le _) h
  refine ⟨hsome, ?_⟩
  rintro ⟨k, hk⟩
  cases h : mapHasPrefix m s with
  | some w =>
      obtain ⟨k', hk'⟩ := hsome h
      rw [(hk'.unique hk).2]
  | none =>
      unfold mapHasPrefix at h
      split at h
      · rename_i hzero
        have := hk.entry
        rw [getElem?_of_size_eq_zero hzero] at this
        cases this
      · exact absurd ⟨k, v, hk.entry, hk.nonempty, hk.isPrefix⟩ (mapHasPrefixFrom_none h)

/-- **It finds nothing exactly when no key is a prefix of the scanned part.** -/
theorem mapHasPrefix_none_iff {m : Std.TreeMap Str T} {s : Str} :
    mapHasPrefix m s = none ↔ ¬HasPrefixKey m (scanned s) := by
  constructor
  · intro h
    unfold mapHasPrefix at h
    split at h
    · rename_i hzero
      rintro ⟨k, v, hv, -⟩
      rw [getElem?_of_size_eq_zero hzero] at hv
      cases hv
    · exact mapHasPrefixFrom_none h
  · intro h
    cases hm : mapHasPrefix m s with
    | none => rfl
    | some v =>
        obtain ⟨k, hk⟩ := mapHasPrefix_some_iff.mp hm
        exact absurd ⟨k, v, hk.entry, hk.nonempty, hk.isPrefix⟩ h

end Prefix

end JustEnough
