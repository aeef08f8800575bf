/-
What a path denotes.

A directory is the list of names leading to it from the root.  Following a path is
a walk over its segments: an empty segment or `.` stays, `..` goes to the parent
(the root is its own parent), and a name goes down.  There are no symbolic links,
so nothing but the segments decides where a walk ends.

The question every use of this file asks is whether a walk that starts in some
directory ends in it or below it.  `confined_iff` answers it from the walk alone:
cancel each `..` against the name before it, and what remains is a number of steps
up followed by names (`net`).  The walk stays below its start exactly when those
names begin with the ones the steps up have removed.
-/
import JustEnough.Lib.Strings

namespace JustEnough

/-! ### Walks over an arbitrary kind of name -/

section Walk

variable {S : Type}

/-- What one segment of a path does. -/
inductive Move (S : Type)
  | stay
  | up
  | down (name : S)
  deriving DecidableEq

/-- One step of a walk. -/
def Move.step (dir : List S) : Move S → List S
  | .stay => dir
  | .up => dir.dropLast
  | .down name => dir ++ [name]

/-- Where a walk from `dir` ends. -/
def walk (dir : List S) (moves : List (Move S)) : List S :=
  moves.foldl Move.step dir

@[simp] theorem walk_nil (dir : List S) : walk dir [] = dir := rfl

@[simp] theorem walk_cons (dir : List S) (m : Move S) (ms : List (Move S)) :
    walk dir (m :: ms) = walk (m.step dir) ms := rfl

theorem walk_append (dir : List S) (ms ns : List (Move S)) :
    walk dir (ms ++ ns) = walk (walk dir ms) ns := List.foldl_append

/-- Steps up still to be made from the start, and the names entered after them. -/
def Move.cancel (st : Nat × List S) : Move S → Nat × List S
  | .stay => st
  | .up => if st.2 = [] then (st.1 + 1, []) else (st.1, st.2.dropLast)
  | .down name => (st.1, st.2 ++ [name])

/-- A walk with each `..` cancelled against the name before it. -/
def net (moves : List (Move S)) : Nat × List S :=
  moves.foldl Move.cancel (0, [])

/-- The directory `st` describes, seen from `dir`. -/
def follow (dir : List S) (st : Nat × List S) : List S :=
  dir.take (dir.length - st.1) ++ st.2

theorem follow_cancel (dir : List S) (st : Nat × List S) (m : Move S) :
    follow dir (m.cancel st) = m.step (follow dir st) := by
  obtain ⟨ups, names⟩ := st
  cases m with
  | stay => rfl
  | up =>
      by_cases hnil : names = []
      · subst hnil
        simp only [Move.cancel, follow, Move.step, if_true, List.append_nil]
        rw [List.dropLast_eq_take, List.take_take, List.length_take]
        congr 1
        omega
      · simp only [Move.cancel, if_neg hnil, follow, Move.step]
        rw [List.dropLast_append_of_ne_nil hnil]
  | down name => simp [Move.cancel, follow, Move.step]

/-- **A walk is determined by its net effect.** -/
theorem walk_eq_follow (dir : List S) (moves : List (Move S)) :
    walk dir moves = follow dir (net moves) := by
  have key : ∀ (ms : List (Move S)) (st : Nat × List S),
      walk (follow dir st) ms = follow dir (ms.foldl Move.cancel st) := by
    intro ms
    induction ms with
    | nil => intro st; rfl
    | cons m rest ih =>
        intro st
        rw [walk_cons, ← follow_cancel, ih]
        rfl
  have h := key moves (0, [])
  rwa [show follow dir (0, []) = dir by simp [follow]] at h

/-- The names a walk's steps up remove from the end of `dir`. -/
def abandoned (dir : List S) (moves : List (Move S)) : List S :=
  dir.drop (dir.length - (net moves).1)

/-- **A walk ends at or below its start exactly when it re-enters what it left.** -/
theorem confined_iff (dir : List S) (moves : List (Move S)) :
    dir <+: walk dir moves ↔ abandoned dir moves <+: (net moves).2 := by
  rw [walk_eq_follow, follow, abandoned]
  conv_lhs => lhs; rw [← List.take_append_drop (dir.length - (net moves).1) dir]
  exact List.prefix_append_right_inj _

/-- A walk that never goes up stays where it is or below. -/
theorem prefix_walk_of_no_up {dir : List S} {ms : List (Move S)} (h : .up ∉ ms) :
    dir <+: walk dir ms := by
  induction ms generalizing dir with
  | nil => exact List.prefix_refl dir
  | cons m ms ih =>
      simp only [List.mem_cons, not_or] at h
      refine List.IsPrefix.trans ?_ (ih h.2)
      cases m with
      | stay => exact List.prefix_refl dir
      | up => exact absurd rfl h.1
      | down name => exact List.prefix_append dir [name]

/-- Moves that only enter directories accumulate their names. -/
theorem walk_downs (dir : List S) (names : List S) :
    walk dir (names.map .down) = dir ++ names := by
  induction names generalizing dir with
  | nil => simp
  | cons n rest ih => simp [ih, Move.step]

end Walk

/-! ### Paths as the operating system reads them -/

/-- The segment a path is cut into between slashes, as a move. -/
def move (segment : Str) : Move Str :=
  if segment = [] ∨ segment = lit "." then .stay
  else if segment = lit ".." then .up
  else .down segment

/-- The moves a path spells. -/
def moves (path : Str) : List (Move Str) :=
  (path.splitOn (byte '/')).map move

/-- The directory or file a path denotes for a process whose working directory is `cwd`. -/
def resolve (cwd : List Str) (path : Str) : List Str :=
  walk (if path.head? = some (byte '/') then [] else cwd) (moves path)

@[simp] theorem moves_nil : moves [] = [.stay] := rfl

/-- A slash separates the moves before it from those after it. -/
theorem moves_slash (a b : Str) : moves (a ++ byte '/' :: b) = moves a ++ moves b := by
  simp [moves, List.splitOn_append_cons_self]

/-- A plain name is one step down. -/
theorem moves_name {name : Str} (hslash : byte '/' ∉ name) (hne : name ≠ [])
    (hdot : name ≠ lit ".") (hdots : name ≠ lit "..") : moves name = [.down name] := by
  simp [moves, List.splitOn_eq_singleton hslash, move, hne, hdot, hdots]

/-- **Joining with a slash continues the walk.** -/
theorem resolve_join (cwd : List Str) {a : Str} (ha : a ≠ []) (b : Str) :
    resolve cwd (a ++ byte '/' :: b) = walk (resolve cwd a) (moves b) := by
  unfold resolve
  rw [moves_slash, walk_append, List.head?_append_of_ne_nil _ ha]

/-- A final slash denotes nothing more, so what follows it continues the same walk. -/
theorem resolve_join_slash (cwd : List Str) {a : Str} (ha : a.getLast? = some (byte '/'))
    (b : Str) : resolve cwd (a ++ b) = walk (resolve cwd a) (moves b) := by
  obtain ⟨init, rfl⟩ : ∃ init, a = init ++ [byte '/'] :=
    ⟨a.dropLast, (List.dropLast_append_getLast? _ ha).symm⟩
  have hhead : (init ++ [byte '/'] ++ b).head? = (init ++ [byte '/']).head? := by
    rw [List.head?_append_of_ne_nil _ (by simp)]
  unfold resolve
  rw [hhead, List.append_assoc, List.singleton_append, moves_slash, moves_slash,
    walk_append, walk_append]
  rfl

end JustEnough
