/-
The lines of a Markdown document.

The reader takes any of four line ends, two of them of two characters, and writes spaces for
tabs on its way (`getMarkdownLine`).  So the lines of a document are text without either, and
a document that is written from lines, with line ends of one kind, is read as these lines with
their tabs expanded (`readMarkdownLines_unlines`).  Reading is then a normal form: what is
visible stays, and lines that are written and read again are the same (`lines_read_again`).
-/
import JustEnough.Server.Markdown

namespace JustEnough

inductive LineEnd
  | cr
  | lf
  | crlf
  | lfcr

def LineEnd.bytes : LineEnd → Str
  | .cr => [13]
  | .lf => [10]
  | .crlf => [13, 10]
  | .lfcr => [10, 13]

/-- A document of these lines. -/
def unlines (e : LineEnd) (lines : List Str) : Str := lines.flatMap (· ++ e.bytes)

/-- A tab goes to the next column that is a multiple of four. -/
def expandTab (out : Str) (c : UInt8) : Str :=
  if c = 9 then out ++ List.replicate (4 - out.length % 4) (byte ' ') else out ++ [c]

def expandTabs (line : Str) : Str := line.foldl expandTab []

/-- What is neither a line end nor white space. -/
def visible (s : Str) : Str := s.filter fun c => !(c = 9 || c = 10 || c = 13 || c = byte ' ')

/-- No line end. -/
def NoLineEnd (s : Str) : Prop := 10 ∉ s ∧ 13 ∉ s

/-! ### One line -/

section Line

variable {ws : Bool} {acc line rest : Str}

theorem NoLineEnd.tail {c : UInt8} (h : NoLineEnd (c :: line)) : NoLineEnd line :=
  ⟨fun hmem => h.1 (List.mem_cons_of_mem _ hmem), fun hmem => h.2 (List.mem_cons_of_mem _ hmem)⟩

theorem NoLineEnd.head {c : UInt8} (h : NoLineEnd (c :: line)) : c ≠ 10 ∧ c ≠ 13 :=
  ⟨fun heq => h.1 (heq ▸ List.mem_cons_self), fun heq => h.2 (heq ▸ List.mem_cons_self)⟩

/-- A character that ends no line is written, or expanded. -/
theorem getMarkdownLine_cons {c : UInt8} (hlf : c ≠ 10) (hcr : c ≠ 13) :
    ∃ ws', getMarkdownLine ws acc (c :: rest) = getMarkdownLine ws' (expandTab acc c) rest := by
  rw [getMarkdownLine, if_neg hcr, if_neg hlf, expandTab]
  by_cases htab : c = 9
  · rw [if_pos htab, if_pos htab]
    refine ⟨ws, ?_⟩
    cases ws <;> rfl
  · rw [if_neg htab, if_neg htab]
    exact ⟨_, rfl⟩

theorem getMarkdownLine_append (hline : NoLineEnd line) :
    ∃ ws', getMarkdownLine ws acc (line ++ rest) = getMarkdownLine ws' (line.foldl expandTab acc) rest := by
  induction line generalizing ws acc with
  | nil => exact ⟨ws, rfl⟩
  | cons c line ih =>
      obtain ⟨ws', hcons⟩ := @getMarkdownLine_cons ws acc (line ++ rest) c hline.head.1 hline.head.2
      obtain ⟨ws'', hline⟩ := @ih ws' (expandTab acc c) hline.tail
      exact ⟨ws'', by rw [List.cons_append, hcons, hline, List.foldl_cons]⟩

/-- The text does not go on with the other half of the line end. -/
def LineEnd.Ends (rest : Str) : LineEnd → Prop
  | .cr => rest.head? ≠ some 10
  | .lf => rest.head? ≠ some 13
  | _ => True

theorem skipByte_of_ne {c : UInt8} (h : rest.head? ≠ some c) : skipByte c rest = rest := by
  cases rest with
  | nil => rfl
  | cons d rest =>
      have hne : d ≠ c := fun heq => h (by rw [heq, List.head?_cons])
      rw [skipByte, if_neg hne]

theorem getMarkdownLine_end (e : LineEnd) (h : e.Ends rest) :
    getMarkdownLine ws acc (e.bytes ++ rest) = some (acc, rest) := by
  cases e with
  | cr =>
      show getMarkdownLine ws acc (13 :: rest) = _
      rw [getMarkdownLine, if_pos rfl, skipByte_of_ne h]
  | lf =>
      show getMarkdownLine ws acc (10 :: rest) = _
      rw [getMarkdownLine, if_neg (by decide), if_pos rfl, skipByte_of_ne h]
  | crlf =>
      show getMarkdownLine ws acc (13 :: 10 :: rest) = _
      rw [getMarkdownLine, if_pos rfl, skipByte, if_pos rfl]
  | lfcr =>
      show getMarkdownLine ws acc (10 :: 13 :: rest) = _
      rw [getMarkdownLine, if_neg (by decide), if_pos rfl, skipByte, if_pos rfl]

end Line

/-! ### A document of lines -/

theorem readMarkdownLines_some {src line rest : Str} (h : getMarkdownLine true [] src = some (line, rest)) :
    readMarkdownLines src = line :: readMarkdownLines rest := by
  rw [readMarkdownLines]
  split
  · rename_i hnone
    rw [h] at hnone
    cases hnone
  · rename_i hsome
    rw [h] at hsome
    obtain ⟨rfl, rfl⟩ := Prod.mk.inj (Option.some.inj hsome)
    rfl

theorem readMarkdownLines_none {src : Str} (h : getMarkdownLine true [] src = none) :
    readMarkdownLines src = [] := by
  rw [readMarkdownLines]
  split
  · rfl
  · rename_i hsome
    rw [h] at hsome
    cases hsome

/-- The next line does not begin with a line end of another kind. -/
theorem ends_unlines (e : LineEnd) {lines : List Str} (h : ∀ line ∈ lines, NoLineEnd line) :
    e.Ends (unlines e lines) := by
  cases lines with
  | nil => cases e <;> simp [LineEnd.Ends, unlines]
  | cons line lines =>
      have hline := h line List.mem_cons_self
      cases line with
      | nil => cases e <;> simp [LineEnd.Ends, unlines, LineEnd.bytes]
      | cons c line =>
          have hhead := hline.head
          cases e <;> simp [LineEnd.Ends, unlines, hhead]

theorem readMarkdownLines_unlines (e : LineEnd) {lines : List Str} (h : ∀ line ∈ lines, NoLineEnd line) :
    readMarkdownLines (unlines e lines) = lines.map expandTabs := by
  induction lines with
  | nil => exact readMarkdownLines_none rfl
  | cons line lines ih =>
      have hrest : ∀ line ∈ lines, NoLineEnd line := fun l hl => h l (List.mem_cons_of_mem _ hl)
      have hsplit : unlines e (line :: lines) = line ++ (e.bytes ++ unlines e lines) := by
        rw [unlines, List.flatMap_cons, List.append_assoc]
        rfl
      have hread : getMarkdownLine true [] (unlines e (line :: lines))
          = some (expandTabs line, unlines e lines) := by
        obtain ⟨ws, hline⟩ := @getMarkdownLine_append true [] line (e.bytes ++ unlines e lines)
          (h line List.mem_cons_self)
        rw [hsplit, hline, getMarkdownLine_end e (ends_unlines e hrest)]
        rfl
      rw [readMarkdownLines_some hread, ih hrest, List.map_cons]

/-! ### Any document -/

/-- A line as it is read. -/
def IsLine (s : Str) : Prop := NoLineEnd s ∧ 9 ∉ s

theorem IsLine.expand {out : Str} (h : IsLine out) {c : UInt8} (hlf : c ≠ 10) (hcr : c ≠ 13) :
    IsLine (expandTab out c) := by
  rw [expandTab]
  by_cases htab : c = 9
  · rw [if_pos htab]
    have hspaces : ∀ k : Nat, ∀ d : UInt8, d ≠ byte ' ' → d ∉ List.replicate k (byte ' ') :=
      fun k d hd hmem => hd (List.eq_of_mem_replicate hmem)
    simp only [IsLine, NoLineEnd, List.mem_append, not_or] at h ⊢
    exact ⟨⟨⟨h.1.1, hspaces _ _ (by decide)⟩, h.1.2, hspaces _ _ (by decide)⟩, h.2, hspaces _ _ (by decide)⟩
  · rw [if_neg htab]
    simp only [IsLine, NoLineEnd, List.mem_append, List.mem_singleton, not_or] at h ⊢
    exact ⟨⟨⟨h.1.1, hlf.symm⟩, h.1.2, hcr.symm⟩, h.2, Ne.symm htab⟩

theorem visible_append (s t : Str) : visible (s ++ t) = visible s ++ visible t := List.filter_append ..

theorem visible_expandTab (out : Str) (c : UInt8) : visible (expandTab out c) = visible (out ++ [c]) := by
  rw [expandTab]
  by_cases htab : c = 9
  · rw [if_pos htab, visible_append, visible_append]
    congr 1
    have hspaces : ∀ k : Nat, visible (List.replicate k (byte ' ')) = [] := by
      intro k
      apply List.filter_eq_nil_iff.mpr
      intro d hd
      rw [List.eq_of_mem_replicate hd]
      decide
    rw [hspaces, htab]
    rfl
  · rw [if_neg htab]

theorem visible_skipByte {c : UInt8} (hc : c = 10 ∨ c = 13) (s : Str) :
    visible (skipByte c s) = visible s := by
  cases s with
  | nil => rfl
  | cons d s =>
      rw [skipByte]
      by_cases h : d = c
      · rw [if_pos h, h]
        obtain rfl | rfl := hc
        · rfl
        · rfl
      · rw [if_neg h]

/-- A line that is read, and what is after it, are what was there. -/
theorem getMarkdownLine_spec {ws : Bool} {acc src line rest : Str} (hacc : IsLine acc)
    (h : getMarkdownLine ws acc src = some (line, rest)) :
    IsLine line ∧ visible line ++ visible rest = visible acc ++ visible src := by
  induction src generalizing ws acc with
  | nil =>
      rw [getMarkdownLine] at h
      by_cases hnil : acc = []
      · rw [if_pos hnil] at h
        cases h
      · rw [if_neg hnil] at h
        cases h
        exact ⟨hacc, rfl⟩
  | cons c src ih =>
      by_cases hcr : c = 13
      · rw [getMarkdownLine, if_pos hcr] at h
        cases h
        rw [visible_skipByte (.inl rfl), hcr]
        exact ⟨hacc, rfl⟩
      · by_cases hlf : c = 10
        · rw [getMarkdownLine, if_neg hcr, if_pos hlf] at h
          cases h
          rw [visible_skipByte (.inr rfl), hlf]
          exact ⟨hacc, rfl⟩
        · obtain ⟨ws', hcons⟩ := @getMarkdownLine_cons ws acc src c hlf hcr
          rw [hcons] at h
          obtain ⟨hline, hvisible⟩ := ih (hacc.expand hlf hcr) h
          refine ⟨hline, ?_⟩
          rw [hvisible, visible_expandTab, visible_append, List.append_assoc, ← visible_append]
          rfl

theorem expandTab_ne_nil (out : Str) (c : UInt8) : expandTab out c ≠ [] := by
  rw [expandTab]
  by_cases htab : c = 9
  · have hpos : 4 - out.length % 4 ≠ 0 := by omega
    rw [if_pos htab]
    intro hnil
    have hlength := congrArg List.length (List.append_eq_nil_iff.mp hnil).2
    rw [List.length_replicate] at hlength
    exact hpos hlength
  · rw [if_neg htab]
    intro hnil
    exact List.cons_ne_nil _ _ (List.append_eq_nil_iff.mp hnil).2

/-- There is no line only where there is nothing to read. -/
theorem getMarkdownLine_isSome {ws : Bool} {acc src : Str} (h : acc ≠ [] ∨ src ≠ []) :
    (getMarkdownLine ws acc src).isSome := by
  induction src generalizing ws acc with
  | nil =>
      rw [getMarkdownLine, if_neg (h.resolve_right fun hne => hne rfl)]
      rfl
  | cons c src ih =>
      by_cases hcr : c = 13
      · rw [getMarkdownLine, if_pos hcr]
        rfl
      · by_cases hlf : c = 10
        · rw [getMarkdownLine, if_neg hcr, if_pos hlf]
          rfl
        · obtain ⟨ws', hcons⟩ := @getMarkdownLine_cons ws acc src c hlf hcr
          rw [hcons]
          exact ih (.inl (expandTab_ne_nil acc c))

theorem readMarkdownLines_spec (src : Str) :
    (∀ line ∈ readMarkdownLines src, IsLine line) ∧ (readMarkdownLines src).flatMap visible = visible src := by
  induction src using readMarkdownLines.induct with
  | case1 src hnone =>
      obtain rfl : src = [] := by
        by_contra hne
        have hsome := @getMarkdownLine_isSome true [] src (.inr hne)
        rw [hnone] at hsome
        cases hsome
      rw [readMarkdownLines_none hnone]
      refine ⟨fun line hline => ?_, rfl⟩
      cases hline
  | case2 src line rest hsome ih =>
      have hempty : IsLine [] := by simp [IsLine, NoLineEnd]
      obtain ⟨hline, hvisible⟩ := getMarkdownLine_spec hempty hsome
      rw [readMarkdownLines_some hsome]
      refine ⟨fun l hl => ?_, ?_⟩
      · obtain rfl | hl := List.mem_cons.mp hl
        · exact hline
        · exact ih.1 l hl
      · rw [List.flatMap_cons, ih.2, hvisible]
        rfl

theorem foldl_expandTab {line : Str} (h : 9 ∉ line) (out : Str) : line.foldl expandTab out = out ++ line := by
  induction line generalizing out with
  | nil => rw [List.foldl_nil, List.append_nil]
  | cons c line ih =>
      obtain ⟨hc, hline⟩ : 9 ≠ c ∧ 9 ∉ line := by simpa using h
      rw [List.foldl_cons, ih hline, expandTab, if_neg hc.symm, List.append_assoc]
      rfl

/-- **Reading is a normal form.**  The lines of a document have no line ends and no tabs, all that
is visible is in them and in its order, and when they are written with line ends of any one kind
they are read again as they are. -/
theorem lines_read_again (e : LineEnd) (src : Str) :
    (∀ line ∈ readMarkdownLines src, IsLine line) ∧
      (readMarkdownLines src).flatMap visible = visible src ∧
      readMarkdownLines (unlines e (readMarkdownLines src)) = readMarkdownLines src := by
  obtain ⟨hlines, hvisible⟩ := readMarkdownLines_spec src
  refine ⟨hlines, hvisible, ?_⟩
  rw [readMarkdownLines_unlines e fun line hline => (hlines line hline).1]
  exact (List.map_congr_left fun line hline => foldl_expandTab (hlines line hline).2 []).trans
    (List.map_id _)

end JustEnough
