/-
Where the loop over the headers of a reply goes.

Each turn starts behind a line end, looks for the next colon, and goes on behind the
line end that follows it.  The position falls back in two cases.  Where no line end
follows the colon, `npos + 2` is the second character.  Where there is no colon left,
`npos + 1` is the first one, so the value of the header is the first line of the reply,
and the loop goes on behind that.  Either way it then runs over the reply again, and
then again from the same place.

So the loop comes to finitely many positions (`Visited`), and it ends exactly when it
stops at one of them: at an empty line, or at a `Location` to follow that has no path
(`parse_ends_iff`).
-/
import JustEnough.Proofs.ProxyCall

namespace JustEnough

namespace ProxyHandler

/-! ### The positions of the loop -/

section Positions

variable (raw : Str)

/-- The status of a reply, or how reading it throws. -/
def statusCode : Except Fault ResponseCode :=
  (substr raw (past (find raw (lit " ") 0) 1)
    (find raw (lit " ") (past (find raw (lit " ") 0) 1))).bind stoi

/-- Where the loop begins. -/
def firstStart : Nat := past (find raw CRLF (past (find raw (lit " ") 0) 1)) 2

/-- Where the value of the header at `start` begins. -/
def valueStart (start : Nat) : Nat :=
  past (find raw (lit ":") start) 1 +
    ((raw.drop (past (find raw (lit ":") start) 1)).takeWhile (· = byte ' ')).length

/-- Where the loop goes on. -/
def nextStart (start : Nat) : Nat := past (find raw CRLF (valueStart raw start)) 2

/-- The header at `start` is a redirect to follow, and its `Location` has no path. -/
def ThrowsAt (rc : ResponseCode) (start : Nat) : Prop :=
  ∃ name value, substr raw start (find raw (lit ":") start) = .ok name ∧
    substr raw (valueStart raw start) (find raw CRLF (valueStart raw start)) = .ok value ∧
    isRedirect rc name = true ∧ pathStart value = none

/-- The loop ends where it comes to `start`. -/
def StopsAt (rc : ResponseCode) (start : Nat) : Prop :=
  StandsAt CRLF raw start ∨ ThrowsAt raw rc start

/-- The loop comes to `start`, if it does not end before. -/
def Reached (start : Nat) : Prop := ∃ i, (nextStart raw)^[i] (firstStart raw) = start

end Positions

section Turns

variable {raw : Str}

theorem CRLF_ne_nil : CRLF ≠ [] := by decide

theorem find_CRLF_self {start : Nat} (hstart : start ≤ raw.length) :
    find raw CRLF start = some start ↔ StandsAt CRLF raw start := by
  rw [find_eq_some_iff]
  constructor
  · intro h
    exact h.2.2.1
  · intro h
    exact ⟨Nat.le_refl _, hstart, h, fun j hj hlt => absurd hlt (Nat.not_lt.mpr hj)⟩

theorem past_find_le {pat : Str} {k : Nat} (hk : k ≤ pat.length) (hpat : pat ≠ [])
    (hraw : k - 1 ≤ raw.length) (a : Nat) : past (find raw pat a) k ≤ raw.length := by
  cases hfind : find raw pat a with
  | none => exact hraw
  | some n =>
      obtain ⟨-, -, hstands, -⟩ := find_eq_some_iff.mp hfind
      have hlen := hstands.length_le hpat
      rw [past_some]
      omega

theorem valueStart_le (start : Nat) : valueStart raw start ≤ raw.length := by
  have hcolon : past (find raw (lit ":") start) 1 ≤ raw.length :=
    past_find_le (by decide) (by decide) (Nat.zero_le _) start
  have hspaces := (List.takeWhile_sublist (l := raw.drop (past (find raw (lit ":") start) 1))
    (· = byte ' ')).length_le
  rw [List.length_drop] at hspaces
  unfold valueStart
  omega

theorem nextStart_le (hraw : raw ≠ []) (start : Nat) : nextStart raw start ≤ raw.length :=
  past_find_le (by decide) CRLF_ne_nil (List.length_pos_iff.mpr hraw) _

/-- **One turn of the loop** stops or goes on. -/
theorem parseHeaders_runs (rc : ResponseCode) (hraw : raw ≠ []) (fuel : Nat) (stop : Option Nat)
    (response : Response) (hstop : past stop 2 ≤ raw.length) :
    ∃ o f, Prog.Local (parseHeaders raw rc fuel stop response) o f ∧
      (o = .running ↔ ∀ i < fuel, ¬StopsAt raw rc ((nextStart raw)^[i] (past stop 2))) := by
  induction fuel generalizing stop response with
  | zero => exact ⟨_, _, Prog.Local.spin, by simp⟩
  | succ fuel ih =>
      have hturn : (∀ i < fuel + 1, ¬StopsAt raw rc ((nextStart raw)^[i] (past stop 2))) ↔
          ¬StopsAt raw rc (past stop 2) ∧
            ∀ i < fuel, ¬StopsAt raw rc ((nextStart raw)^[i] (nextStart raw (past stop 2))) :=
        Nat.forall_lt_succ_left
      rw [hturn]
      simp only [parseHeaders]
      by_cases hend : find raw CRLF (past stop 2) = some (past stop 2)
      · have hstands := (find_CRLF_self hstop).mp hend
        rw [if_pos hend]
        refine Prog.Local.ofExcept_bind (fun e _ => ?_) fun body _ => ⟨_, _, Prog.Local.pure _, ?_⟩
        · simp [StopsAt, hstands]
        · simp [StopsAt, hstands]
      · have hstands : ¬StandsAt CRLF raw (past stop 2) := fun h => hend ((find_CRLF_self hstop).mpr h)
        rw [if_neg hend]
        obtain ⟨name, hname⟩ := exists_substr hstop (find raw (lit ":") (past stop 2))
        obtain ⟨value, hvalue⟩ := exists_substr (valueStart_le (past stop 2))
          (find raw CRLF (valueStart raw (past stop 2)))
        have hthrows : ThrowsAt raw rc (past stop 2) ↔
            isRedirect rc name = true ∧ pathStart value = none := by
          constructor
          · rintro ⟨name', value', hname', hvalue', h⟩
            obtain rfl : name = name' := Except.ok.inj (hname.symm.trans hname')
            obtain rfl : value = value' := Except.ok.inj (hvalue.symm.trans hvalue')
            exact h
          · intro h
            exact ⟨name, value, hname, hvalue, h⟩
        obtain ⟨o, g, hrest, hruns⟩ := ih (find raw CRLF (valueStart raw (past stop 2)))
          (response.addHeader name value) (nextStart_le hraw _)
        unfold valueStart at hvalue hrest
        rw [hname, Prog.ofExcept_ok_bind, hvalue, Prog.ofExcept_ok_bind]
        by_cases hredirect : isRedirect rc name = true
        · rw [if_pos hredirect]
          rcases redirectTo_local value with ⟨f, hpath, hf⟩ | ⟨⟨p, hpath⟩, hf⟩
          · refine ⟨_, _, hf.bind_threw _, ?_⟩
            simp [StopsAt, hthrows, hredirect, hpath]
          · refine ⟨_, _, hf.bind hrest, hruns.trans ?_⟩
            simp [StopsAt, hstands, hthrows, hpath, nextStart]
        · rw [if_neg hredirect]
          refine ⟨_, _, hrest, hruns.trans ?_⟩
          simp [StopsAt, hstands, hthrows, hredirect, nextStart]

/-- Some reader of `raw` comes to an end of the loop, by returning or by throwing. -/
def ParseEnds (raw : Str) : Prop :=
  ∃ fuel, ∀ m : ProxyMem,
    (∃ response, ((parseRawResponse fuel raw).run upstream m).1 = .returned response) ∨
      ∃ err, ((parseRawResponse fuel raw).run upstream m).1 = .threw err

theorem parseEnds_iff_parsed : ParseEnds raw ↔ ∃ fuel, parsed fuel raw ≠ .running := by
  have hrun : ∀ fuel, parsed fuel raw ≠ .stuck ∧
      ∀ m : ProxyMem, ((parseRawResponse fuel raw).run upstream m).1 = parsed fuel raw := by
    intro fuel
    obtain ⟨f, hlocal, hstuck, -⟩ := parseRawResponse_local fuel raw
    exact ⟨hstuck, fun m => by rw [hlocal upstream m]⟩
  refine exists_congr fun fuel => ?_
  obtain ⟨hstuck, hsame⟩ := hrun fuel
  constructor
  · intro h
    have hend := h (exampleMem [])
    rw [hsame] at hend
    rcases hend with ⟨response, ho⟩ | ⟨err, ho⟩
    · simp [ho]
    · simp [ho]
  · intro h m
    rw [hsame]
    cases ho : parsed fuel raw with
    | returned response => exact Or.inl ⟨response, rfl⟩
    | threw err => exact Or.inr ⟨err, rfl⟩
    | running => exact absurd ho h
    | stuck => exact absurd ho hstuck

theorem parseRawResponse_error {err : Fault} (h : statusCode raw = .error err) (fuel : Nat) :
    parsed fuel raw = .threw err := by
  unfold statusCode at h
  unfold parsed parseRawResponse
  cases hcode : substr raw (past (find raw (lit " ") 0) 1)
      (find raw (lit " ") (past (find raw (lit " ") 0) 1)) with
  | error e =>
      rw [hcode] at h
      cases h
      simp [Prog.run_bind, hcode]
  | ok code =>
      rw [hcode] at h
      have hstoi : stoi code = .error err := h
      simp [Prog.run_bind, hcode, hstoi]

theorem parseRawResponse_ok {rc : ResponseCode} (h : statusCode raw = .ok rc) (fuel : Nat) :
    parseRawResponse fuel raw = parseHeaders raw rc fuel
      (find raw CRLF (past (find raw (lit " ") 0) 1)) { code := rc } := by
  unfold statusCode at h
  unfold parseRawResponse
  cases hcode : substr raw (past (find raw (lit " ") 0) 1)
      (find raw (lit " ") (past (find raw (lit " ") 0) 1)) with
  | error e =>
      rw [hcode] at h
      cases h
  | ok code =>
      rw [hcode] at h
      have hstoi : stoi code = .ok rc := h
      simp only [hcode, hstoi, Prog.ofExcept_ok_bind]

/-- There is no status in nothing. -/
theorem ne_nil_of_statusCode {rc : ResponseCode} (h : statusCode raw = .ok rc) : raw ≠ [] := by
  rintro rfl
  cases h

/-- **The loop ends where it stops at a position it comes to.** -/
theorem parseEnds_iff_reached {rc : ResponseCode} (h : statusCode raw = .ok rc) :
    ParseEnds raw ↔ ∃ start, Reached raw start ∧ StopsAt raw rc start := by
  have hraw := ne_nil_of_statusCode h
  have hruns : ∀ fuel, parsed fuel raw = .running ↔
      ∀ i < fuel, ¬StopsAt raw rc ((nextStart raw)^[i] (firstStart raw)) := by
    intro fuel
    obtain ⟨o, f, hlocal, hruns⟩ := parseHeaders_runs rc hraw fuel
      (find raw CRLF (past (find raw (lit " ") 0) 1)) { code := rc }
      (past_find_le (by decide) CRLF_ne_nil (List.length_pos_iff.mpr hraw) _)
    rw [parsed, parseRawResponse_ok h, hlocal]
    exact hruns
  rw [parseEnds_iff_parsed]
  constructor
  · rintro ⟨fuel, hend⟩
    rw [Ne, hruns] at hend
    push Not at hend
    obtain ⟨i, -, hstops⟩ := hend
    exact ⟨_, ⟨i, rfl⟩, hstops⟩
  · rintro ⟨start, ⟨i, rfl⟩, hstops⟩
    refine ⟨i + 1, fun hrunning => ?_⟩
    exact (hruns _).mp hrunning i (Nat.lt_succ_self i) hstops

end Turns

/-! ### Which positions these are -/

section Visited

variable (raw : Str)

/-- Some colon has no line end behind it. -/
def ColonLeft : Prop := ∃ colon, raw[colon]? = some (byte ':') ∧ find raw CRLF (colon + 1) = none

/-- Where the position falls back to. -/
def FallsBackTo (start : Nat) : Prop :=
  ColonLeft raw ∧ start = 1 ∨ ¬ColonLeft raw ∧ start = past (find raw CRLF 0) 2

/-- `start` is `first`, or lies behind the line end after a colon from there on. -/
def HeaderFrom (first start : Nat) : Prop :=
  start = first ∨ ∃ colon stop, first ≤ colon ∧ raw[colon]? = some (byte ':') ∧
    find raw CRLF (colon + 1) = some stop ∧ start = stop + 2

/-- The positions of the loop: from its beginning, and from where it falls back to. -/
def Visited (start : Nat) : Prop :=
  ∃ first, (first = firstStart raw ∨ FallsBackTo raw first) ∧ HeaderFrom raw first start

/-- A position behind a line end, or the second character. -/
def LineStart (start : Nat) : Prop :=
  start = 1 ∨ ∃ stop, StandsAt CRLF raw stop ∧ start = stop + 2

variable {raw : Str}

/-- What is skipped after a position. -/
theorem getElem?_takeWhile {s : Str} {p : UInt8 → Bool} {a j : Nat} (ha : a ≤ j)
    (hj : j < a + ((s.drop a).takeWhile p).length) : ∃ c, s[j]? = some c ∧ p c = true := by
  have hlt : j - a < ((s.drop a).takeWhile p).length := by omega
  have hsame : s[j]? = ((s.drop a).takeWhile p)[j - a]? := by
    have hsplit := congrArg (·[j - a]?) (List.takeWhile_append_dropWhile (p := p) (l := s.drop a))
    rw [List.getElem?_append_left hlt, List.getElem?_drop, Nat.add_sub_cancel' ha] at hsplit
    exact hsplit.symm
  refine ⟨_, hsame.trans (List.getElem?_eq_getElem hlt), ?_⟩
  exact List.mem_takeWhile_imp (List.getElem_mem hlt)

/-- The spaces in front of a value hide no line end. -/
theorem nextStart_eq (start : Nat) :
    nextStart raw start
      = past (find raw CRLF (past (find raw (lit ":") start) 1)) 2 := by
  unfold nextStart valueStart
  generalize past (find raw (lit ":") start) 1 = s
  congr 1
  refine find_skip CRLF_ne_nil (Nat.le_add_right _ _) fun j hj hlt hstands => ?_
  obtain ⟨c, hj, hspace⟩ := getElem?_takeWhile hj hlt
  have hCR : raw[j]? = some (byte '\r') := standsAt_byte.mp ((List.prefix_append _ _).trans hstands)
  obtain rfl : c = byte '\r' := Option.some.inj (hj.symm.trans hCR)
  exact absurd hspace (by decide)

/-- No colon stands in a line end. -/
theorem not_colon {colon stop : Nat} (hcolon : raw[colon]? = some (byte ':'))
    (hstands : StandsAt CRLF raw stop) : colon ≠ stop ∧ colon ≠ stop + 1 := by
  obtain ⟨rest, hrest⟩ := hstands
  have hCR : raw[stop]? = some (byte '\r') := by
    rw [← List.head?_drop, ← hrest]
    rfl
  have hLF : raw[stop + 1]? = some (byte '\n') := by
    rw [← List.head?_drop, ← List.drop_drop, ← hrest]
    rfl
  constructor
  · rintro rfl
    rw [hcolon] at hCR
    exact absurd (Option.some.inj hCR) (by decide)
  · rintro rfl
    rw [hcolon] at hLF
    exact absurd (Option.some.inj hLF) (by decide)

theorem find_colon {start colon : Nat} (h : find raw (lit ":") start = some colon) :
    start ≤ colon ∧ raw[colon]? = some (byte ':') := by
  obtain ⟨hle, -, hstands, -⟩ := find_eq_some_iff.mp h
  exact ⟨hle, standsAt_byte.mp hstands⟩

theorem lineStart_past {a : Nat} : LineStart raw (past (find raw CRLF a) 2) := by
  cases hfind : find raw CRLF a with
  | none => exact Or.inl rfl
  | some stop =>
      obtain ⟨-, -, hstands, -⟩ := find_eq_some_iff.mp hfind
      exact Or.inr ⟨stop, hstands, rfl⟩

/-- Behind a line end, or at the second character, no colon left means none without a line end. -/
theorem fallsBackTo_of_no_colon {start : Nat} (h : LineStart raw start)
    (hnone : find raw (lit ":") start = none) :
    FallsBackTo raw (past (find raw CRLF 0) 2) := by
  by_cases hleft : ColonLeft raw
  · refine Or.inl ⟨hleft, ?_⟩
    obtain ⟨colon, hcolon, hno⟩ := hleft
    have hbefore : colon < start := by
      by_contra hge
      rw [find_eq_none_iff (by decide)] at hnone
      exact hnone colon (Nat.le_of_not_lt hge) (standsAt_byte.mpr hcolon)
    rcases h with rfl | ⟨stop, hstands, rfl⟩
    · obtain rfl : colon = 0 := by omega
      have hskip : find raw CRLF 1 = find raw CRLF 0 := by
        refine find_skip CRLF_ne_nil (Nat.zero_le 1) fun j _ hj hstands => ?_
        obtain rfl : j = 0 := by omega
        exact (not_colon hcolon hstands).1 rfl
      rw [← hskip, show find raw CRLF 1 = none from hno]
      rfl
    · obtain ⟨hne, hne'⟩ := not_colon hcolon hstands
      rw [find_eq_none_iff CRLF_ne_nil] at hno
      exact absurd hstands (hno stop (by omega))
  · exact Or.inr ⟨hleft, rfl⟩

/-- **One turn** goes on behind the next line, or falls back. -/
theorem nextStart_cases {start : Nat} (h : LineStart raw start) :
    (∃ colon stop, start ≤ colon ∧ raw[colon]? = some (byte ':') ∧
      find raw CRLF (colon + 1) = some stop ∧ nextStart raw start = stop + 2) ∨
      FallsBackTo raw (nextStart raw start) := by
  rw [nextStart_eq]
  cases hcolon : find raw (lit ":") start with
  | none => exact Or.inr (fallsBackTo_of_no_colon h hcolon)
  | some colon =>
      obtain ⟨hle, hbyte⟩ := find_colon hcolon
      rw [past_some]
      cases hstop : find raw CRLF (colon + 1) with
      | none => exact Or.inr (Or.inl ⟨⟨colon, hbyte, hstop⟩, rfl⟩)
      | some stop => exact Or.inl ⟨colon, stop, hle, hbyte, hstop, rfl⟩

theorem FallsBackTo.lineStart {start : Nat} (h : FallsBackTo raw start) : LineStart raw start := by
  rcases h with ⟨-, rfl⟩ | ⟨-, rfl⟩
  · exact Or.inl rfl
  · exact lineStart_past

theorem FallsBackTo.unique {a b : Nat} (ha : FallsBackTo raw a) (hb : FallsBackTo raw b) : a = b := by
  rcases ha with ⟨hleft, rfl⟩ | ⟨hleft, rfl⟩
  · rcases hb with ⟨-, rfl⟩ | ⟨hnot, -⟩
    · rfl
    · exact absurd hleft hnot
  · rcases hb with ⟨hnot, -⟩ | ⟨-, rfl⟩
    · exact absurd hnot hleft
    · rfl

theorem Visited.lineStart {start : Nat} (h : Visited raw start) : LineStart raw start := by
  obtain ⟨first, hfirst, rfl | ⟨colon, stop, -, -, hstop, rfl⟩⟩ := h
  · rcases hfirst with rfl | hback
    · exact lineStart_past
    · exact hback.lineStart
  · obtain ⟨-, -, hstands, -⟩ := find_eq_some_iff.mp hstop
    exact Or.inr ⟨stop, hstands, rfl⟩

/-- No turn leaves these positions. -/
theorem Visited.next {start : Nat} (h : Visited raw start) : Visited raw (nextStart raw start) := by
  rcases nextStart_cases h.lineStart with ⟨colon, stop, hle, hcolon, hstop, hnext⟩ | hback
  · obtain ⟨first, hfirst, hfrom⟩ := h
    have hstart : first ≤ start := by
      rcases hfrom with rfl | ⟨colon', stop', hle', -, hstop', rfl⟩
      · exact Nat.le_refl _
      · obtain ⟨hlt, -⟩ := find_eq_some_iff.mp hstop'
        omega
    exact ⟨first, hfirst, Or.inr ⟨colon, stop, Nat.le_trans hstart hle, hcolon, hstop, hnext⟩⟩
  · exact ⟨_, Or.inr hback, Or.inl rfl⟩

theorem Reached.visited {start : Nat} (h : Reached raw start) : Visited raw start := by
  obtain ⟨i, rfl⟩ := h
  induction i with
  | zero => exact ⟨_, Or.inl rfl, Or.inl rfl⟩
  | succ i ih =>
      rw [Function.iterate_succ_apply']
      exact ih.next

theorem Reached.next {start : Nat} (h : Reached raw start) : Reached raw (nextStart raw start) := by
  obtain ⟨i, rfl⟩ := h
  exact ⟨i + 1, Function.iterate_succ_apply' _ _ _⟩

/-- The loop does not jump over a colon: it comes to the line behind it. -/
theorem Reached.headerFrom {colon stop : Nat} (hcolon : raw[colon]? = some (byte ':'))
    (hstop : find raw CRLF (colon + 1) = some stop) :
    ∀ {start : Nat}, Reached raw start → start ≤ colon → Reached raw (stop + 2) := by
  obtain ⟨hlt, -, hstands, hfirst⟩ := find_eq_some_iff.mp hstop
  intro start
  induction hn : colon - start using Nat.strong_induction_on generalizing start with
  | _ n ih =>
      intro hreached hle
      have hcolonStands : StandsAt (lit ":") raw colon := standsAt_byte.mpr hcolon
      obtain ⟨colon', hcolon', hbefore⟩ := exists_find hle (by decide) hcolonStands
      obtain ⟨hle', -⟩ := find_colon hcolon'
      obtain ⟨stop', hstop', hbefore'⟩ := exists_find (a := colon' + 1) (by omega) CRLF_ne_nil hstands
      obtain ⟨hlt', -, hstands', -⟩ := find_eq_some_iff.mp hstop'
      have hnext : nextStart raw start = stop' + 2 := by
        rw [nextStart_eq, hcolon', past_some, hstop']
        rfl
      have hreached' := hreached.next
      rw [hnext] at hreached'
      obtain ⟨hne, hne'⟩ := not_colon hcolon hstands'
      by_cases hlast : colon < stop'
      · have hsame : stop' = stop := by
          by_contra hdiff
          exact hfirst stop' (by omega) (by omega) hstands'
        rwa [← hsame]
      · exact ih (colon - (stop' + 2)) (by omega) rfl hreached' (by omega)

/-- It falls back in the end. -/
theorem Reached.fallsBack {back : Nat} (hback : FallsBackTo raw back) :
    ∀ {start : Nat}, Reached raw start → Reached raw back := by
  intro start
  induction hn : raw.length - start using Nat.strong_induction_on generalizing start with
  | _ n ih =>
      intro hreached
      rcases nextStart_cases hreached.visited.lineStart with
        ⟨colon, stop, hle, -, hstop, hnext⟩ | hnext
      · obtain ⟨hlt, -, hstands, -⟩ := find_eq_some_iff.mp hstop
        have hlen : stop + CRLF.length ≤ raw.length := hstands.length_le CRLF_ne_nil
        have htwo : CRLF.length = 2 := rfl
        exact ih (raw.length - nextStart raw start) (by omega) rfl hreached.next
      · rw [hback.unique hnext]
        exact hreached.next

/-- **The loop comes to these positions and no others.** -/
theorem reached_iff {start : Nat} : Reached raw start ↔ Visited raw start := by
  constructor
  · exact Reached.visited
  · have hfirst : Reached raw (firstStart raw) := ⟨0, rfl⟩
    rintro ⟨first, hfrom, hstart⟩
    have hreached : Reached raw first := by
      rcases hfrom with rfl | hback
      · exact hfirst
      · exact Reached.fallsBack hback hfirst
    rcases hstart with rfl | ⟨colon, stop, hle, hcolon, hstop, rfl⟩
    · exact hreached
    · exact Reached.headerFrom hcolon hstop hreached hle

/--
**Reading a reply ends** exactly when its status cannot be read, which throws, or one of the
positions the loop comes to is that of an empty line or of a `Location` that throws.
-/
theorem parse_ends_iff (raw : Str) :
    ParseEnds raw ↔ (∃ err, statusCode raw = .error err) ∨
      ∃ rc start, statusCode raw = .ok rc ∧ Visited raw start ∧ StopsAt raw rc start := by
  cases hstatus : statusCode raw with
  | error err =>
      have hend : ParseEnds raw :=
        parseEnds_iff_parsed.mpr ⟨0, by simp [parseRawResponse_error hstatus]⟩
      simp [hend]
  | ok rc =>
      rw [parseEnds_iff_reached hstatus]
      simp [reached_iff]

/-- A status line with no line end is read for ever. -/
theorem parse_runs_for_ever : ¬ParseEnds (lit "HTTP/1.1 200 OK") := by
  have hstatus : statusCode (lit "HTTP/1.1 200 OK") = .ok 200 := by decide
  have hfirst : firstStart (lit "HTTP/1.1 200 OK") = 1 := by decide
  have hnext : nextStart (lit "HTTP/1.1 200 OK") 1 = 1 := by decide
  rw [parseEnds_iff_reached hstatus]
  rintro ⟨start, ⟨i, rfl⟩, hstops⟩
  rw [hfirst, Function.iterate_fixed hnext] at hstops
  rcases hstops with hstands | ⟨name, value, -, -, hredirect, -⟩
  · exact absurd hstands (by decide)
  · simp [isRedirect] at hredirect

end Visited

end ProxyHandler

end JustEnough
