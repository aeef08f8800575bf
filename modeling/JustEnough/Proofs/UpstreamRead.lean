/-
Whether a reply was read to its end.

`SyncClient::Read` returns true to say that it has read until the end of the file.  The
read that ends its loop can do so in three ways: with bytes and an error, which the body
of the loop tells apart, or without bytes, and then the error is not looked at.  So a
connection that breaks between two reads leaves a reply that looks complete, and this is
all that can go wrong (`readsRight_iff`).
-/
import JustEnough.Server.SyncClient

namespace JustEnough

namespace SyncClient

/-- The loop goes on after this result. -/
def Continues (result : ReadResult) : Prop := result.bytes ≠ [] ∧ result.error = .none

instance (result : ReadResult) : Decidable (Continues result) := inferInstanceAs (Decidable (_ ∧ _))

/-- The reply after that result, with what was read before. -/
def replyAfter (responseStream : Str) (result : ReadResult) : Option Str :=
  if result.bytes = [] ∨ result.error = .eof then some (responseStream ++ result.bytes) else none

theorem readFrom_continues {result : ReadResult} (h : Continues result) (responseStream : Str)
    (rest : List ReadResult) :
    readFrom responseStream (result :: rest) = readFrom (responseStream ++ result.bytes) rest := by
  obtain ⟨hbytes, herror⟩ := h
  have hlength : result.bytes.length ≠ 0 := fun h => hbytes (List.length_eq_zero_iff.mp h)
  rw [readFrom, if_neg hlength]
  simp [herror]

theorem readFrom_ends {result : ReadResult} (h : ¬Continues result) (responseStream : Str)
    (rest : List ReadResult) :
    readFrom responseStream (result :: rest) = some (replyAfter responseStream result, rest) := by
  rw [readFrom, replyAfter]
  by_cases hbytes : result.bytes = []
  · simp [hbytes]
  · have hlength : result.bytes.length ≠ 0 := fun h => hbytes (List.length_eq_zero_iff.mp h)
    rw [if_neg hlength]
    by_cases heof : result.error = .eof
    · simp [heof]
    · have herror : result.error ≠ .none := fun hnone => h ⟨hbytes, hnone⟩
      simp [heof, hbytes, herror]

/-- **How the loop ends**: results it goes on after, then one it does not. -/
theorem readFrom_eq_some_iff {responseStream : Str} {results rest : List ReadResult}
    {reply : Option Str} :
    readFrom responseStream results = some (reply, rest) ↔
      ∃ before last, results = before ++ last :: rest ∧ (∀ r ∈ before, Continues r) ∧
        ¬Continues last ∧
        reply = replyAfter (responseStream ++ before.flatMap (·.bytes)) last := by
  induction results generalizing responseStream with
  | nil => simp [readFrom]
  | cons result results ih =>
      by_cases hmore : Continues result
      · rw [readFrom_continues hmore, ih]
        constructor
        · rintro ⟨before, last, rfl, hbefore, hlast, rfl⟩
          refine ⟨result :: before, last, rfl, List.forall_mem_cons.mpr ⟨hmore, hbefore⟩, hlast, ?_⟩
          rw [List.flatMap_cons, List.append_assoc]
        · rintro ⟨before, last, hsplit, hbefore, hlast, rfl⟩
          cases before with
          | nil =>
              obtain ⟨rfl, -⟩ := List.cons.inj hsplit
              exact absurd hmore hlast
          | cons first before =>
              obtain ⟨rfl, rfl⟩ := List.cons.inj hsplit
              refine ⟨before, last, rfl, (List.forall_mem_cons.mp hbefore).2, hlast, ?_⟩
              rw [List.flatMap_cons, List.append_assoc]
      · rw [readFrom_ends hmore]
        constructor
        · intro h
          obtain ⟨rfl, rfl⟩ := Prod.mk.inj (Option.some.inj h)
          exact ⟨[], result, rfl, by simp, hmore, by simp⟩
        · rintro ⟨before, last, hsplit, hbefore, hlast, rfl⟩
          cases before with
          | nil =>
              obtain ⟨rfl, rfl⟩ := List.cons.inj hsplit
              simp
          | cons first before =>
              obtain ⟨rfl, -⟩ := List.cons.inj hsplit
              exact absurd (hbefore result (by simp)) hmore

/-- What `Read` says of the results it has used. -/
structure Tells (used : List ReadResult) (reply : Option Str) : Prop where
  /-- It returns true if and only if the last of them was the end of the file. -/
  complete : reply.isSome ↔ ∃ last, used.getLast? = some last ∧ last.error = .eof
  whole : ∀ text, reply = some text → text = used.flatMap (·.bytes)
  failed : ∀ r ∈ used, r.error = .other → reply = none

/-- A read that comes to its end tells what it has used. -/
def ReadsRight (results : List ReadResult) : Prop :=
  ∀ reply rest, read results = some (reply, rest) → ∃ used, results = used ++ rest ∧ Tells used reply

/-- The first result that the loop does not go on after. -/
def ending (results : List ReadResult) : Option ReadResult := results.find? fun r => ¬Continues r

theorem ending_append {before rest : List ReadResult} {last : ReadResult}
    (hbefore : ∀ r ∈ before, Continues r) (hlast : ¬Continues last) :
    ending (before ++ last :: rest) = some last := by
  have hnone : before.find? (fun r => decide ¬Continues r) = none := by
    rw [List.find?_eq_none]
    intro r hr
    simpa using hbefore r hr
  rw [ending, List.find?_append, hnone, Option.none_or, List.find?_cons_of_pos (by simpa using hlast)]

theorem tells_iff {before : List ReadResult} {last : ReadResult} (hbefore : ∀ r ∈ before, Continues r)
    (hlast : ¬Continues last) :
    Tells (before ++ [last]) (replyAfter (before.flatMap (·.bytes)) last) ↔
      (last.bytes = [] → last.error = .eof) := by
  have hend : (before ++ [last]).getLast? = some last := by simp
  constructor
  · intro h hbytes
    have hsome : (replyAfter (before.flatMap (·.bytes)) last).isSome := by
      rw [replyAfter, if_pos (Or.inl hbytes)]
      rfl
    obtain ⟨r, hr, herror⟩ := h.complete.mp hsome
    rw [hend] at hr
    rw [Option.some.inj hr]
    exact herror
  · intro hempty
    have heof : last.bytes = [] ∨ last.error = .eof ↔ last.error = .eof :=
      ⟨fun h => h.elim hempty id, Or.inr⟩
    have hreply : replyAfter (before.flatMap (·.bytes)) last
        = if last.error = .eof then some ((before ++ [last]).flatMap (·.bytes)) else none := by
      simp [replyAfter, heof]
    rw [hreply]
    refine ⟨?_, ?_, ?_⟩
    · rw [hend]
      by_cases h : last.error = .eof
      · simp [h]
      · simp [h]
    · intro text htext
      by_cases h : last.error = .eof
      · rw [if_pos h] at htext
        exact (Option.some.inj htext).symm
      · rw [if_neg h] at htext
        cases htext
    · intro r hr hother
      rcases List.mem_append.mp hr with hr | hr
      · rw [(hbefore r hr).2] at hother
        cases hother
      · obtain rfl := List.mem_singleton.mp hr
        rw [if_neg (by simp [hother])]

/-- **`Read` is right exactly where a read without bytes that ends it has met the end of the file.** -/
theorem readsRight_iff (results : List ReadResult) :
    ReadsRight results ↔ ∀ last, ending results = some last → last.bytes = [] → last.error = .eof := by
  constructor
  · intro hright last hending
    obtain ⟨hlast, before, rest, rfl, hbefore⟩ := List.find?_eq_some_iff_append.mp hending
    have hbefore' : ∀ r ∈ before, Continues r := by
      intro r hr
      simpa using hbefore r hr
    have hlast' : ¬Continues last := by simpa using hlast
    obtain ⟨used, hused, htells⟩ := hright _ rest
      (readFrom_eq_some_iff.mpr ⟨before, last, rfl, hbefore', hlast', rfl⟩)
    obtain rfl : before ++ [last] = used := by
      rw [← List.singleton_append, ← List.append_assoc] at hused
      exact List.append_cancel_right hused
    rw [List.nil_append] at htells
    exact (tells_iff hbefore' hlast').mp htells
  · intro hempty reply rest hread
    obtain ⟨before, last, rfl, hbefore, hlast, rfl⟩ := readFrom_eq_some_iff.mp hread
    refine ⟨before ++ [last], by simp, ?_⟩
    rw [List.nil_append, tells_iff hbefore hlast]
    exact hempty last (ending_append hbefore hlast)

/-- The connection is reset after half of a page. -/
theorem truncated_reply_complete :
    read [{ bytes := lit "half", error := .none }, { bytes := [], error := .other }]
      = some (some (lit "half"), []) ∧
    ¬ReadsRight [{ bytes := lit "half", error := .none }, { bytes := [], error := .other }] := by
  have hread : read [{ bytes := lit "half", error := .none }, { bytes := [], error := .other }]
      = some (some (lit "half"), []) := by
    decide
  refine ⟨hread, fun hright => ?_⟩
  obtain ⟨used, hused, htells⟩ := hright _ _ hread
  rw [List.append_nil] at hused
  have hfailed := htells.failed { bytes := [], error := .other } (by simp [← hused]) rfl
  cases hfailed

end SyncClient

end JustEnough
