import GraphTrace.Segment.Tree
import Mathlib.Data.List.Induction

/-!
# Clocks and what they were told

A clock keeps two things of all that it was told: when its work started last, and how long the work
took when it last ended.  They are enough (`timed_clockOf`): whatever the order of starts and ends,
what the clock shows is the last end less the latest start before it, and it shows something just if
an end came after a start.

Ends that come before every start are lost, a start after the last end changes nothing that is shown
(`took_start`), and instants need not be told in their order.
-/

namespace GraphTrace.Segment

/-- What a clock is told: that its work started, or that it ended. -/
inductive Mark where
  | start (now : Int)
  | stop (now : Int)
deriving DecidableEq

/-- A clock, or none before the first start, once it was told. -/
def Clock.told : Option Clock → Mark → Option Clock
  | none,   .start now => some ⟨now, none⟩
  | some c, .start now => some { c with started := now }
  | c,      .stop now  => c.map (·.ended now)

/-- The clock of a history. -/
def clockOf (marks : List Mark) : Option Clock := marks.foldl Clock.told none

/-- Whether `start` is the latest start of a history. -/
def LatestStart (marks : List Mark) (start : Int) : Prop :=
  ∃ before after, marks = before ++ .start start :: after ∧ ∀ now, .start now ∉ after

/-- Whether `stop` is the last end of a history, and `start` the latest start before it. -/
def LastSpan (marks : List Mark) (start stop : Int) : Prop :=
  ∃ before after, marks = before ++ .stop stop :: after ∧ (∀ now, .stop now ∉ after) ∧
    LatestStart before start

/-- Whether a duration is the one that a history tells. -/
structure Timed (marks : List Mark) (took : Option Nat) : Prop where
  /-- There is one just if some end came after some start. -/
  isSome_iff : took.isSome ↔ ∃ start stop, [.start start, .stop stop].Sublist marks
  span : ∀ {d : Nat}, took = some d → ∃ start stop, LastSpan marks start stop ∧
    d = (stop - start).toNat

/-- The last mark is told to the clock of those before it. -/
theorem clockOf_concat (marks : List Mark) (m : Mark) :
    clockOf (marks ++ [m]) = Clock.told (clockOf marks) m := by
  simp [clockOf]

/-- **A start leaves the duration that is shown.** -/
theorem took_start (c : Option Clock) (now : Int) :
    (Clock.told c (.start now)).bind (·.took) = c.bind (·.took) := by
  cases c <;> rfl

/-! ### The latest start -/

theorem LatestStart.mem {marks : List Mark} {start : Int} (h : LatestStart marks start) :
    .start start ∈ marks := by
  obtain ⟨before, after, rfl, -⟩ := h
  simp

/-- A start is the latest one until the next. -/
theorem latestStart_concat_start (marks : List Mark) (now : Int) :
    LatestStart (marks ++ [.start now]) now :=
  ⟨marks, [], rfl, by simp⟩

/-- An end leaves the latest start. -/
theorem LatestStart.concat_stop {marks : List Mark} {start : Int} (h : LatestStart marks start)
    (now : Int) : LatestStart (marks ++ [.stop now]) start := by
  obtain ⟨before, after, rfl, hno⟩ := h
  exact ⟨before, after ++ [.stop now], by simp, by simpa using hno⟩

/-- A clock runs from the latest start. -/
theorem latestStart_clockOf {marks : List Mark} {c : Clock} (h : clockOf marks = some c) :
    LatestStart marks c.started := by
  induction marks using List.reverseRecOn generalizing c with
  | nil => contradiction
  | append_singleton marks m ih =>
      rw [clockOf_concat] at h
      cases m with
      | start now =>
          have hnow : c.started = now := by
            cases e : clockOf marks <;> rw [e] at h <;> cases h <;> rfl
          exact hnow ▸ latestStart_concat_start marks now
      | stop now =>
          cases e : clockOf marks with
          | none => rw [e] at h; contradiction
          | some earlier =>
              rw [e] at h
              cases h
              exact (ih e).concat_stop now

/-- There is a clock just if there was a start. -/
theorem isSome_clockOf {marks : List Mark} :
    (clockOf marks).isSome ↔ ∃ start, .start start ∈ marks := by
  induction marks using List.reverseRecOn with
  | nil => simp [clockOf]
  | append_singleton marks m ih =>
      rw [clockOf_concat]
      cases m with
      | start now =>
          have hsome : (Clock.told (clockOf marks) (.start now)).isSome := by
            cases clockOf marks <;> rfl
          exact ⟨fun _ => ⟨now, by simp⟩, fun _ => hsome⟩
      | stop now =>
          have hsame : (Clock.told (clockOf marks) (.stop now)).isSome
              = (clockOf marks).isSome := by
            cases clockOf marks <;> rfl
          simp [hsame, ih]

/-! ### Ends after starts -/

theorem LastSpan.start_mem {marks : List Mark} {start stop : Int} (h : LastSpan marks start stop) :
    .start start ∈ marks := by
  obtain ⟨before, after, rfl, -, hstart⟩ := h
  exact List.mem_append_left _ hstart.mem

theorem LastSpan.stop_mem {marks : List Mark} {start stop : Int} (h : LastSpan marks start stop) :
    .stop stop ∈ marks := by
  obtain ⟨before, after, rfl, -⟩ := h
  simp

/-- A later start leaves the last span. -/
theorem LastSpan.concat_start {marks : List Mark} {start stop : Int}
    (h : LastSpan marks start stop) (now : Int) :
    LastSpan (marks ++ [.start now]) start stop := by
  obtain ⟨before, after, rfl, hno, hstart⟩ := h
  exact ⟨before, after ++ [.start now], by simp, by simpa using hno, hstart⟩

/-- An end makes a span with the latest start before it. -/
theorem lastSpan_concat_stop {marks : List Mark} {start : Int} (h : LatestStart marks start)
    (now : Int) : LastSpan (marks ++ [.stop now]) start now :=
  ⟨marks, [], rfl, by simp, h⟩

/-- A start adds no end after a start. -/
theorem sublist_concat_start {marks : List Mark} {start stop now : Int} :
    [Mark.start start, .stop stop].Sublist (marks ++ [.start now])
      ↔ [Mark.start start, .stop stop].Sublist marks := by
  refine ⟨fun h => ?_, fun h => h.trans (List.sublist_append_left _ _)⟩
  -- Read from behind, the new start is not the end that is looked for.
  have hrev := List.reverse_sublist.mpr h
  rw [List.reverse_concat] at hrev
  cases hrev with
  | cons _ hrev => exact List.reverse_sublist.mp hrev

/-- An end comes after all starts that there are. -/
theorem exists_sublist_concat_stop {marks : List Mark} {now : Int} :
    (∃ start stop, [Mark.start start, .stop stop].Sublist (marks ++ [.stop now]))
      ↔ ∃ start, .start start ∈ marks := by
  constructor
  · rintro ⟨start, stop, h⟩
    have hm : Mark.start start ∈ marks ++ [.stop now] := h.subset (by simp)
    exact ⟨start, by simpa using hm⟩
  · rintro ⟨start, h⟩
    exact ⟨start, now, (List.singleton_sublist.mpr h).append (List.Sublist.refl [Mark.stop now])⟩

/-- **A clock shows what its history tells.** -/
theorem timed_clockOf (marks : List Mark) : Timed marks ((clockOf marks).bind (·.took)) := by
  induction marks using List.reverseRecOn with
  | nil => exact ⟨by simp [clockOf], by simp [clockOf]⟩
  | append_singleton marks m ih =>
      cases m with
      | start now =>
          rw [clockOf_concat, took_start]
          refine ⟨by simpa only [sublist_concat_start] using ih.isSome_iff, fun h => ?_⟩
          obtain ⟨start, stop, hspan, hd⟩ := ih.span h
          exact ⟨start, stop, hspan.concat_start now, hd⟩
      | stop now =>
          have hstart : (clockOf marks).isSome ↔ _ := isSome_clockOf
          rw [clockOf_concat]
          cases h : clockOf marks with
          | none =>
              refine ⟨?_, fun e => by contradiction⟩
              rw [exists_sublist_concat_stop, ← hstart, h]
              rfl
          | some c =>
              refine ⟨?_, fun e => ?_⟩
              · rw [exists_sublist_concat_stop, ← hstart, h]
                rfl
              · exact ⟨c.started, now, lastSpan_concat_stop (latestStart_clockOf h) now,
                  (Option.some.inj e).symm⟩

end GraphTrace.Segment
