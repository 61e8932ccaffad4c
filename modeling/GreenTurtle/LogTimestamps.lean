import GreenTurtle.Logger
import Mathlib.Data.List.Chain
import Mathlib.Data.Prod.Lex
import Mathlib.Tactic

/-!
# The timestamps of log records

`Logger::GenerateLogHeader` reads the clock twice.  The milliseconds come from
`gettimeofday`, and the second from the later call of `time`, so a header whose
readings lie on two sides of a full second shows a time that neither of them
had.
-/

namespace GreenTurtle.Logging

open Memory

/-- The two readings of one header, in microseconds since the epoch. -/
structure Readings where
  timeOfDay : ℕ
  time : ℕ
deriving DecidableEq

namespace Readings

/-- `tv_sec`, which the second reading replaces. -/
def firstSecond (readings : Readings) : ℕ := readings.timeOfDay / 1000000

/-- `tv_usec / 1000`. -/
def milliseconds (readings : Readings) : ℕ :=
  readings.timeOfDay % 1000000 / 1000

/-- `time(NULL)`. -/
def second (readings : Readings) : ℕ := readings.time / 1000000

end Readings

/-- How `localtime_r` renders a second. -/
abbrev Rendering := ℤ → Fin 24 × Fin 60 × Fin 61

def currentTime (rendering : Rendering) (readings : Readings) :
    CurrentTime where
  seconds := readings.second
  milliseconds := readings.milliseconds
  hour := (rendering readings.second).1
  minute := (rendering readings.second).2.1
  second := (rendering readings.second).2.2

/-- The second whose rendering a header shows, and the milliseconds. -/
def shown (thread : ThreadTime) (now : CurrentTime) : ℤ × ℕ :=
  ((thread.refresh now).time, now.milliseconds % 1024 % 1000)

/-- What the headers of successive records of a thread show. -/
def stamps (rendering : Rendering) :
    ThreadTime → List Readings → List (ℤ × ℕ)
  | _, [] => []
  | thread, readings :: records =>
      let now := currentTime rendering readings
      shown thread now :: stamps rendering (thread.refresh now) records

/-- All readings of the clock, in the order in which they are made. -/
def clockReadings (records : List Readings) : List ℕ :=
  records.flatMap fun readings => [readings.timeOfDay, readings.time]

/-! ## The header shows them -/

def renderedText (rendering : Rendering) (second : ℤ) : List Byte :=
  twoDigits (rendering second).1 ++ [58] ++
    twoDigits (rendering second).2.1 ++ [58] ++
    twoDigits (rendering second).2.2 ++ [0]

/-- A pair as text, at the places that a header has for it. -/
def stampStores (rendering : Rendering) (stamp : ℤ × ℕ) : StoreLog Byte :=
  [(0, (renderedText rendering stamp.1).take 8),
    (8, milliSecondsString stamp.2)]

/-- The headers of successive records of a thread, with the levels given. -/
def headers (rendering : Rendering) :
    ThreadTime → List (Readings × Int8) → List (StoreLog Byte)
  | _, [] => []
  | thread, (readings, level) :: records =>
      let now := currentTime rendering readings
      (generateLogHeader thread now level).2 ::
        headers rendering (thread.refresh now) records

/-- The string of the thread belongs to its time, unless it was never set. -/
def Renders (rendering : Rendering) (thread : ThreadTime) : Prop :=
  0 < thread.time → thread.text = renderedText rendering thread.time

theorem renders_freshThread (rendering : Rendering) :
    Renders rendering freshThread := by
  intro hpos
  simp [freshThread] at hpos

theorem Renders.refresh
    {rendering : Rendering} {thread : ThreadTime}
    (hrenders : Renders rendering thread) (readings : Readings) :
    Renders rendering (thread.refresh (currentTime rendering readings)) := by
  unfold ThreadTime.refresh
  split
  next => exact fun _ => rfl
  next => exact hrenders

theorem ThreadTime.time_refresh (thread : ThreadTime) (now : CurrentTime) :
    (thread.refresh now).time = max thread.time now.seconds := by
  unfold ThreadTime.refresh
  split
  next hlt => exact (max_eq_right hlt.le).symm
  next hge => exact (max_eq_left (not_lt.mp hge)).symm

/-- The beginning of a header is the text of the pair that it shows. -/
theorem generateLogHeader_shows
    {rendering : Rendering} {thread : ThreadTime}
    (hrenders : Renders rendering thread) {readings : Readings}
    (hpos : 0 < readings.second) (level : Int8) :
    (generateLogHeader thread (currentTime rendering readings) level).2.take
        2 =
      stampStores rendering
        (shown thread (currentTime rendering readings)) := by
  have htime :
      0 < (thread.refresh (currentTime rendering readings)).time := by
    rw [ThreadTime.time_refresh]
    exact lt_max_of_lt_right (Int.natCast_pos.mpr hpos)
  have htext := hrenders.refresh readings htime
  have hmilliseconds :
      ∀ i, milliSecondsString (i % 1000) = milliSecondsString i := by
    intro i
    simp only [milliSecondsString, Nat.mod_mod]
  simp only [stampStores, shown, hmilliseconds, ← htext, generateLogHeader]
  split <;> rfl

theorem headers_show_of_renders
    {rendering : Rendering} {thread : ThreadTime}
    (hrenders : Renders rendering thread)
    {records : List (Readings × Int8)}
    (hpos : ∀ record ∈ records, 0 < record.1.second) :
    (headers rendering thread records).map (List.take 2) =
      (stamps rendering thread (records.map Prod.fst)).map
        (stampStores rendering) := by
  induction records generalizing thread with
  | nil => rfl
  | cons record records ih =>
      obtain ⟨readings, level⟩ := record
      have hfirst := hpos (readings, level) List.mem_cons_self
      simp only [headers, stamps, List.map_cons]
      rw [generateLogHeader_shows hrenders hfirst level,
        ih (hrenders.refresh readings)
          fun record hrecord => hpos record (List.mem_cons_of_mem _ hrecord)]

/-- The headers that a thread writes begin with the texts of the stamps. -/
theorem headers_show
    (rendering : Rendering) {records : List (Readings × Int8)}
    (hpos : ∀ record ∈ records, 0 < record.1.second) :
    (headers rendering freshThread records).map (List.take 2) =
      (stamps rendering freshThread (records.map Prod.fst)).map
        (stampStores rendering) :=
  headers_show_of_renders (renders_freshThread rendering) hpos

/-! ## With a clock that does not go back -/

/-- The stamp of a header whose second reading is the latest so far. -/
def Readings.stamp (readings : Readings) : ℤ × ℕ :=
  (readings.second, readings.milliseconds)

theorem shown_eq_stamp
    {thread : ThreadTime} (rendering : Rendering) {readings : Readings}
    (hle : thread.time ≤ readings.second) :
    shown thread (currentTime rendering readings) = readings.stamp := by
  have hlt : readings.milliseconds < 1000 := by
    unfold Readings.milliseconds
    omega
  unfold shown Readings.stamp
  rw [ThreadTime.time_refresh]
  simp only [currentTime]
  rw [max_eq_right hle, Nat.mod_eq_of_lt (by omega : _ < 1024),
    Nat.mod_eq_of_lt hlt]

theorem stamps_eq_map
    (rendering : Rendering) {thread : ThreadTime} {records : List Readings}
    (hclock : (clockReadings records).Pairwise (· ≤ ·))
    (hthread : ∀ readings ∈ records, thread.time ≤ readings.second) :
    stamps rendering thread records = records.map Readings.stamp := by
  induction records generalizing thread with
  | nil => rfl
  | cons readings records ih =>
      have hfirst := hthread readings List.mem_cons_self
      simp only [clockReadings, List.flatMap_cons, List.cons_append,
        List.nil_append, List.pairwise_cons] at hclock
      rw [stamps, List.map_cons, shown_eq_stamp rendering hfirst,
        ih hclock.2.2]
      intro later hlater
      have hle : readings.time ≤ later.time := by
        apply hclock.2.1
        exact List.mem_flatMap.mpr ⟨later, hlater, by simp⟩
      rw [ThreadTime.time_refresh]
      simp only [currentTime]
      apply max_le
      · exact hthread later (List.mem_cons_of_mem _ hlater)
      · exact_mod_cast Nat.div_le_div_right hle

/-- The milliseconds of the first reading are at most those of the second, so
that the stamp, which has the second of the later reading, is not ahead of the
clock. -/
def Readings.NotAhead (readings : Readings) : Prop :=
  readings.milliseconds ≤ readings.time % 1000000 / 1000

instance (readings : Readings) : Decidable readings.NotAhead :=
  inferInstanceAs (Decidable (_ ≤ _))

/-- So it is when both readings lie in one second. -/
theorem Readings.notAhead_of_same_second
    {readings : Readings} (hclock : readings.timeOfDay ≤ readings.time)
    (hsame : readings.firstSecond = readings.second) :
    readings.NotAhead := by
  unfold NotAhead milliseconds
  unfold firstSecond second at hsame
  omega

theorem Readings.NotAhead.stamp_le
    {readings next : Readings} (hbehind : readings.NotAhead)
    (hnext : readings.time ≤ next.timeOfDay)
    (hother : next.timeOfDay ≤ next.time) :
    toLex readings.stamp ≤ toLex next.stamp := by
  rw [Prod.Lex.toLex_le_toLex]
  unfold NotAhead at hbehind
  unfold stamp second milliseconds at *
  omega

/-- A record that is read at the same instant shows the time of the clock. -/
theorem Readings.NotAhead.of_stamp_le
    {readings : Readings}
    (hle :
      toLex readings.stamp ≤
        toLex (Readings.mk readings.time readings.time).stamp) :
    readings.NotAhead := by
  rw [Prod.Lex.toLex_le_toLex] at hle
  rcases hle with hlt | ⟨-, hle⟩
  · exact absurd hlt (lt_irrefl _)
  · exact hle

theorem isChain_stamp
    {records : List Readings}
    (hclock : (clockReadings records).Pairwise (· ≤ ·))
    (hbehind : ∀ readings ∈ records.dropLast, readings.NotAhead) :
    records.IsChain
      fun readings next => toLex readings.stamp ≤ toLex next.stamp := by
  induction records with
  | nil => exact List.IsChain.nil
  | cons readings records ih =>
      cases records with
      | nil => exact List.IsChain.singleton _
      | cons next records =>
          rw [List.dropLast_cons_cons, List.forall_mem_cons] at hbehind
          simp only [clockReadings, List.flatMap_cons, List.cons_append,
            List.nil_append, List.pairwise_cons] at hclock ih
          rw [List.isChain_cons_cons]
          refine ⟨hbehind.1.stamp_le ?_ ?_, ih hclock.2.2 hbehind.2⟩
          · exact hclock.2.1 _ (by simp)
          · exact hclock.2.2.1 _ (by simp)

/-- A record may follow at the instant of the last reading. -/
theorem clockReadings_snoc
    {before after : List Readings} {readings : Readings}
    (hclock :
      (clockReadings (before ++ readings :: after)).Pairwise (· ≤ ·)) :
    (clockReadings
      (before ++ [readings, ⟨readings.time, readings.time⟩])).Pairwise
        (· ≤ ·) := by
  simp only [clockReadings, List.flatMap_append, List.flatMap_cons,
    List.flatMap_nil, List.append_nil, List.cons_append, List.nil_append,
    List.pairwise_append, List.pairwise_cons] at hclock ⊢
  refine ⟨hclock.1, ?_, ?_⟩
  · have hown := hclock.2.1.1 readings.time (by simp)
    simp [hown]
  · intro earlier hearlier
    have htimeOfDay := hclock.2.2 earlier hearlier readings.timeOfDay (by simp)
    have htime := hclock.2.2 earlier hearlier readings.time (by simp)
    simp [htimeOfDay, htime]

def Sorted (stamps : List (ℤ × ℕ)) : Prop :=
  stamps.Pairwise fun stamp later => toLex stamp ≤ toLex later

instance (stamps : List (ℤ × ℕ)) : Decidable (Sorted stamps) :=
  inferInstanceAs (Decidable (stamps.Pairwise _))

theorem freshThread_time_le (readings : Readings) :
    freshThread.time ≤ readings.second :=
  Int.natCast_nonneg _

/-- The stamps that a thread's headers show do not go back if none but the last
is ahead of the clock.  A stamp that is ahead can be followed by a smaller
one. -/
theorem stamps_sorted
    (rendering : Rendering) {records : List Readings}
    (hclock : (clockReadings records).Pairwise (· ≤ ·)) :
    ((∀ readings ∈ records.dropLast, readings.NotAhead) →
        Sorted (stamps rendering freshThread records)) ∧
      ∀ readings ∈ records, ¬ readings.NotAhead →
        ∃ before next,
          before ++ [readings] <+: records ∧
            (clockReadings (before ++ [readings, next])).Pairwise (· ≤ ·) ∧
              ¬ Sorted
                (stamps rendering freshThread
                  (before ++ [readings, next])) := by
  constructor
  · intro hbehind
    have htrans :
        IsTrans (ℤ × ℕ) fun stamp later => toLex stamp ≤ toLex later :=
      ⟨fun _ _ _ => le_trans⟩
    rw [Sorted, stamps_eq_map rendering hclock fun readings _ =>
      freshThread_time_le readings, ← List.isChain_iff_pairwise,
      List.isChain_map]
    exact isChain_stamp hclock hbehind
  · intro readings hmem hahead
    rcases List.append_of_mem hmem with ⟨before, after, rfl⟩
    have hnext := clockReadings_snoc hclock
    refine ⟨before, ⟨readings.time, readings.time⟩, ⟨after, by simp⟩, hnext,
      ?_⟩
    intro hsorted
    rw [Sorted, stamps_eq_map rendering hnext fun readings _ =>
      freshThread_time_le readings, List.map_append,
      List.pairwise_append] at hsorted
    have hpair := hsorted.2.1
    simp only [List.map_cons, List.map_nil, List.pairwise_cons] at hpair
    exact hahead (.of_stamp_le (hpair.1 _ List.mem_cons_self))

theorem stamps_sorted_two_seconds :
    (clockReadings [⟨5998000, 5998100⟩, ⟨6001000, 6001100⟩]).Pairwise
        (· ≤ ·) ∧
      Sorted (stamps (fun _ => (0, 0, 0)) freshThread
        [⟨5998000, 5998100⟩, ⟨6001000, 6001100⟩]) := by
  have hclock :
      (clockReadings [⟨5998000, 5998100⟩, ⟨6001000, 6001100⟩]).Pairwise
        (· ≤ ·) := by
    decide
  exact ⟨hclock, (stamps_sorted _ hclock).1 (by decide)⟩

/-- The first header reads the clock on both sides of the sixth second: it
shows 6.999, and the next one shows 6.000. -/
theorem stamps_go_back :
    (clockReadings [⟨5999900, 6000000⟩, ⟨6000100, 6000200⟩]).Pairwise
        (· ≤ ·) ∧
      stamps (fun _ => (0, 0, 0)) freshThread
          [⟨5999900, 6000000⟩, ⟨6000100, 6000200⟩] =
        [(6, 999), (6, 0)] ∧
      ¬ Sorted (stamps (fun _ => (0, 0, 0)) freshThread
        [⟨5999900, 6000000⟩, ⟨6000100, 6000200⟩]) := by
  decide

end GreenTurtle.Logging
