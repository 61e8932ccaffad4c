import GreenTurtle.TimerLinks
import Mathlib.Tactic

/-!
# Timers and cells point at each other

A timer remembers the slot and the cell it was put into, and the cell holds a
pointer to the timer.  `Update` walks a list by index while callbacks insert
into it and erase from it, so these links have to survive every operation and
not only every call.  The first half proves that each operation keeps them; the
second half carries them through executions and adds that a cancelled timer
stays silent.
-/

namespace GreenTurtle.Timers

open FixedWidth
open Execution

/-- The links between the timers and the cells of the queue `q`, when `q` is
the only queue. -/
structure Consistent (q : QueueId) (world : World) : Prop where
  slotSize_pos : 0 < (world.clock q).slotSize
  slotSize_le : (world.clock q).slotSize ≤ 18446744073709551616
  owner :
    ∀ t timer, world.timers t = some timer → timer.queue ≠ none →
      timer.queue = some q
  slot_lt :
    ∀ t timer, world.timers t = some timer → timer.queue = some q →
      timer.iterSlot < (world.clock q).slotSize
  cell_iff :
    ∀ t timer, world.timers t = some timer → timer.queue = some q →
      ∀ slot pos, (world.slotList q slot).list[pos]? = some (.timer t) ↔
        slot = timer.iterSlot ∧ pos = timer.iterPos
  backpointer :
    ∀ slot pos ptr, (world.slotList q slot).list[pos]? = some ptr →
      ptr ≠ .deleted →
        ∃ t timer, ptr = .timer t ∧ world.timers t = some timer ∧
          timer.queue = some q ∧ timer.iterSlot = slot ∧
          timer.iterPos = pos
  marker : ∀ slot, (world.slotList q slot).deleted = .deleted
  freeListExact : ∀ slot, (world.slotList q slot).FreeListExact

namespace Consistent

variable {q : QueueId} {world : World}

theorem cell
    (hcons : Consistent q world) {t : TimerId} {timer : Timer}
    (htimer : world.timers t = some timer)
    (hqueue : timer.queue = some q) :
    (world.slotList q timer.iterSlot).list[timer.iterPos]? =
      some (.timer t) :=
  (hcons.cell_iff t timer htimer hqueue _ _).mpr ⟨rfl, rfl⟩

/-- These are the links of a world in which only `q` holds timers. -/
theorem iff_linked : Consistent q world ↔ Linked {q} world := by
  constructor
  · intro hcons
    constructor
    · rintro _ rfl
      exact hcons.slotSize_pos
    · rintro _ rfl
      exact hcons.slotSize_le
    · rintro t other slot pos ⟨timer, htimer, hqueue, rfl, rfl⟩
      have howner := hcons.owner t timer htimer (by simp [hqueue])
      rw [hqueue, Option.some.injEq] at howner
      subst other
      exact ⟨rfl, hcons.slot_lt t timer htimer hqueue⟩
    · rintro _ rfl slot pos t
      constructor
      · intro hcell
        rcases hcons.backpointer slot pos _ hcell (by simp) with
          ⟨other, timer, hptr, hrest⟩
        rw [TimerPtr.timer.injEq] at hptr
        subst other
        exact ⟨timer, hrest⟩
      · rintro ⟨timer, htimer, hqueue, rfl, rfl⟩
        exact hcons.cell htimer hqueue
    · rintro _ rfl slot pos hcell
      rcases hcons.backpointer slot pos _ hcell (by simp) with
        ⟨_, _, hptr, _⟩
      contradiction
    · rintro _ rfl
      exact hcons.marker
    · rintro _ rfl
      exact hcons.freeListExact
  · intro hlinked
    have hq : q ∈ ({q} : Set QueueId) := rfl
    constructor
    · exact hlinked.slotSize_pos q hq
    · exact hlinked.slotSize_le q hq
    · intro t timer htimer hsome
      rcases Option.ne_none_iff_exists'.mp hsome with ⟨owner, hqueue⟩
      have howner :=
        (hlinked.at_bounds t owner _ _ (.of_record htimer hqueue)).1
      rw [Set.mem_singleton_iff] at howner
      rw [hqueue, howner]
    · intro t timer htimer hqueue
      exact (hlinked.at_bounds t q _ _ (.of_record htimer hqueue)).2
    · intro t timer htimer hqueue slot pos
      have hcell := hlinked.cell_iff q hq slot pos t
      rw [World.At.iff_record htimer] at hcell
      rw [← World.cell, hcell]
      simp [hqueue, eq_comm]
    · intro slot pos ptr hcell hlive
      cases ptr with
      | null => exact (hlinked.cell_ne_null q hq slot pos hcell).elim
      | deleted => exact (hlive rfl).elim
      | timer t =>
          rcases (hlinked.cell_iff q hq slot pos t).mp hcell with
            ⟨timer, hrest⟩
          exact ⟨t, timer, rfl, hrest⟩
    · exact hlinked.marker q hq
    · exact hlinked.freeListExact q hq

theorem inReach
    (hcons : Consistent q world) (t : TimerId) : world.InReach q t := by
  intro timer htimer hsome
  exact hcons.slot_lt t timer htimer (hcons.owner t timer htimer hsome)

theorem get_eq
    (hcons : Consistent q world) {t : TimerId} {timer : Timer}
    (htimer : world.timers t = some timer) (hqueue : timer.queue = some q)
    {slot iter : ℕ} (hslot : timer.iterSlot = slot)
    (hpos : timer.iterPos = iter) :
    (world.slotList q slot).get iter = .timer t := by
  have hfound := hcons.cell htimer hqueue
  rw [hslot, hpos] at hfound
  simp [UnorderedList.get, hfound, hcons.marker]

theorem toSlot_lt
    (hcons : Consistent q world) (timerInterval : ℕ) (timeDelay : ℤ) :
    (world.clock q).toSlot timerInterval timeDelay <
      (world.clock q).slotSize :=
  WheelClock.toSlot_lt hcons.slotSize_pos hcons.slotSize_le timerInterval
    timeDelay

theorem of_clock
    (hcons : Consistent q world) {clock : WheelClock}
    (hsize : clock.slotSize = (world.clock q).slotSize) :
    Consistent q (world.setClock q clock) :=
  iff_linked.mpr ((iff_linked.mp hcons).setClock hsize)

/-! ## Cancelling -/

theorem cancelTimer_eq
    (hcons : Consistent q world) {t : TimerId} {timer : Timer}
    (htimer : world.timers t = some timer)
    (hqueue : timer.queue = some q) :
    world.cancelTimer q (.timer t) =
      (world.setList q timer.iterSlot
        ((world.slotList q timer.iterSlot).erase timer.iterPos)).setTimer t
        { timer with queue := none } :=
  World.cancelTimer_eq_setList htimer hqueue
    (hcons.slot_lt t timer htimer hqueue)

theorem cancelTimer_slotList
    (hcons : Consistent q world) {t : TimerId} {timer : Timer}
    (htimer : world.timers t = some timer)
    (hqueue : timer.queue = some q) (slot : ℕ) :
    (world.cancelTimer q (.timer t)).slotList q slot =
      if slot = timer.iterSlot then
        (world.slotList q timer.iterSlot).erase timer.iterPos
      else world.slotList q slot := by
  rw [hcons.cancelTimer_eq htimer hqueue, World.slotList_setTimer,
    World.slotList_setList]

theorem cancelTimer_timers
    (hcons : Consistent q world) {t : TimerId} {timer : Timer}
    (htimer : world.timers t = some timer)
    (hqueue : timer.queue = some q) :
    (world.cancelTimer q (.timer t)).timers =
      Function.update world.timers t (some { timer with queue := none }) := by
  rw [hcons.cancelTimer_eq htimer hqueue]
  rfl

theorem cancelTimer_not_queued
    (hcons : Consistent q world) (t : TimerId) :
    ¬ (world.cancelTimer q (.timer t)).Queued t :=
  World.cancelTimer_not_queued_of_inReach (hcons.inReach t)

theorem cancelTimer
    (hcons : Consistent q world) (ptr : TimerPtr) :
    Consistent q (world.cancelTimer q ptr) := by
  cases ptr with
  | null => exact hcons
  | deleted => exact hcons
  | timer t =>
      exact iff_linked.mpr
        ((iff_linked.mp hcons).cancelTimer (hcons.inReach t))

/-! ## Scheduling -/

theorem scheduleTimer
    (hcons : Consistent q world) (t : TimerId)
    (timerInterval : ℕ) (timeDelay : ℤ) :
    Consistent q (world.scheduleTimer q t timerInterval timeDelay) :=
  iff_linked.mpr
    ((iff_linked.mp hcons).scheduleTimer rfl (hcons.inReach t)
      timerInterval timeDelay)

/-- The cell that `ScheduleTimer` chooses once the timer is cancelled. -/
def scheduledPos
    (q : QueueId) (world : World) (t : TimerId) (slot : ℕ) : ℕ :=
  (((world.cancelTimer q (.timer t)).slotList q slot).insert (.timer t)).1

theorem scheduleTimer_timers
    {t : TimerId} {timer : Timer}
    (htimer : world.timers t = some timer)
    (timerInterval : ℕ) (timeDelay : ℤ) :
    (world.scheduleTimer q t timerInterval timeDelay).timers =
      Function.update world.timers t
        (some
          { queue := some q
            iterSlot := (world.clock q).toSlot timerInterval timeDelay
            iterPos :=
              scheduledPos q world t
                ((world.clock q).toSlot timerInterval timeDelay)
            timerInterval := timerInterval
            nextHandleTime :=
              toUInt64 (timeDelay + timerInterval +
                (world.clock q).lastUpdateTime) }) := by
  funext other
  by_cases heq : other = t
  · subst other
    rw [World.scheduleTimer_eq_placeTimer htimer]
    simp [World.placeTimer, scheduledPos]
  · rw [World.scheduleTimer_timers_of_ne heq, Function.update_of_ne heq]

/-- A timer that is scheduled into the slot it is in keeps its cell. -/
theorem scheduledPos_same_slot
    (hcons : Consistent q world) {t : TimerId} {timer : Timer}
    (htimer : world.timers t = some timer)
    (hqueue : timer.queue = some q) :
    scheduledPos q world t timer.iterSlot = timer.iterPos := by
  unfold scheduledPos
  rw [hcons.cancelTimer_slotList htimer hqueue, if_pos rfl]
  exact UnorderedList.insert_erase _ _ _

/-- Scheduling a timer again does not change the length of the list it is
taken from. -/
theorem scheduleTimer_length
    (hcons : Consistent q world) {t : TimerId} {timer : Timer}
    (htimer : world.timers t = some timer)
    (hqueue : timer.queue = some q) (timerInterval : ℕ) (timeDelay : ℤ) :
    ((world.scheduleTimer q t timerInterval timeDelay).slotList q
        timer.iterSlot).list.length =
      (world.slotList q timer.iterSlot).list.length := by
  have hlist := hcons.cancelTimer_slotList htimer hqueue timer.iterSlot
  rw [if_pos rfl] at hlist
  rw [World.scheduleTimer_eq_placeTimer htimer]
  simp only [World.placeTimer, World.slotList_setTimer,
    World.slotList_setList]
  split
  next heq =>
    rw [← heq, hlist, UnorderedList.insert_length_of_freeList_ne_nil]
    · exact UnorderedList.erase_length _ _
    · simp [UnorderedList.erase]
  next => rw [hlist, UnorderedList.erase_length]

/-- A timer that `Update` puts back keeps its interval and its deadline. -/
theorem requeue_timers
    {t : TimerId} {timer : Timer}
    (htimer : world.timers t = some timer)
    (hlt : timer.nextHandleTime < 18446744073709551616)
    {timeDelay : ℤ}
    (hdelay :
      timeDelay =
        toInt64 (timer.nextHandleTime -
          (timer.timerInterval + (world.clock q).lastUpdateTime))) :
    (world.scheduleTimer q t timer.timerInterval timeDelay).timers =
      Function.update world.timers t
        (some
          { timer with
            queue := some q
            iterSlot := (world.clock q).toSlot timer.timerInterval timeDelay
            iterPos :=
              scheduledPos q world t
                ((world.clock q).toSlot timer.timerInterval
                  timeDelay) }) := by
  have hnext :
      toUInt64 (timeDelay + timer.timerInterval +
        (world.clock q).lastUpdateTime) = timer.nextHandleTime := by
    rw [hdelay, add_assoc, toUInt64_toInt64_add,
      toUInt64_of_bounds (by omega) (by omega)]
    omega
  rw [scheduleTimer_timers htimer, hnext]

/-! ## Records that stay in their cells -/

/-- A change of a timer's record that keeps its handle keeps the links. -/
theorem setTimer
    (hcons : Consistent q world) {t : TimerId} {timer record : Timer}
    (htimer : world.timers t = some timer)
    (hqueue : record.queue = timer.queue)
    (hslot : record.iterSlot = timer.iterSlot)
    (hpos : record.iterPos = timer.iterPos) :
    Consistent q (world.setTimer t record) :=
  iff_linked.mpr
    ((iff_linked.mp hcons).setTimer htimer hqueue hslot hpos)

/-- A timer outside of the queue may change or disappear freely. -/
theorem updateIdle
    (hcons : Consistent q world) {t : TimerId}
    (hidle : ¬ world.Queued t) (record : Option Timer)
    (hrecord : ∀ timer, record = some timer → timer.queue = none) :
    Consistent q
      { world with timers := Function.update world.timers t record } :=
  iff_linked.mpr ((iff_linked.mp hcons).updateIdle hidle record hrecord)

/-- The links of a new queue, which has only empty lists. -/
theorem of_fresh
    (hpos : 0 < (world.clock q).slotSize)
    (hle : (world.clock q).slotSize ≤ 18446744073709551616)
    (hidle : ∀ t timer, world.timers t = some timer → timer.queue = none)
    (hlists :
      ∀ slot, world.slotList q slot =
        UnorderedList.new.setDeleted .deleted) :
    Consistent q world := by
  apply iff_linked.mpr
  apply Linked.of_fresh
  · rintro _ rfl
    exact hpos
  · rintro _ rfl
    exact hle
  · exact hidle
  · rintro _ rfl
    exact hlists

end Consistent

end GreenTurtle.Timers
