import GreenTurtle.TimerModel
import Mathlib.Tactic

/-!
# Links between timers and the cells of several queues

A timer remembers the queue, the slot and the cell it was put into, and the
cell holds a pointer to the timer.  `Linked` states this for a set of queues
that share their timers.  Every operation keeps the links, with one exception:
`CancelTimer` compares the slot of the timer with the number of slots of the
queue on which it is called, and does nothing when that queue is too small.
-/

namespace GreenTurtle.Timers

open FixedWidth

namespace World

/-- The timer is in some queue. -/
def Queued (world : World) (t : TimerId) : Prop :=
  ∃ timer, world.timers t = some timer ∧ timer.queue ≠ none

/-- The record of the timer names this cell. -/
def At (world : World) (t : TimerId) (q : QueueId) (slot pos : ℕ) : Prop :=
  ∃ timer, world.timers t = some timer ∧ timer.queue = some q ∧
    timer.iterSlot = slot ∧ timer.iterPos = pos

def cell (world : World) (q : QueueId) (slot pos : ℕ) : Option TimerPtr :=
  (world.slotList q slot).list[pos]?

/-- The slot of the timer exists in the queue on which a method is called. -/
def InReach (world : World) (self : QueueId) (t : TimerId) : Prop :=
  ∀ timer ∈ world.timers t, timer.queue ≠ none →
    timer.iterSlot < (world.clock self).slotSize

instance (world : World) (self : QueueId) (t : TimerId) :
    Decidable (world.InReach self t) := by
  unfold InReach
  infer_instance

variable {world : World}

theorem At.of_record
    {t : TimerId} {timer : Timer} {q : QueueId}
    (htimer : world.timers t = some timer)
    (hqueue : timer.queue = some q) :
    world.At t q timer.iterSlot timer.iterPos :=
  ⟨timer, htimer, hqueue, rfl, rfl⟩

theorem At.iff_record
    {t : TimerId} {timer : Timer} (htimer : world.timers t = some timer)
    (q : QueueId) (slot pos : ℕ) :
    world.At t q slot pos ↔
      timer.queue = some q ∧ timer.iterSlot = slot ∧
        timer.iterPos = pos := by
  simp [At, htimer]

theorem At.queued
    {t : TimerId} {q : QueueId} {slot pos : ℕ}
    (hat : world.At t q slot pos) : world.Queued t := by
  rcases hat with ⟨timer, htimer, hqueue, _⟩
  exact ⟨timer, htimer, by simp [hqueue]⟩

theorem Queued.exists_at
    {t : TimerId} (hqueued : world.Queued t) :
    ∃ q slot pos, world.At t q slot pos := by
  rcases hqueued with ⟨timer, htimer, hsome⟩
  rcases Option.ne_none_iff_exists'.mp hsome with ⟨q, hqueue⟩
  exact ⟨q, _, _, .of_record htimer hqueue⟩

/-- A timer is in one place only. -/
theorem At.unique
    {t : TimerId} {q other : QueueId} {slot pos slot' pos' : ℕ}
    (hat : world.At t q slot pos) (hother : world.At t other slot' pos') :
    other = q ∧ slot' = slot ∧ pos' = pos := by
  rcases hat with ⟨timer, htimer, hqueue, rfl, rfl⟩
  rcases (At.iff_record htimer other slot' pos').mp hother with
    ⟨hqueue', rfl, rfl⟩
  rw [hqueue, Option.some.injEq] at hqueue'
  exact ⟨hqueue'.symm, rfl, rfl⟩

theorem at_congr
    {world' : World} {t : TimerId}
    (htimers : world'.timers t = world.timers t)
    (q : QueueId) (slot pos : ℕ) :
    world'.At t q slot pos ↔ world.At t q slot pos := by
  simp only [At, htimers]

theorem At.slot_lt
    {self : QueueId} {t : TimerId} {q : QueueId} {slot pos : ℕ}
    (hat : world.At t q slot pos) (hreach : world.InReach self t) :
    slot < (world.clock self).slotSize := by
  rcases hat with ⟨timer, htimer, hqueue, rfl, _⟩
  exact hreach timer htimer (by simp [hqueue])

/-! ## Cells of every queue -/

theorem slotList_setList_eq
    (world : World) (q other : QueueId) (slot slot' : ℕ)
    (list : UnorderedList TimerPtr) :
    (world.setList q slot list).slotList other slot' =
      if other = q ∧ slot' = slot then list
      else world.slotList other slot' := by
  by_cases heq : other = q
  · subst other
    simp [slotList_setList]
  · simp [setList, setQueue, slotList, Function.update, heq]

theorem slotList_setClock_eq
    (world : World) (q other : QueueId) (clock : WheelClock) (slot : ℕ) :
    (world.setClock q clock).slotList other slot =
      world.slotList other slot := by
  by_cases heq : other = q
  · subst other
    simp
  · simp [setClock, setQueue, slotList, Function.update, heq]

theorem slotSize_setClock
    {q : QueueId} {clock : WheelClock}
    (hsize : clock.slotSize = (world.clock q).slotSize) (other : QueueId) :
    ((world.setClock q clock).clock other).slotSize =
      (world.clock other).slotSize := by
  by_cases heq : other = q
  · subst other
    simpa using hsize
  · simp [setClock, setQueue, World.clock, Function.update, heq]

theorem cancelTimer_of_not_queued
    {self : QueueId} {t : TimerId} (hidle : ¬ world.Queued t) :
    world.cancelTimer self (.timer t) = world := by
  cases htimer : world.timers t with
  | none => simp [World.cancelTimer, htimer]
  | some timer =>
      have hqueue : timer.queue = none := by
        by_contra hsome
        exact hidle ⟨timer, htimer, hsome⟩
      simp [World.cancelTimer, htimer, hqueue]

/-- On a queue with too few slots the call does nothing. -/
theorem cancelTimer_of_not_inReach
    {self : QueueId} {t : TimerId} {q : QueueId} {slot pos : ℕ}
    (hat : world.At t q slot pos)
    (hslot : ¬ slot < (world.clock self).slotSize) :
    world.cancelTimer self (.timer t) = world := by
  rcases hat with ⟨timer, htimer, hqueue, rfl, rfl⟩
  simp [World.cancelTimer, htimer, hqueue, hslot]

theorem cancelTimer_eq_setList
    {self owner : QueueId} {t : TimerId} {timer : Timer}
    (htimer : world.timers t = some timer)
    (hqueue : timer.queue = some owner)
    (hslot : timer.iterSlot < (world.clock self).slotSize) :
    world.cancelTimer self (.timer t) =
      (world.setList owner timer.iterSlot
        ((world.slotList owner timer.iterSlot).erase
          timer.iterPos)).setTimer t
        { timer with queue := none } := by
  simp [World.cancelTimer, htimer, hqueue, hslot]

theorem cancelTimer_timers_of_ne
    {self : QueueId} {t other : TimerId} (hne : other ≠ t) :
    (world.cancelTimer self (.timer t)).timers other =
      world.timers other := by
  simp only [cancelTimer]
  split
  next => rfl
  next =>
    split
    next => rfl
    next => split <;> simp [hne]

theorem cancelTimer_not_queued_of_inReach
    {self : QueueId} {t : TimerId} (hreach : world.InReach self t) :
    ¬ (world.cancelTimer self (.timer t)).Queued t := by
  by_cases hqueued : world.Queued t
  · rcases hqueued.exists_at with ⟨owner, _, _, hat⟩
    have hslot := hat.slot_lt hreach
    rcases hat with ⟨timer, htimer, hqueue, rfl, rfl⟩
    rw [cancelTimer_eq_setList htimer hqueue hslot]
    rintro ⟨record, hrecord, hsome⟩
    simp only [timers_setTimer, Function.update_self,
      Option.some.injEq] at hrecord
    subst record
    exact hsome rfl
  · rwa [cancelTimer_of_not_queued hqueued]

/-- Scheduling first removes the timer from wherever it is. -/
theorem scheduleTimer_eq_placeTimer
    {q : QueueId} {t : TimerId} {timer : Timer}
    (htimer : world.timers t = some timer)
    (timerInterval : ℕ) (timeDelay : ℤ) :
    world.scheduleTimer q t timerInterval timeDelay =
      (world.cancelTimer q (.timer t)).placeTimer q t
        ((world.clock q).toSlot timerInterval timeDelay) timerInterval
        (toUInt64 (timeDelay + timerInterval +
          (world.clock q).lastUpdateTime)) := by
  unfold World.scheduleTimer
  simp only [htimer]
  cases hqueue : timer.queue with
  | none =>
      have hidle : ¬ world.Queued t := by
        rintro ⟨record, hrecord, hne⟩
        rw [htimer, Option.some.injEq] at hrecord
        subst record
        exact hne hqueue
      rw [cancelTimer_of_not_queued hidle]
      simp [Timer.isInQueue, hqueue]
  | some owner => simp [Timer.isInQueue, hqueue]

theorem scheduleTimer_timers_of_ne
    {q : QueueId} {t other : TimerId} (hne : other ≠ t)
    (timerInterval : ℕ) (timeDelay : ℤ) :
    (world.scheduleTimer q t timerInterval timeDelay).timers other =
      world.timers other := by
  cases htimer : world.timers t with
  | none => simp [scheduleTimer, htimer]
  | some timer =>
      rw [scheduleTimer_eq_placeTimer htimer]
      simp only [placeTimer, timers_setTimer, timers_setList]
      rw [Function.update_of_ne hne, cancelTimer_timers_of_ne hne]

theorem placeTimer_at
    (world : World) (self : QueueId) (t : TimerId)
    (place timerInterval nextHandleTime : ℕ)
    (q : QueueId) (slot pos : ℕ) :
    (world.placeTimer self t place timerInterval nextHandleTime).At
        t q slot pos ↔
      q = self ∧ slot = place ∧
        pos = ((world.slotList self place).insert (.timer t)).1 := by
  have htimer :
      (world.placeTimer self t place timerInterval nextHandleTime).timers
          t =
        some
          { queue := some self
            iterSlot := place
            iterPos := ((world.slotList self place).insert (.timer t)).1
            timerInterval := timerInterval
            nextHandleTime := nextHandleTime } := by
    simp [placeTimer]
  rw [At.iff_record htimer]
  simp only [Option.some.injEq, eq_comm]

end World

theorem WheelClock.toSlot_lt
    {clock : WheelClock} (hpos : 0 < clock.slotSize)
    (hle : clock.slotSize ≤ 18446744073709551616)
    (timerInterval : ℕ) (timeDelay : ℤ) :
    clock.toSlot timerInterval timeDelay < clock.slotSize := by
  have hmask : clock.slotMask = clock.slotSize - 1 := by
    unfold WheelClock.slotMask
    rw [toUInt64_of_bounds (by omega) (by omega)]
    omega
  unfold WheelClock.toSlot
  rw [hmask]
  exact lt_of_le_of_lt Nat.and_le_right (by omega)

/-- The links between the timers and the cells of the queues in `members`, when
these are the only queues with timers. -/
structure Linked (members : Set QueueId) (world : World) : Prop where
  slotSize_pos : ∀ q ∈ members, 0 < (world.clock q).slotSize
  slotSize_le :
    ∀ q ∈ members, (world.clock q).slotSize ≤ 18446744073709551616
  at_bounds :
    ∀ t q slot pos, world.At t q slot pos →
      q ∈ members ∧ slot < (world.clock q).slotSize
  cell_iff :
    ∀ q ∈ members, ∀ slot pos t,
      world.cell q slot pos = some (.timer t) ↔ world.At t q slot pos
  cell_ne_null : ∀ q ∈ members, ∀ slot pos, world.cell q slot pos ≠ some .null
  marker : ∀ q ∈ members, ∀ slot, (world.slotList q slot).deleted = .deleted
  freeListExact :
    ∀ q ∈ members, ∀ slot, (world.slotList q slot).FreeListExact

namespace Linked

variable {members : Set QueueId} {world : World}

/-- A timer that is in no queue is in no cell. -/
theorem cell_ne_of_not_queued
    (hlinked : Linked members world) {t : TimerId}
    (hidle : ¬ world.Queued t) {q : QueueId} (hq : q ∈ members)
    (slot pos : ℕ) :
    world.cell q slot pos ≠ some (.timer t) := by
  intro hcell
  exact hidle ((hlinked.cell_iff q hq slot pos t).mp hcell).queued

/-- Links only mention lists, timers and the numbers of slots. -/
theorem setClock
    (hlinked : Linked members world) {q : QueueId} {clock : WheelClock}
    (hsize : clock.slotSize = (world.clock q).slotSize) :
    Linked members (world.setClock q clock) := by
  have hsizes := World.slotSize_setClock hsize
  have hlists := world.slotList_setClock_eq q
  constructor
  · intro other hother
    rw [hsizes]
    exact hlinked.slotSize_pos other hother
  · intro other hother
    rw [hsizes]
    exact hlinked.slotSize_le other hother
  · intro t other slot pos hat
    rw [hsizes]
    exact hlinked.at_bounds t other slot pos hat
  · intro other hother slot pos t
    simp only [World.cell, hlists]
    exact hlinked.cell_iff other hother slot pos t
  · intro other hother slot pos
    simp only [World.cell, hlists]
    exact hlinked.cell_ne_null other hother slot pos
  · intro other hother slot
    rw [hlists]
    exact hlinked.marker other hother slot
  · intro other hother slot
    rw [hlists]
    exact hlinked.freeListExact other hother slot

/-- The links survive a change that concerns a single timer `t`: other timers
keep their records and their cells, and `t` is found in the cell its own record
names, or in none. -/
theorem relink
    (hlinked : Linked members world) {world' : World} {t : TimerId}
    (hclock : ∀ q, world'.clock q = world.clock q)
    (hothers :
      ∀ other, other ≠ t → world'.timers other = world.timers other)
    (hself :
      ∀ q slot pos, world'.At t q slot pos →
        q ∈ members ∧ slot < (world.clock q).slotSize)
    (hselfCells :
      ∀ q ∈ members, ∀ slot pos,
        world'.cell q slot pos = some (.timer t) ↔ world'.At t q slot pos)
    (hotherCells :
      ∀ q ∈ members, ∀ (slot pos : ℕ) (ptr : TimerPtr),
        ptr ≠ .deleted → ptr ≠ .timer t →
          (world'.cell q slot pos = some ptr ↔
            world.cell q slot pos = some ptr))
    (hmarker :
      ∀ q ∈ members, ∀ slot, (world'.slotList q slot).deleted = .deleted)
    (hfree :
      ∀ q ∈ members, ∀ slot, (world'.slotList q slot).FreeListExact) :
    Linked members world' := by
  constructor
  · simpa only [hclock] using hlinked.slotSize_pos
  · simpa only [hclock] using hlinked.slotSize_le
  · intro other q slot pos hat
    rw [hclock]
    by_cases heq : other = t
    · subst other
      exact hself q slot pos hat
    · rw [World.at_congr (hothers other heq)] at hat
      exact hlinked.at_bounds other q slot pos hat
  · intro q hq slot pos other
    by_cases heq : other = t
    · subst other
      exact hselfCells q hq slot pos
    · rw [hotherCells q hq slot pos _ (by simp) (by simpa using heq),
        World.at_congr (hothers other heq)]
      exact hlinked.cell_iff q hq slot pos other
  · intro q hq slot pos
    rw [Ne, hotherCells q hq slot pos _ (by simp) (by simp)]
    exact hlinked.cell_ne_null q hq slot pos
  · exact hmarker
  · exact hfree

/-! ## Cancelling -/

theorem cancelTimer_cell
    (hlinked : Linked members world) {self owner : QueueId} {t : TimerId}
    {slot pos : ℕ} (hat : world.At t owner slot pos)
    (hslot : slot < (world.clock self).slotSize)
    (q : QueueId) (slot' pos' : ℕ) :
    (world.cancelTimer self (.timer t)).cell q slot' pos' =
      if q = owner ∧ slot' = slot ∧ pos' = pos then some .deleted
      else world.cell q slot' pos' := by
  have howner := (hlinked.at_bounds t owner slot pos hat).1
  have hcell := (hlinked.cell_iff owner howner slot pos t).mpr hat
  have hpos := (List.getElem?_eq_some_iff.mp hcell).1
  rcases hat with ⟨timer, htimer, hqueue, rfl, rfl⟩
  rw [World.cancelTimer_eq_setList htimer hqueue hslot]
  unfold World.cell
  rw [World.slotList_setTimer, World.slotList_setList_eq]
  by_cases hplace : q = owner ∧ slot' = timer.iterSlot
  · rcases hplace with ⟨rfl, rfl⟩
    simp only [and_self, if_true, true_and]
    rw [UnorderedList.erase_getElem? hpos, hlinked.marker q howner]
  · have hother :
        ¬ (q = owner ∧ slot' = timer.iterSlot ∧ pos' = timer.iterPos) :=
      fun hall => hplace ⟨hall.1, hall.2.1⟩
    rw [if_neg hplace, if_neg hother]

theorem cancelTimer_list
    (hlinked : Linked members world) {self : QueueId} {t : TimerId}
    {q : QueueId} (hq : q ∈ members) (slot : ℕ) :
    ((world.cancelTimer self (.timer t)).slotList q slot).deleted =
        .deleted ∧
      ((world.cancelTimer self (.timer t)).slotList q
        slot).FreeListExact := by
  have hsame := And.intro (hlinked.marker q hq slot)
    (hlinked.freeListExact q hq slot)
  by_cases hqueued : world.Queued t
  · rcases hqueued.exists_at with ⟨owner, place, pos, hat⟩
    by_cases hplace : place < (world.clock self).slotSize
    · have howner := (hlinked.at_bounds t owner place pos hat).1
      have hcell := (hlinked.cell_iff owner howner place pos t).mpr hat
      rcases hat with ⟨timer, htimer, hqueue, rfl, rfl⟩
      rw [World.cancelTimer_eq_setList htimer hqueue hplace,
        World.slotList_setTimer, World.slotList_setList_eq]
      split
      next =>
        have hmarker := hlinked.marker owner howner timer.iterSlot
        have hfree := hlinked.freeListExact owner howner timer.iterSlot
        exact ⟨hmarker, hfree.erase hcell (by simp [hmarker])⟩
      next => exact hsame
    · rwa [World.cancelTimer_of_not_inReach hat hplace]
  · rwa [World.cancelTimer_of_not_queued hqueued]

theorem cancelTimer
    (hlinked : Linked members world) {self : QueueId} {t : TimerId}
    (hreach : world.InReach self t) :
    Linked members (world.cancelTimer self (.timer t)) := by
  by_cases hqueued : world.Queued t
  · have hidle := World.cancelTimer_not_queued_of_inReach hreach
    rcases hqueued.exists_at with ⟨owner, place, cellPos, hat⟩
    have hcells := hlinked.cancelTimer_cell hat (hat.slot_lt hreach)
    have howner := (hlinked.at_bounds t owner place cellPos hat).1
    have hcell := (hlinked.cell_iff owner howner place cellPos t).mpr hat
    apply hlinked.relink (t := t)
    · simp
    · intro other hne
      exact World.cancelTimer_timers_of_ne hne
    · intro q slot pos hnow
      exact (hidle hnow.queued).elim
    · intro q hq slot pos
      constructor
      · intro hnew
        rw [hcells] at hnew
        split at hnew
        next => simp at hnew
        next hdiff =>
          have hold := (hlinked.cell_iff q hq slot pos t).mp hnew
          exact (hdiff (hat.unique hold)).elim
      · intro hnow
        exact (hidle hnow.queued).elim
    · intro q hq slot pos ptr hlive hne
      rw [hcells]
      split
      next hsame =>
        rw [hsame.1, hsame.2.1, hsame.2.2, hcell]
        simp [Ne.symm hlive, Ne.symm hne]
      next => rfl
    · intro q hq slot
      exact (hlinked.cancelTimer_list hq slot).1
    · intro q hq slot
      exact (hlinked.cancelTimer_list hq slot).2
  · rwa [World.cancelTimer_of_not_queued hqueued]

/-! ## Scheduling -/

theorem placeTimer_cell
    {self : QueueId} {place : ℕ}
    (hfree : (world.slotList self place).FreeListExact) (t : TimerId)
    (timerInterval nextHandleTime : ℕ) (q : QueueId) (slot pos : ℕ) :
    (world.placeTimer self t place timerInterval nextHandleTime).cell
        q slot pos =
      if q = self ∧ slot = place ∧
          pos = ((world.slotList self place).insert (.timer t)).1 then
        some (.timer t)
      else world.cell q slot pos := by
  unfold World.cell
  simp only [World.placeTimer, World.slotList_setTimer,
    World.slotList_setList_eq]
  by_cases hplace : q = self ∧ slot = place
  · rcases hplace with ⟨rfl, rfl⟩
    simp only [and_self, if_true, true_and]
    exact hfree.insert_getElem? (.timer t) pos
  · have hother :
        ¬ (q = self ∧ slot = place ∧
          pos = ((world.slotList self place).insert (.timer t)).1) :=
      fun hall => hplace ⟨hall.1, hall.2.1⟩
    rw [if_neg hplace, if_neg hother]

theorem placeTimer
    (hlinked : Linked members world) {self : QueueId}
    (hself : self ∈ members) {t : TimerId} (hidle : ¬ world.Queued t)
    {place : ℕ} (hplace : place < (world.clock self).slotSize)
    (timerInterval nextHandleTime : ℕ) :
    Linked members
      (world.placeTimer self t place timerInterval nextHandleTime) := by
  have hfree := hlinked.freeListExact self hself place
  have hmarker := hlinked.marker self hself place
  have hcells := placeTimer_cell hfree t timerInterval nextHandleTime
  have hplaced :=
    world.placeTimer_at self t place timerInterval nextHandleTime
  apply hlinked.relink (t := t)
  · simp [World.placeTimer]
  · intro other hne
    simp [World.placeTimer, Function.update, hne]
  · intro q slot pos hat
    rcases (hplaced q slot pos).mp hat with ⟨rfl, rfl, _⟩
    exact ⟨hself, hplace⟩
  · intro q hq slot pos
    rw [hcells, hplaced]
    split
    next hsame => simp [hsame]
    next hdiff =>
      constructor
      · intro hcell
        exact (hlinked.cell_ne_of_not_queued hidle hq slot pos hcell).elim
      · intro hsame
        exact (hdiff hsame).elim
  · intro q hq slot pos ptr hlive hne
    rw [hcells]
    split
    next hsame =>
      have hindex := hfree.insert_index_free (.timer t)
      rw [hmarker, ← hsame.2.2, ← hsame.1, ← hsame.2.1] at hindex
      constructor
      · intro hcell
        exact (hne (Option.some.inj hcell).symm).elim
      · intro hcell
        rcases hindex with hempty | hdeleted
        · exact absurd (hempty.symm.trans hcell) (by simp)
        · exact (hlive (Option.some.inj (hcell.symm.trans hdeleted))).elim
    next => rfl
  · intro q hq slot
    simp only [World.placeTimer, World.slotList_setTimer,
      World.slotList_setList_eq]
    split
    next => simp [hmarker]
    next => exact hlinked.marker q hq slot
  · intro q hq slot
    simp only [World.placeTimer, World.slotList_setTimer,
      World.slotList_setList_eq]
    split
    next => exact hfree.insert (by simp [hmarker])
    next => exact hlinked.freeListExact q hq slot

theorem toSlot_lt
    (hlinked : Linked members world) {q : QueueId} (hq : q ∈ members)
    (timerInterval : ℕ) (timeDelay : ℤ) :
    (world.clock q).toSlot timerInterval timeDelay <
      (world.clock q).slotSize :=
  WheelClock.toSlot_lt (hlinked.slotSize_pos q hq)
    (hlinked.slotSize_le q hq) timerInterval timeDelay

theorem scheduleTimer
    (hlinked : Linked members world) {self : QueueId}
    (hself : self ∈ members) {t : TimerId} (hreach : world.InReach self t)
    (timerInterval : ℕ) (timeDelay : ℤ) :
    Linked members
      (world.scheduleTimer self t timerInterval timeDelay) := by
  cases htimer : world.timers t with
  | none => simpa [World.scheduleTimer, htimer] using hlinked
  | some timer =>
      rw [World.scheduleTimer_eq_placeTimer htimer]
      apply (hlinked.cancelTimer hreach).placeTimer hself
      · exact World.cancelTimer_not_queued_of_inReach hreach
      · simpa using hlinked.toSlot_lt hself timerInterval timeDelay

/-! ## Records that stay in their cells -/

/-- A change of a timer's record that keeps its handle keeps the links. -/
theorem setTimer
    (hlinked : Linked members world) {t : TimerId} {timer record : Timer}
    (htimer : world.timers t = some timer)
    (hqueue : record.queue = timer.queue)
    (hslot : record.iterSlot = timer.iterSlot)
    (hpos : record.iterPos = timer.iterPos) :
    Linked members (world.setTimer t record) := by
  have hsame :
      ∀ q slot pos, (world.setTimer t record).At t q slot pos ↔
        world.At t q slot pos := by
    intro q slot pos
    have hrecord : (world.setTimer t record).timers t = some record := by
      simp
    rw [World.At.iff_record hrecord, World.At.iff_record htimer, hqueue,
      hslot, hpos]
  apply hlinked.relink (t := t)
  · simp
  · intro other hne
    simp [Function.update, hne]
  · intro q slot pos hat
    exact hlinked.at_bounds t q slot pos ((hsame q slot pos).mp hat)
  · intro q hq slot pos
    rw [hsame]
    exact hlinked.cell_iff q hq slot pos t
  · intro q _ slot pos ptr _ _
    rfl
  · exact hlinked.marker
  · exact hlinked.freeListExact

/-- A timer outside of the queues may change or disappear freely. -/
theorem updateIdle
    (hlinked : Linked members world) {t : TimerId}
    (hidle : ¬ world.Queued t) (record : Option Timer)
    (hrecord : ∀ timer, record = some timer → timer.queue = none) :
    Linked members
      { world with timers := Function.update world.timers t record } := by
  have hnowhere :
      ∀ q slot pos,
        ¬ World.At
          { world with timers := Function.update world.timers t record }
          t q slot pos := by
    rintro q slot pos ⟨timer, htimer, hqueue, _⟩
    simp only [Function.update_self] at htimer
    simp [hrecord timer htimer] at hqueue
  apply hlinked.relink (t := t)
  · intro q
    rfl
  · intro other hne
    simp [Function.update, hne]
  · intro q slot pos hat
    exact (hnowhere q slot pos hat).elim
  · intro q hq slot pos
    constructor
    · intro hcell
      exact (hlinked.cell_ne_of_not_queued hidle hq slot pos hcell).elim
    · intro hat
      exact (hnowhere q slot pos hat).elim
  · intro q _ slot pos ptr _ _
    rfl
  · exact hlinked.marker
  · exact hlinked.freeListExact

/-- Destroying a timer cancels it on its own queue, which is large enough. -/
theorem destroyTimer
    (hlinked : Linked members world) (t : TimerId) :
    Linked members (world.destroyTimer t) := by
  cases htimer : world.timers t with
  | none => simpa [World.destroyTimer, htimer] using hlinked
  | some timer =>
      unfold World.destroyTimer
      simp only [htimer]
      cases hqueue : timer.queue with
      | none =>
          apply hlinked.updateIdle _ none (by simp)
          rintro ⟨record, hrecord, hsome⟩
          rw [htimer, Option.some.injEq] at hrecord
          subst record
          exact hsome hqueue
      | some owner =>
          have hreach : world.InReach owner t := by
            intro record hrecord _
            rw [htimer, Option.mem_def, Option.some.injEq] at hrecord
            subst record
            exact (hlinked.at_bounds t owner _ _
              (.of_record htimer hqueue)).2
          exact (hlinked.cancelTimer hreach).updateIdle
            (World.cancelTimer_not_queued_of_inReach hreach) none (by simp)

/-- The lists of new queues are empty, and no timer claims to be in one. -/
theorem of_fresh
    (hpos : ∀ q ∈ members, 0 < (world.clock q).slotSize)
    (hle :
      ∀ q ∈ members, (world.clock q).slotSize ≤ 18446744073709551616)
    (hidle : ∀ t timer, world.timers t = some timer → timer.queue = none)
    (hlists :
      ∀ q ∈ members, ∀ slot, world.slotList q slot =
        UnorderedList.new.setDeleted .deleted) :
    Linked members world := by
  have hcells : ∀ q ∈ members, ∀ slot pos, world.cell q slot pos = none := by
    intro q hq slot pos
    simp [World.cell, hlists q hq, UnorderedList.setDeleted,
      UnorderedList.new]
  have hnowhere : ∀ t q slot pos, ¬ world.At t q slot pos := by
    rintro t q slot pos ⟨timer, htimer, hqueue, _⟩
    simp [hidle t timer htimer] at hqueue
  constructor
  · exact hpos
  · exact hle
  · intro t q slot pos hat
    exact (hnowhere t q slot pos hat).elim
  · intro q hq slot pos t
    simp [hcells q hq, hnowhere]
  · intro q hq slot pos
    simp [hcells q hq]
  · intro q hq slot
    simp [hlists q hq, UnorderedList.setDeleted]
  · intro q hq slot
    rw [hlists q hq]
    exact UnorderedList.setDeleted_new_freeListExact TimerPtr.deleted

end Linked

end GreenTurtle.Timers
