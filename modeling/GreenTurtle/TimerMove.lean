import GreenTurtle.TimerConsistency
import GreenTurtle.TimerSteps
import Mathlib.Tactic

/-!
# Moving a timer to another wheel

Several queues of different sizes share their timers.  Their histories are cut
into the smallest steps that change anything, so that a step of one queue may
fall between any two steps of the `Update` of another.  A timer that is in one
queue is moved by calling `ScheduleTimer` on another; this succeeds exactly
when the queue that is called has the slot in which the timer was.
-/

namespace GreenTurtle.Timers

open Execution
open FixedWidth

/-! ## Histories of several queues -/

inductive WheelStep where
  | perform (self : QueueId) (op : TimerOp)
  | startClock (self : QueueId) (currentTime : ℕ)
  | advance (self : QueueId)
  | handleTimeOut (t : TimerId)
  | dropNull (self : QueueId) (slot pos : ℕ)

namespace World

/-- The queues have just been constructed and there is no timer yet. -/
def fresh (queues : QueueId → TimerQueue) : World where
  queues := queues
  timers := fun _ => none

/-- The steps of which the methods of all queues are made.  `Update` consists
of the last four and of the operations of its callbacks; it puts a timer back
by `ScheduleTimer`. -/
def step (world : World) : WheelStep → Option World
  | .perform self op =>
      if op.allowed world then some (op.perform self world) else none
  | .startClock self currentTime =>
      some ((Exec.start world).startClock self currentTime).world
  | .advance self => some (world.setClock self (world.clock self).advance)
  | .handleTimeOut t => (world.timers t).map (world.advanceTimer t)
  | .dropNull self slot pos =>
      if world.cell self slot pos = some .null then
        some (world.setList self slot ((world.slotList self slot).erase pos))
      else none

end World

/-- A queue is asked to take out a timer only when it has the slot in which
the timer is. -/
def StepInReach (world : World) : WheelStep → Prop
  | .perform self (.schedule t _ _) => world.InReach self t
  | .perform self (.cancel (.timer t)) => world.InReach self t
  | _ => True

instance (world : World) (label : WheelStep) :
    Decidable (StepInReach world label) := by
  unfold StepInReach
  split <;> infer_instance

theorem Exec.startClock_world
    (exec : Exec) (q : QueueId) (currentTime : ℕ) :
    (exec.startClock q currentTime).world =
      if (exec.world.clock q).lastUpdateTime = 0 then
        exec.world.setClock q
          { exec.world.clock q with lastUpdateTime := currentTime }
      else exec.world := by
  unfold Exec.startClock
  dsimp only
  split <;> rfl

/-! ## `Update` is made of these steps -/

/-- Some history leads from one world to the other. -/
def World.Reaches (world final : World) : Prop :=
  ∃ labels, run World.step world labels = some final

namespace World.Reaches

variable {q : QueueId} {origin : World}

theorem refl (world : World) : world.Reaches world :=
  ⟨[], rfl⟩

theorem trans
    {first second third : World} (hfirst : first.Reaches second)
    (hsecond : second.Reaches third) : first.Reaches third := by
  rcases hfirst with ⟨labels, hrun⟩
  rcases hsecond with ⟨rest, hrest⟩
  exact ⟨labels ++ rest, (run_append World.step hrun).trans hrest⟩

theorem snoc
    {world next : World} (hreach : origin.Reaches world) (label : WheelStep)
    (hstep : world.step label = some next) : origin.Reaches next := by
  apply hreach.trans
  exact ⟨[label], by simp [run, hstep]⟩

/-- No single step of `Update` or of the program leaves the histories. -/
theorem stepInvariant (q : QueueId) (origin : World) :
    StepInvariant q (fun exec => origin.Reaches exec.world) := by
  refine ⟨⟨?_, ?_, ?_, ?_⟩, ?_, ?_⟩
  · intro exec op hreach
    unfold Exec.perform
    split
    next hallowed =>
      apply hreach.snoc (.perform q op)
      simp [World.step, hallowed, Exec.emit]
    next => exact hreach
  · intro exec t timer hreach htimer
    apply hreach.snoc (.handleTimeOut t)
    simp [World.step, htimer, Exec.emit]
  · intro exec ptr hreach
    apply Exec.requeue_cases
      (motive := fun state => origin.Reaches state.world) hreach
    intro t timer _ htimer
    apply hreach.snoc (.perform q (.schedule t timer.timerInterval _))
    simp only [World.step, TimerOp.allowed, htimer, Option.isSome_some,
      if_true]
    rfl
  · intro exec slot iter hreach hcell
    apply hreach.snoc (.dropNull q slot iter)
    simp [World.step, World.cell, hcell]
  · intro exec hreach
    exact hreach.snoc (.advance q) rfl
  · intro exec currentTime hreach
    apply hreach.snoc (.startClock q currentTime)
    simp [World.step, Exec.startClock_world, Exec.start]

/-- Whatever happens during a call of `Update`, callbacks included, is a
history of single steps. -/
theorem update
    (onTimeOut : Callback) (fuel currentTime : ℕ) {exec : Exec}
    (hreach : origin.Reaches exec.world) :
    origin.Reaches
      (outcome (exec.update onTimeOut q fuel currentTime)).world :=
  (stepInvariant q origin).update onTimeOut fuel currentTime hreach

end World.Reaches

/-! ## Every history in reach keeps the links -/

theorem TimerQueue.new_slotSize
    {slotSize interval : ℕ} {queue : TimerQueue}
    (hnew : TimerQueue.new slotSize interval = some queue) :
    queue.slotSize = slotSize := by
  rcases Option.map_eq_some_iff.mp hnew with ⟨exponent, _, rfl⟩
  rfl

theorem TimerQueue.new_queues
    {slotSize interval : ℕ} {queue : TimerQueue}
    (hnew : TimerQueue.new slotSize interval = some queue) (slot : ℕ) :
    queue.queues slot = UnorderedList.new.setDeleted .deleted := by
  rcases Option.map_eq_some_iff.mp hnew with ⟨exponent, _, rfl⟩
  rfl

theorem Linked.fresh
    {slotExponent interval : QueueId → ℕ} {queues : QueueId → TimerQueue}
    (hslots : ∀ q, slotExponent q < 64)
    (hnew :
      ∀ q, TimerQueue.new (2 ^ slotExponent q) (interval q) =
        some (queues q)) :
    Linked Set.univ (World.fresh queues) := by
  have hsize :
      ∀ q, ((World.fresh queues).clock q).slotSize = 2 ^ slotExponent q :=
    fun q => TimerQueue.new_slotSize (hnew q)
  apply Linked.of_fresh
  · intro q _
    rw [hsize]
    positivity
  · intro q _
    rw [hsize]
    exact (two_pow_lt_wrap (hslots q)).le
  · intro t timer htimer
    simp [World.fresh] at htimer
  · intro q _ slot
    exact TimerQueue.new_queues (hnew q) slot

theorem Linked.perform
    {world : World} (hlinked : Linked Set.univ world) {self : QueueId}
    {op : TimerOp} (hallowed : op.allowed world)
    (hreach : StepInReach world (.perform self op)) :
    Linked Set.univ (op.perform self world) := by
  cases op with
  | create t =>
      have hnone : world.timers t = none := by
        simpa [TimerOp.allowed] using hallowed
      apply hlinked.updateIdle _ (some Timer.new)
      · rintro timer ⟨⟩
        rfl
      · rintro ⟨timer, htimer, _⟩
        simp [hnone] at htimer
  | schedule t timerInterval timeDelay =>
      exact hlinked.scheduleTimer (Set.mem_univ self) hreach timerInterval
        timeDelay
  | cancel ptr =>
      cases ptr with
      | null => exact hlinked
      | deleted => exact hlinked
      | timer t => exact hlinked.cancelTimer hreach
  | destroy t => exact hlinked.destroyTimer t

theorem Linked.step
    {world next : World} (hlinked : Linked Set.univ world)
    {label : WheelStep} (hreach : StepInReach world label)
    (hstep : world.step label = some next) :
    Linked Set.univ next := by
  cases label with
  | perform self op =>
      simp only [World.step] at hstep
      split at hstep
      next hallowed =>
        simp only [Option.some.injEq] at hstep
        subst next
        exact hlinked.perform hallowed hreach
      next => contradiction
  | startClock self currentTime =>
      simp only [World.step, Option.some.injEq] at hstep
      subst next
      rw [Exec.startClock_world]
      split
      next => exact hlinked.setClock rfl
      next => exact hlinked
  | advance self =>
      simp only [World.step, Option.some.injEq] at hstep
      subst next
      exact hlinked.setClock rfl
  | handleTimeOut t =>
      rcases Option.map_eq_some_iff.mp hstep with ⟨timer, htimer, rfl⟩
      exact hlinked.setTimer htimer rfl rfl rfl
  | dropNull self slot pos =>
      have hcell := hlinked.cell_ne_null self (Set.mem_univ self) slot pos
      simp [World.step, hcell] at hstep

theorem Linked.run
    {slotExponent interval : QueueId → ℕ} {queues : QueueId → TimerQueue}
    (hslots : ∀ q, slotExponent q < 64)
    (hnew :
      ∀ q, TimerQueue.new (2 ^ slotExponent q) (interval q) =
        some (queues q))
    {labels : List WheelStep} {world : World}
    (hrun : run World.step (World.fresh queues) labels = some world)
    (hreach :
      EachStep World.step StepInReach (World.fresh queues) labels) :
    Linked Set.univ world := by
  apply run_preserves World.step (Linked Set.univ) StepInReach
  · intro current label next hlinked hlabel hstep
    exact hlinked.step hlabel hstep
  · exact Linked.fresh hslots hnew
  · exact hrun
  · exact hreach

/-! ## One move -/

/-- Exactly one cell of the two queues holds the timer, and it is in the
first. -/
def World.OnlyIn (world : World) (q1 q2 : QueueId) (t : TimerId) : Prop :=
  ∃ slot pos, ∀ q slot' pos', q = q1 ∨ q = q2 →
    (world.cell q slot' pos' = some (.timer t) ↔
      q = q1 ∧ slot' = slot ∧ pos' = pos)

/-- No cell of the two queues holds the timer. -/
def World.InNeither (world : World) (q1 q2 : QueueId) (t : TimerId) : Prop :=
  ∀ q slot pos, q = q1 ∨ q = q2 → world.cell q slot pos ≠ some (.timer t)

/-- What a move of a timer from `q2` to `q1` should do: the timer is afterwards
in `q1` alone, and either queue can take it out, before the move and after. -/
structure MovesCleanly
    (world : World) (q1 q2 : QueueId) (t : TimerId)
    (timerInterval : ℕ) (timeDelay : ℤ) : Prop where
  scheduled :
    (world.scheduleTimer q1 t timerInterval timeDelay).OnlyIn q1 q2 t
  cancelled_first : (world.cancelTimer q1 (.timer t)).InNeither q1 q2 t
  cancelled_second : (world.cancelTimer q2 (.timer t)).InNeither q1 q2 t
  scheduled_cancelled_first :
    ((world.scheduleTimer q1 t timerInterval timeDelay).cancelTimer q1
      (.timer t)).InNeither q1 q2 t
  scheduled_cancelled_second :
    ((world.scheduleTimer q1 t timerInterval timeDelay).cancelTimer q2
      (.timer t)).InNeither q1 q2 t

namespace Linked

variable {world : World}

theorem inNeither_of_cancelTimer
    (hlinked : Linked Set.univ world) {self : QueueId} {t : TimerId}
    (hreach : world.InReach self t) (q1 q2 : QueueId) :
    (world.cancelTimer self (.timer t)).InNeither q1 q2 t := by
  intro q slot pos _
  exact (hlinked.cancelTimer hreach).cell_ne_of_not_queued
    (World.cancelTimer_not_queued_of_inReach hreach) (Set.mem_univ q) slot pos

/-- A queue that has not the slot leaves the cell as it is. -/
theorem slot_lt_of_inNeither
    (hlinked : Linked Set.univ world) {self q1 q2 : QueueId} {t : TimerId}
    {owner : QueueId} {slot pos : ℕ} (hat : world.At t owner slot pos)
    (howner : owner = q1 ∨ owner = q2)
    (hneither : (world.cancelTimer self (.timer t)).InNeither q1 q2 t) :
    slot < (world.clock self).slotSize := by
  by_contra hslot
  rw [World.cancelTimer_of_not_inReach hat hslot] at hneither
  exact hneither owner slot pos howner
    ((hlinked.cell_iff owner (Set.mem_univ owner) slot pos t).mpr hat)

theorem scheduleTimer_at
    (self : QueueId) {t : TimerId} (hqueued : world.Queued t)
    (timerInterval : ℕ) (timeDelay : ℤ) :
    ∃ pos, (world.scheduleTimer self t timerInterval timeDelay).At t self
      ((world.clock self).toSlot timerInterval timeDelay) pos := by
  rcases hqueued with ⟨timer, htimer, _⟩
  rw [World.scheduleTimer_eq_placeTimer htimer]
  exact ⟨_, (World.placeTimer_at ..).mpr ⟨rfl, rfl, rfl⟩⟩

theorem onlyIn_of_at
    (hlinked : Linked Set.univ world) {t : TimerId} {q1 : QueueId}
    {slot pos : ℕ} (hat : world.At t q1 slot pos) (q2 : QueueId) :
    world.OnlyIn q1 q2 t := by
  refine ⟨slot, pos, ?_⟩
  intro q slot' pos' _
  rw [hlinked.cell_iff q (Set.mem_univ q)]
  constructor
  · intro hnow
    exact hat.unique hnow
  · rintro ⟨rfl, rfl, rfl⟩
    exact hat

theorem inReach_of_at
    {self owner : QueueId} {t : TimerId} {slot pos : ℕ}
    (hat : world.At t owner slot pos)
    (hslot : slot < (world.clock self).slotSize) :
    world.InReach self t := by
  rcases hat with ⟨timer, htimer, _, rfl, rfl⟩
  intro record hrecord _
  rw [htimer, Option.mem_def, Option.some.injEq] at hrecord
  rwa [← hrecord]

theorem movesCleanly
    (hlinked : Linked Set.univ world) {q1 q2 : QueueId} {t : TimerId}
    {slot pos : ℕ} (hat : world.At t q2 slot pos)
    (hslot : slot < (world.clock q1).slotSize)
    {timerInterval : ℕ} {timeDelay : ℤ}
    (htarget :
      (world.clock q1).toSlot timerInterval timeDelay <
        (world.clock q2).slotSize) :
    MovesCleanly world q1 q2 t timerInterval timeDelay := by
  have hfirst : world.InReach q1 t := inReach_of_at hat hslot
  have hsecond : world.InReach q2 t :=
    inReach_of_at hat (hlinked.at_bounds t q2 slot pos hat).2
  have hmoved :=
    hlinked.scheduleTimer (Set.mem_univ q1) hfirst timerInterval timeDelay
  rcases scheduleTimer_at q1 hat.queued timerInterval timeDelay
    with ⟨place, hplace⟩
  have hown := hlinked.toSlot_lt (Set.mem_univ q1) timerInterval timeDelay
  constructor
  · exact hmoved.onlyIn_of_at hplace q2
  · exact hlinked.inNeither_of_cancelTimer hfirst q1 q2
  · exact hlinked.inNeither_of_cancelTimer hsecond q1 q2
  · exact hmoved.inNeither_of_cancelTimer
      (inReach_of_at hplace (by simpa using hown)) q1 q2
  · exact hmoved.inNeither_of_cancelTimer
      (inReach_of_at hplace (by simpa using htarget)) q1 q2

end Linked

/-- A timer moves cleanly from one queue to another exactly when the first has
the slot in which the timer is, and the second the slot into which it goes. -/
theorem movesCleanly_iff
    {slotExponent interval : QueueId → ℕ} {queues : QueueId → TimerQueue}
    (hslots : ∀ q, slotExponent q < 64)
    (hnew :
      ∀ q, TimerQueue.new (2 ^ slotExponent q) (interval q) =
        some (queues q))
    {labels : List WheelStep} {world : World}
    (hrun : run World.step (World.fresh queues) labels = some world)
    (hreach :
      EachStep World.step StepInReach (World.fresh queues) labels)
    {q1 q2 : QueueId} {t : TimerId} {timer : Timer}
    (htimer : world.timers t = some timer)
    (hqueue : timer.queue = some q2)
    (timerInterval : ℕ) (timeDelay : ℤ) :
    MovesCleanly world q1 q2 t timerInterval timeDelay ↔
      timer.iterSlot < (world.clock q1).slotSize ∧
        (world.clock q1).toSlot timerInterval timeDelay <
          (world.clock q2).slotSize := by
  have hlinked := Linked.run hslots hnew hrun hreach
  have hat := World.At.of_record htimer hqueue
  constructor
  · intro hclean
    have hslot :=
      hlinked.slot_lt_of_inNeither hat (.inr rfl) hclean.cancelled_first
    have hmoved :=
      hlinked.scheduleTimer (Set.mem_univ q1)
        (Linked.inReach_of_at hat hslot) timerInterval timeDelay
    rcases Linked.scheduleTimer_at q1 hat.queued timerInterval timeDelay
      with ⟨place, hplace⟩
    have htarget :=
      hmoved.slot_lt_of_inNeither hplace (.inl rfl)
        hclean.scheduled_cancelled_second
    exact ⟨hslot, by simpa using htarget⟩
  · rintro ⟨hslot, htarget⟩
    exact hlinked.movesCleanly hat hslot htarget

/-- Queue 0 has two slots and the others have four. -/
def unequalExponents (q : QueueId) : ℕ :=
  if q = 0 then 1 else 2

def unequalQueues (q : QueueId) : TimerQueue where
  queues := fun _ => UnorderedList.new.setDeleted .deleted
  slotSize := 2 ^ unequalExponents q
  lastUpdateTime := 0
  interval := 1
  currentSlot := 0
  intervalExponent := 0
  circleTime := toUInt64 ((2 ^ unequalExponents q : ℕ) * (1 : ℕ))

theorem unequalExponents_lt (q : QueueId) : unequalExponents q < 64 := by
  unfold unequalExponents
  split <;> decide

theorem new_unequalQueues (q : QueueId) :
    TimerQueue.new (2 ^ unequalExponents q) 1 = some (unequalQueues q) :=
  rfl

theorem movesCleanly_iff_low_slot :
    ∃ world timer,
      run World.step (World.fresh unequalQueues)
          [.perform 1 (.create 7), .perform 1 (.schedule 7 1 0)] =
        some world ∧
      world.timers 7 = some timer ∧ timer.queue = some 1 ∧
      MovesCleanly world 0 1 7 1 0 := by
  have hreach :
      EachStep World.step StepInReach (World.fresh unequalQueues)
        [.perform 1 (.create 7), .perform 1 (.schedule 7 1 0)] := by
    decide +kernel
  refine ⟨_, _, rfl, rfl, rfl, ?_⟩
  rw [movesCleanly_iff unequalExponents_lt new_unequalQueues rfl hreach rfl
    rfl]
  decide +kernel

/-- The timer is in the last of four slots.  The queue with two slots puts it
into a cell of its own and does not clear the old one. -/
theorem scheduleTimer_leaves_old_cell :
    ∃ world timer,
      run World.step (World.fresh unequalQueues)
          [.perform 1 (.create 7), .perform 1 (.schedule 7 3 0)] =
        some world ∧
      world.timers 7 = some timer ∧ timer.queue = some 1 ∧
      ¬ (world.scheduleTimer 0 7 1 0).OnlyIn 0 1 7 ∧
      ¬ (world.cancelTimer 0 (.timer 7)).InNeither 0 1 7 := by
  refine ⟨_, _, rfl, rfl, rfl, ?_, ?_⟩
  · rintro ⟨slot, pos, honly⟩
    have hold := (honly 1 3 0 (.inr rfl)).mp (by decide +kernel)
    simp at hold
  · intro hneither
    exact hneither 1 3 0 (.inr rfl) (by decide +kernel)

end GreenTurtle.Timers
