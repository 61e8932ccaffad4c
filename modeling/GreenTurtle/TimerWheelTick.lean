import GreenTurtle.TimerReentrancy
import GreenTurtle.TimerReference
import Mathlib.Tactic

/-!
# One tick of the timer wheel

A queued timer sits in the slot that is `(next - lastUpdateTime) / interval`
places ahead of the current one, taken around the wheel.  A tick walks the
current slot.  Timers found there are either due, and then fire, or at least
one revolution away, and then go back to the cell they came from.  All others
come one slot nearer.  Callbacks do nothing here.
-/

namespace GreenTurtle.Timers

open FixedWidth
open Execution

variable {q : QueueId} {a b : ℕ}

/-! ## The arithmetic of the wheel -/

/-- A wheel of `2 ^ a` slots and intervals of `2 ^ b`. -/
structure WheelShape (a b : ℕ) (clock : WheelClock) : Prop where
  slotSize : clock.slotSize = 2 ^ a
  interval : clock.interval = 2 ^ b
  intervalExponent : clock.intervalExponent = b
  circleTime : clock.circleTime = 2 ^ a * 2 ^ b
  currentSlot_lt : clock.currentSlot < 2 ^ a

/-- The slot of a deadline that is `gap` ahead of the clock. -/
def WheelClock.slotAhead (a b : ℕ) (clock : WheelClock) (gap : ℕ) : ℕ :=
  (clock.currentSlot + gap / 2 ^ b) % 2 ^ a

theorem WheelClock.slotMask_two_pow
    {clock : WheelClock} (hsize : clock.slotSize = 2 ^ a) (ha : a < 64) :
    clock.slotMask = 2 ^ a - 1 := by
  have hpos : 0 < 2 ^ a := by positivity
  have hlt := two_pow_lt_wrap ha
  unfold WheelClock.slotMask
  rw [hsize, toUInt64_of_bounds (by omega) (by omega)]
  omega

theorem WheelShape.slotMask
    {clock : WheelClock} (hshape : WheelShape a b clock) (ha : a < 64) :
    clock.slotMask = 2 ^ a - 1 :=
  WheelClock.slotMask_two_pow hshape.slotSize ha

/-- The slot computation, also when the delay has passed through a signed
64-bit variable. -/
theorem WheelShape.toSlot
    {clock : WheelClock} (hshape : WheelShape a b clock)
    (ha : a < 64) {timerInterval gap : ℕ} {timeDelay : ℤ}
    (hgap : (timeDelay + timerInterval - gap) % 18446744073709551616 = 0)
    (hfits : gap + 2 ^ a * 2 ^ b < 18446744073709551616) :
    clock.toSlot timerInterval timeDelay = clock.slotAhead a b gap := by
  have hsum :
      toUInt64 (timeDelay + clock.circleTime + timerInterval) =
        gap + 2 ^ a * 2 ^ b := by
    rw [hshape.circleTime]
    generalize 2 ^ a * 2 ^ b = circle at hfits
    unfold toUInt64
    omega
  have hdiv : (gap + 2 ^ a * 2 ^ b) / 2 ^ b = gap / 2 ^ b + 2 ^ a :=
    Nat.add_mul_div_right _ _ (by positivity)
  have hwrap :
      ∀ x : ℕ, toUInt64 (clock.currentSlot + (x : ℤ)) =
        (clock.currentSlot + x) % 18446744073709551616 := by
    intro x
    unfold toUInt64
    omega
  unfold WheelClock.toSlot WheelClock.slotAhead
  rw [hshape.slotMask ha, Nat.and_two_pow_sub_one_eq_mod, hsum,
    hshape.intervalExponent, Nat.shiftRight_eq_div_pow, hdiv, hwrap,
    mod_wrap_mod_two_pow _ ha.le, ← Nat.add_assoc, Nat.add_mod_right]

/-- The slot that a timer with an unchanged deadline is put back into. -/
theorem WheelShape.toSlot_requeue
    {clock : WheelClock} (hshape : WheelShape a b clock)
    (ha : a < 64) {timerInterval next : ℕ}
    (hle : clock.lastUpdateTime ≤ next)
    (hfits :
      next - clock.lastUpdateTime + 2 ^ a * 2 ^ b < 18446744073709551616) :
    clock.toSlot timerInterval
        (toInt64 (next - (timerInterval + clock.lastUpdateTime))) =
      clock.slotAhead a b (next - clock.lastUpdateTime) := by
  apply hshape.toSlot ha _ hfits
  have hmod :=
    toInt64_emod (next - (timerInterval + clock.lastUpdateTime) : ℤ)
  omega

theorem WheelShape.advance
    {clock : WheelClock} (hshape : WheelShape a b clock) (ha : a < 64)
    (hfits : clock.lastUpdateTime + 2 ^ b < 18446744073709551616) :
    WheelShape a b clock.advance ∧
      clock.advance.lastUpdateTime = clock.lastUpdateTime + 2 ^ b ∧
      clock.advance.currentSlot = (clock.currentSlot + 1) % 2 ^ a := by
  have hslot :
      clock.advance.currentSlot = (clock.currentSlot + 1) % 2 ^ a := by
    have hwrap :
        toUInt64 (clock.currentSlot + 1) =
          (clock.currentSlot + 1) % 18446744073709551616 := by
      unfold toUInt64
      omega
    unfold WheelClock.advance
    dsimp only
    rw [hwrap, hshape.slotMask ha, Nat.and_two_pow_sub_one_eq_mod,
      mod_wrap_mod_two_pow _ ha.le]
  have htime :
      clock.advance.lastUpdateTime = clock.lastUpdateTime + 2 ^ b := by
    unfold WheelClock.advance
    dsimp only
    rw [hshape.interval]
    generalize 2 ^ b = interval at hfits
    unfold toUInt64
    omega
  refine ⟨?_, htime, hslot⟩
  constructor
  · exact hshape.slotSize
  · exact hshape.interval
  · exact hshape.intervalExponent
  · exact hshape.circleTime
  · rw [hslot]
    exact Nat.mod_lt _ (by positivity)

/-- A deadline that is not in the current slot is beyond the tick, and one
slot nearer after it. -/
theorem slotAhead_of_ne
    {clock after : WheelClock} {gap : ℕ}
    (hnext : after.currentSlot = (clock.currentSlot + 1) % 2 ^ a)
    (hlt : clock.currentSlot < 2 ^ a)
    (hne : clock.slotAhead a b gap ≠ clock.currentSlot) :
    2 ^ b ≤ gap ∧
      clock.slotAhead a b gap = after.slotAhead a b (gap - 2 ^ b) := by
  have hpos : 0 < 2 ^ b := by positivity
  have hle : 2 ^ b ≤ gap := by
    by_contra hsmall
    apply hne
    unfold WheelClock.slotAhead
    rw [Nat.div_eq_of_lt (by omega), Nat.add_zero, Nat.mod_eq_of_lt hlt]
  refine ⟨hle, ?_⟩
  have hdiv : (gap - 2 ^ b) / 2 ^ b = gap / 2 ^ b - 1 := by
    simpa using Nat.sub_mul_div gap (2 ^ b) 1
  have hone : 1 ≤ gap / 2 ^ b :=
    (Nat.one_le_div_iff hpos).mpr hle
  unfold WheelClock.slotAhead
  rw [hnext, hdiv, Nat.mod_add_mod]
  congr 1
  omega

/-- Whole turns lead back to the same slot, and nothing else does. -/
theorem add_mod_eq_left_iff
    {slot steps size : ℕ} (hlt : slot < size) :
    (slot + steps) % size = slot ↔ size ∣ steps := by
  have hslot : (slot + steps) % size = slot ↔
      slot + steps ≡ slot + 0 [MOD size] := by
    unfold Nat.ModEq
    rw [Nat.add_zero, Nat.mod_eq_of_lt hlt]
  rw [hslot, ← Nat.modEq_zero_iff_dvd]
  exact ⟨Nat.ModEq.add_left_cancel' _, Nat.ModEq.add_left _⟩

/-- A deadline in the current slot falls into this tick or lies at least two
intervals ahead. -/
theorem gap_of_slotAhead_eq
    {clock : WheelClock} {gap : ℕ} (ha : 1 ≤ a)
    (hlt : clock.currentSlot < 2 ^ a)
    (heq : clock.slotAhead a b gap = clock.currentSlot) :
    gap < 2 ^ b ∨ 2 * 2 ^ b ≤ gap := by
  have hpos : 0 < 2 ^ b := by positivity
  have htwo : 2 ≤ 2 ^ a := by
    calc
      2 = 2 ^ 1 := rfl
      _ ≤ 2 ^ a := Nat.pow_le_pow_right (by norm_num) ha
  have hdvd : 2 ^ a ∣ gap / 2 ^ b := (add_mod_eq_left_iff hlt).mp heq
  by_cases hsmall : gap / 2 ^ b = 0
  · left
    exact (Nat.div_eq_zero_iff.mp hsmall).resolve_left hpos.ne'
  · right
    have hge : 2 ≤ gap / 2 ^ b :=
      htwo.trans (Nat.le_of_dvd (Nat.pos_of_ne_zero hsmall) hdvd)
    exact (Nat.le_div_iff_mul_le hpos).mp hge

/-! ## What an execution delivers -/

def TimerEvent.tickTime : TimerEvent → Option ℕ
  | .ticked lastUpdateTime => some lastUpdateTime
  | _ => none

def TimerEvent.delivery : TimerEvent → Option Delivery
  | .fired lastUpdateTime t time =>
      some { tick := lastUpdateTime, timer := t, time := time }
  | _ => none

def Exec.ticks (exec : Exec) : List ℕ :=
  exec.events.filterMap TimerEvent.tickTime

def Exec.deliveries (exec : Exec) : List Delivery :=
  exec.events.filterMap TimerEvent.delivery

theorem Exec.ticks_emit
    (exec : Exec) (event : TimerEvent) (world : World) :
    (exec.emit event world).ticks =
      exec.ticks ++ event.tickTime.toList := by
  cases hevent : event.tickTime <;>
    simp [Exec.ticks, Exec.events, Exec.emit, hevent]

theorem Exec.deliveries_emit
    (exec : Exec) (event : TimerEvent) (world : World) :
    (exec.emit event world).deliveries =
      exec.deliveries ++ event.delivery.toList := by
  cases hevent : event.delivery <;>
    simp [Exec.deliveries, Exec.events, Exec.emit, hevent]

@[simp] theorem Exec.world_emit
    (exec : Exec) (event : TimerEvent) (world : World) :
    (exec.emit event world).world = world := rfl

/-- The callbacks of a program that leaves its queue alone. -/
def quiet : Callback := fun _ _ _ => []

def Timer.deadline (t : TimerId) (timer : Timer) : Deadline where
  timer := t
  interval := timer.timerInterval
  next := timer.nextHandleTime

/-! ## Firing a timer until it is no longer due -/

theorem World.setTimer_self
    {world : World} {t : TimerId} {timer : Timer}
    (htimer : world.timers t = some timer) :
    world.setTimer t timer = world := by
  unfold World.setTimer
  rw [← htimer, Function.update_eq_self]

/-- The execution after `count` calls of one timer. -/
structure FiredTimes
    (q : QueueId) (t : TimerId) (timer : Timer) (count : ℕ)
    (exec next : Exec) : Prop where
  world :
    next.world =
      exec.world.setTimer t
        { timer with
          nextHandleTime :=
            timer.nextHandleTime + count * timer.timerInterval }
  ticks : next.ticks = exec.ticks
  deliveries :
    next.deliveries =
      exec.deliveries ++
        (List.range count).map fun i =>
          { tick := (exec.world.clock q).lastUpdateTime
            timer := t
            time := timer.nextHandleTime + i * timer.timerInterval }

theorem FiredTimes.zero
    {exec : Exec} {t : TimerId} {timer : Timer}
    (htimer : exec.world.timers t = some timer) :
    FiredTimes q t timer 0 exec exec := by
  constructor
  · simp [World.setTimer_self htimer]
  · rfl
  · simp

theorem handleTimeOut_quiet
    (exec : Exec) (t : TimerId) {timer : Timer}
    (hfits :
      timer.nextHandleTime + timer.timerInterval < 18446744073709551616) :
    exec.handleTimeOut quiet q t timer =
      exec.emit
        (.fired (exec.world.clock q).lastUpdateTime t timer.nextHandleTime)
        (exec.world.setTimer t
          { timer with
            nextHandleTime :=
              timer.nextHandleTime + timer.timerInterval }) := by
  simp [Exec.handleTimeOut, quiet, World.advanceTimer,
    toUInt64_natCast_add hfits]

/-- One call, and then `count` more from the record it leaves behind. -/
theorem FiredTimes.succ
    {exec next : Exec} {t : TimerId} {timer : Timer} {count : ℕ}
    (hfits :
      timer.nextHandleTime + timer.timerInterval < 18446744073709551616)
    (hrest :
      FiredTimes q t
        { timer with
          nextHandleTime := timer.nextHandleTime + timer.timerInterval }
        count (exec.handleTimeOut quiet q t timer) next) :
    FiredTimes q t timer (count + 1) exec next := by
  have hcall := handleTimeOut_quiet (q := q) exec t hfits
  rw [hcall] at hrest
  constructor
  · rw [hrest.world]
    simp only [Exec.world_emit, World.setTimer, Function.update_idem]
    congr 4
    ring
  · rw [hrest.ticks, Exec.ticks_emit]
    simp [TimerEvent.tickTime]
  · rw [hrest.deliveries, Exec.deliveries_emit, List.range_succ_eq_map,
      List.map_cons, List.map_map, List.append_assoc]
    simp only [TimerEvent.delivery, Option.toList_some,
      List.singleton_append, Exec.world_emit, World.clock_setTimer,
      Nat.zero_mul, Nat.add_zero]
    congr 2
    apply List.map_congr_left
    intro i _
    simp only [Function.comp_apply, Nat.succ_eq_add_one,
      Delivery.mk.injEq, true_and]
    ring

theorem fireWhileDue_quiet
    {slot iter count : ℕ} {t : TimerId} {exec : Exec} {timer : Timer}
    (htimer : exec.world.timers t = some timer)
    (hget : (exec.world.slotList q slot).get iter = .timer t)
    (hdue : ∀ i < count,
      timer.nextHandleTime + i * timer.timerInterval ≤
        (exec.world.clock q).lastUpdateTime)
    (hend : (exec.world.clock q).lastUpdateTime <
      timer.nextHandleTime + count * timer.timerInterval)
    (hfits : timer.nextHandleTime + count * timer.timerInterval <
      18446744073709551616) :
    ∃ next, FiredTimes q t timer count exec next ∧
      ∀ fuel, count + 1 ≤ fuel →
        Exec.fireWhileDue quiet q slot iter fuel (.timer t) exec =
          .ok (.timer t, next) := by
  induction count generalizing exec timer with
  | zero =>
      refine ⟨exec, FiredTimes.zero htimer, ?_⟩
      intro fuel hfuel
      rw [show fuel = (fuel - 1) + 1 by omega]
      have hnot :
          ¬ timer.nextHandleTime ≤
            (exec.world.clock q).lastUpdateTime := by
        omega
      simp only [Exec.fireWhileDue, htimer, hnot, if_false]
  | succ count ih =>
      have hfirst :
          timer.nextHandleTime ≤ (exec.world.clock q).lastUpdateTime := by
        simpa using hdue 0 (by omega)
      have hmul :
          timer.nextHandleTime + (count + 1) * timer.timerInterval =
            timer.nextHandleTime + timer.timerInterval +
              count * timer.timerInterval := by
        ring
      have hone :
          timer.nextHandleTime + timer.timerInterval <
            18446744073709551616 := by
        omega
      have hcall := handleTimeOut_quiet (q := q) exec t hone
      have hworld := congrArg Exec.world hcall
      rw [Exec.world_emit] at hworld
      have hget' :
          ((exec.handleTimeOut quiet q t timer).world.slotList q slot).get
            iter = .timer t := by
        rw [hworld]
        exact hget
      have hadvanced :
          (exec.handleTimeOut quiet q t timer).world.timers t =
            some
              { timer with
                nextHandleTime :=
                  timer.nextHandleTime + timer.timerInterval } := by
        simp [hworld]
      rcases ih hadvanced hget'
          (by
            intro i hi
            have hnext := hdue (i + 1) (by omega)
            rw [hworld, World.clock_setTimer]
            dsimp only
            rw [Nat.add_one_mul] at hnext
            omega)
          (by
            rw [hworld, World.clock_setTimer]
            dsimp only
            omega)
          (by
            dsimp only
            omega) with
        ⟨next, hnext, hresult⟩
      refine ⟨next, hnext.succ hone, ?_⟩
      intro fuel hfuel
      rw [show fuel = (fuel - 1) + 1 by omega]
      simp only [Exec.fireWhileDue, htimer, hfirst, if_true, hget']
      exact hresult (fuel - 1) (by omega)

/-! ## Going back to the wheel -/

/-- The slot and the deadline of a queued timer fit the clock, and the sums
computed from them do not overflow. -/
structure Placed (a b : ℕ) (clock : WheelClock) (timer : Timer) : Prop where
  interval_pos : 1 ≤ timer.timerInterval
  le_next : clock.lastUpdateTime ≤ timer.nextHandleTime
  next_lt : timer.nextHandleTime < 18446744073709551616
  gap_fits :
    timer.nextHandleTime - clock.lastUpdateTime + 2 ^ a * 2 ^ b <
      18446744073709551616
  slot :
    timer.iterSlot =
      clock.slotAhead a b (timer.nextHandleTime - clock.lastUpdateTime)

/-- What a visit does to the one timer it concerns. -/
structure Rescheduled
    (a b : ℕ) (q : QueueId) (t : TimerId) (timer : Timer) (next : ℕ)
    (world result : World) : Prop where
  consistent : Consistent q result
  clock : result.clock q = world.clock q
  length :
    (result.slotList q timer.iterSlot).list.length =
      (world.slotList q timer.iterSlot).list.length
  record :
    ∃ record, result.timers = Function.update world.timers t (some record) ∧
      record.queue = some q ∧
      record.deadline t =
        { timer := t, interval := timer.timerInterval, next := next } ∧
      Placed a b (world.clock q) record ∧
      (record.iterSlot = timer.iterSlot → record.iterPos = timer.iterPos)

theorem Rescheduled.requeue
    {world : World} (hcons : Consistent q world)
    (hshape : WheelShape a b (world.clock q)) (ha : a < 64)
    {t : TimerId} {timer : Timer}
    (htimer : world.timers t = some timer)
    (hqueue : timer.queue = some q)
    (hinterval : 1 ≤ timer.timerInterval)
    (hle : (world.clock q).lastUpdateTime ≤ timer.nextHandleTime)
    (hlt : timer.nextHandleTime < 18446744073709551616)
    (hfits :
      timer.nextHandleTime - (world.clock q).lastUpdateTime +
        2 ^ a * 2 ^ b < 18446744073709551616) :
    Rescheduled a b q t timer timer.nextHandleTime world
      (world.scheduleTimer q t timer.timerInterval
        (toInt64 (timer.nextHandleTime -
          (timer.timerInterval + (world.clock q).lastUpdateTime)))) := by
  constructor
  · exact hcons.scheduleTimer t _ _
  · exact World.clock_scheduleTimer ..
  · exact hcons.scheduleTimer_length htimer hqueue _ _
  · refine ⟨_, Consistent.requeue_timers htimer hlt rfl, rfl, rfl, ?_, ?_⟩
    · constructor
      · exact hinterval
      · exact hle
      · exact hlt
      · exact hfits
      · exact hshape.toSlot_requeue ha hle hfits
    · intro hsame
      dsimp only at hsame ⊢
      rw [hsame]
      exact hcons.scheduledPos_same_slot htimer hqueue

/-- The deadline before the timer was advanced does not matter for where it
ends up. -/
theorem Rescheduled.of_setTimer
    {world result : World} {t : TimerId} {timer : Timer} {next : ℕ}
    (hresult :
      Rescheduled a b q t { timer with nextHandleTime := next } next
        (world.setTimer t { timer with nextHandleTime := next }) result) :
    Rescheduled a b q t timer next world result := by
  rcases hresult.record with ⟨record, htimers, hrecord⟩
  constructor
  · exact hresult.consistent
  · exact hresult.clock
  · exact hresult.length
  · refine ⟨record, ?_, hrecord⟩
    rw [htimers, World.timers_setTimer, Function.update_idem]

/-! ## Visiting one cell -/

/-- The timer can be handled in a tick that ends at `now`: it is due or out of
reach, and nothing overflows on the way. -/
structure Handled
    (a b : ℕ) (clock : WheelClock) (t : TimerId) (timer : Timer) :
    Prop where
  interval_pos : 1 ≤ timer.timerInterval
  next_ne : timer.nextHandleTime ≠ clock.lastUpdateTime
  next_lt :
    ((timer.deadline t).advance clock.lastUpdateTime).next <
      18446744073709551616
  gap_fits :
    ((timer.deadline t).advance clock.lastUpdateTime).next -
        clock.lastUpdateTime + 2 ^ a * 2 ^ b <
      18446744073709551616

theorem visitCell_quiet
    {slot iter : ℕ} {exec : Exec} {t : TimerId} {timer : Timer}
    (hcons : Consistent q exec.world)
    (hshape : WheelShape a b (exec.world.clock q)) (ha : a < 64)
    (htimer : exec.world.timers t = some timer)
    (hqueue : timer.queue = some q)
    (hslot : timer.iterSlot = slot) (hpos : timer.iterPos = iter)
    (hhandled : Handled a b (exec.world.clock q) t timer) :
    ∃ result bound,
      (∀ fuel, bound ≤ fuel →
        Exec.visitCell quiet q slot fuel (.timer t) iter exec =
          .ok (true, result)) ∧
      result.ticks = exec.ticks ∧
      result.deliveries =
        exec.deliveries ++
          (timer.deadline t).deliver
            (exec.world.clock q).lastUpdateTime ∧
      Rescheduled a b q t timer
        ((timer.deadline t).advance
          (exec.world.clock q).lastUpdateTime).next
        exec.world result.world := by
  let now := (exec.world.clock q).lastUpdateTime
  let due := (timer.deadline t).dueTimes now
  have hcell := hcons.get_eq htimer hqueue hslot hpos
  have hdue :
      ∀ i < due.length,
        timer.nextHandleTime + i * timer.timerInterval ≤ now := by
    intro i hi
    apply ((timer.deadline t).dueTimes_bounds _).2
    rw [Deadline.dueTimes_eq_range]
    exact List.mem_map.mpr ⟨i, List.mem_range.mpr hi, rfl⟩
  have hend :
      now < timer.nextHandleTime + due.length * timer.timerInterval :=
    (timer.deadline t).lt_advance_next hhandled.interval_pos
      hhandled.next_ne
  rcases fireWhileDue_quiet htimer hcell hdue hend hhandled.next_lt with
    ⟨fired, hfired, hreturns⟩
  let advanced : Timer :=
    { timer with
      nextHandleTime :=
        timer.nextHandleTime + due.length * timer.timerInterval }
  have hadvanced : fired.world.timers t = some advanced := by
    simp [hfired.world, advanced]
  have hclock : fired.world.clock q = exec.world.clock q := by
    simp [hfired.world]
  have hfiredCons : Consistent q fired.world := by
    rw [hfired.world]
    exact hcons.setTimer htimer rfl rfl rfl
  have hrequeued :=
    Rescheduled.requeue hfiredCons (hclock ▸ hshape) ha hadvanced hqueue
      hhandled.interval_pos (hclock ▸ hend.le) hhandled.next_lt
      (hclock ▸ hhandled.gap_fits)
  refine ⟨fired.requeue q (.timer t), due.length + 1, ?_, ?_, ?_, ?_⟩
  · intro fuel hfuel
    simp [Exec.visitCell, hreturns fuel hfuel]
  · simp only [Exec.requeue, hadvanced, Exec.ticks_emit, hfired.ticks]
    simp [TimerEvent.tickTime]
  · simp only [Exec.requeue, hadvanced, Exec.deliveries_emit,
      hfired.deliveries]
    simp only [TimerEvent.delivery, Option.toList_none, List.append_nil]
    congr 1
    unfold Deadline.deliver
    rw [Deadline.dueTimes_eq_range, List.map_map]
    rfl
  · simp only [Exec.requeue, hadvanced, Exec.world_emit]
    apply Rescheduled.of_setTimer
    rw [hfired.world] at hrequeued ⊢
    exact hrequeued

/-! ## Walking the current slot -/

/-- When the tick began, the timer was in a cell of the slot that comes before
`iter`. -/
def InCellBefore
    (q : QueueId) (slot : ℕ) (start : Exec) (iter : ℕ) (t : TimerId)
    (timer : Timer) : Prop :=
  start.world.timers t = some timer ∧ timer.queue = some q ∧
    timer.iterSlot = slot ∧ timer.iterPos < iter

theorem InCellBefore.succ
    {slot iter : ℕ} {start : Exec} {t : TimerId} {timer : Timer}
    (hbefore : InCellBefore q slot start iter t timer) :
    InCellBefore q slot start (iter + 1) t timer := by
  rcases hbefore with ⟨htimer, hqueue, hslot, hlt⟩
  exact ⟨htimer, hqueue, hslot, Nat.lt_succ_of_lt hlt⟩

/-- The timer has had its share of the tick. -/
structure Served
    (a b : ℕ) (q : QueueId) (start : Exec) (t : TimerId) (timer : Timer)
    (exec : Exec) (record : Timer) : Prop where
  timers : exec.world.timers t = some record
  queue : record.queue = some q
  deadline :
    record.deadline t =
      (timer.deadline t).advance (start.world.clock q).lastUpdateTime
  placed : Placed a b (start.world.clock q) record
  deliveries :
    deliveriesOf t exec.deliveries =
      deliveriesOf t start.deliveries ++
        (timer.deadline t).deliver (start.world.clock q).lastUpdateTime

/-- The walk has reached the cell `iter`. -/
structure Swept
    (a b : ℕ) (q : QueueId) (slot : ℕ) (start : Exec) (iter : ℕ)
    (exec : Exec) : Prop where
  consistent : Consistent q exec.world
  clock : exec.world.clock q = start.world.clock q
  length :
    (exec.world.slotList q slot).list.length =
      (start.world.slotList q slot).list.length
  ticks : exec.ticks = start.ticks
  served :
    ∀ t timer, InCellBefore q slot start iter t timer →
      ∃ record, Served a b q start t timer exec record ∧
        (record.iterSlot = slot → record.iterPos = timer.iterPos)
  waiting :
    ∀ t, (∀ timer, ¬ InCellBefore q slot start iter t timer) →
      exec.world.timers t = start.world.timers t ∧
        deliveriesOf t exec.deliveries = deliveriesOf t start.deliveries

theorem Swept.start
    {slot : ℕ} {start : Exec} (hcons : Consistent q start.world) :
    Swept a b q slot start 0 start := by
  constructor
  · exact hcons
  · rfl
  · rfl
  · rfl
  · intro t timer hbefore
    exact (Nat.not_lt_zero _ hbefore.2.2.2).elim
  · intro t _
    exact ⟨rfl, rfl⟩

/-- A timer that the walk finds in its next cell has not been served, and
still is as it was when the tick began. -/
theorem Swept.found
    {slot iter : ℕ} {start exec : Exec}
    (hswept : Swept a b q slot start iter exec)
    {t : TimerId} {timer : Timer}
    (htimer : exec.world.timers t = some timer)
    (hslot : timer.iterSlot = slot) (hpos : timer.iterPos = iter) :
    (∀ before, ¬ InCellBefore q slot start iter t before) ∧
      start.world.timers t = some timer := by
  have hnot : ∀ before, ¬ InCellBefore q slot start iter t before := by
    intro before hbefore
    rcases hswept.served t before hbefore with ⟨record, hserved, hsame⟩
    have heq : record = timer :=
      Option.some.inj (hserved.timers.symm.trans htimer)
    subst record
    have hcell := hsame hslot
    have hlt := hbefore.2.2.2
    omega
  refine ⟨hnot, ?_⟩
  rw [← (hswept.waiting t hnot).1]
  exact htimer

/-- A timer whose turn comes next is still in its cell. -/
theorem Swept.next_cell
    {slot iter : ℕ} {start exec : Exec}
    (hswept : Swept a b q slot start iter exec)
    {t : TimerId} {timer : Timer}
    (hnext : InCellBefore q slot start (iter + 1) t timer)
    (hnow : ¬ InCellBefore q slot start iter t timer) :
    (exec.world.slotList q slot).list[iter]? = some (.timer t) := by
  rcases hnext with ⟨htimer, hqueue, hslot, hlt⟩
  have hpos : timer.iterPos = iter := by
    by_contra hne
    exact hnow ⟨htimer, hqueue, hslot, by omega⟩
  have hnone : ∀ other, ¬ InCellBefore q slot start iter t other := by
    intro other hother
    have heq : other = timer :=
      Option.some.inj (hother.1.symm.trans htimer)
    exact hnow (heq ▸ hother)
  have hstill := (hswept.waiting t hnone).1.trans htimer
  have hfound := hswept.consistent.cell hstill hqueue
  rw [hslot, hpos] at hfound
  exact hfound

/-- The walk passes cells that hold no timer. -/
theorem Swept.skip
    {slot iter : ℕ} {start exec : Exec}
    (hswept : Swept a b q slot start iter exec)
    (hcell :
      (exec.world.slotList q slot).list[iter]? = some .deleted) :
    Swept a b q slot start (iter + 1) exec := by
  constructor
  · exact hswept.consistent
  · exact hswept.clock
  · exact hswept.length
  · exact hswept.ticks
  · intro t timer hbefore
    apply hswept.served t timer
    by_contra hnow
    have hfound := hswept.next_cell hbefore hnow
    rw [hcell] at hfound
    simp at hfound
  · intro t hnot
    apply hswept.waiting t
    intro timer hbefore
    exact hnot timer hbefore.succ

/-- What a timer got in this tick is not changed by what others get. -/
theorem Served.keep
    {start exec result : Exec} {t : TimerId} {timer record : Timer}
    (hserved : Served a b q start t timer exec record)
    (htimers : result.world.timers t = exec.world.timers t)
    (hdeliveries :
      deliveriesOf t result.deliveries = deliveriesOf t exec.deliveries) :
    Served a b q start t timer result record := by
  constructor
  · exact htimers.trans hserved.timers
  · exact hserved.queue
  · exact hserved.deadline
  · exact hserved.placed
  · exact hdeliveries.trans hserved.deliveries

/-- The walk serves the timer in its next cell. -/
theorem Swept.serve
    {slot iter : ℕ} {start exec result : Exec}
    (hswept : Swept a b q slot start iter exec)
    {t : TimerId} {timer : Timer}
    (htimer : exec.world.timers t = some timer)
    (hqueue : timer.queue = some q)
    (hslot : timer.iterSlot = slot) (hpos : timer.iterPos = iter)
    (hticks : result.ticks = exec.ticks)
    (hdeliveries :
      result.deliveries =
        exec.deliveries ++
          (timer.deadline t).deliver
            (exec.world.clock q).lastUpdateTime)
    (hworld :
      Rescheduled a b q t timer
        ((timer.deadline t).advance
          (exec.world.clock q).lastUpdateTime).next
        exec.world result.world) :
    Swept a b q slot start (iter + 1) result := by
  rcases hworld.record with
    ⟨record, htimers, hrecordQueue, hdeadline, hplaced, hsamePos⟩
  rcases hswept.found htimer hslot hpos with ⟨hfresh, hstart⟩
  have hcell := hswept.consistent.cell htimer hqueue
  rw [hslot, hpos] at hcell
  have hothers :
      ∀ other, other ≠ t →
        result.world.timers other = exec.world.timers other := by
    intro other hne
    rw [htimers, Function.update_of_ne hne]
  have hotherDeliveries :
      ∀ other, other ≠ t →
        deliveriesOf other result.deliveries =
          deliveriesOf other exec.deliveries := by
    intro other hne
    rw [hdeliveries, deliveriesOf_append, deliveriesOf_deliver]
    simp [Timer.deadline, Ne.symm hne]
  have hserved : Served a b q start t timer result record := by
    constructor
    · rw [htimers, Function.update_self]
    · exact hrecordQueue
    · rw [hdeadline, ← hswept.clock]
      rfl
    · exact hswept.clock ▸ hplaced
    · rw [hdeliveries, deliveriesOf_append, deliveriesOf_deliver,
        (hswept.waiting t hfresh).2, hswept.clock]
      simp [Timer.deadline]
  constructor
  · exact hworld.consistent
  · exact hworld.clock.trans hswept.clock
  · rw [← hslot, hworld.length, hslot]
    exact hswept.length
  · exact hticks.trans hswept.ticks
  · intro other before hbefore
    by_cases heq : other = t
    · subst other
      have hsame : before = timer :=
        Option.some.inj (hbefore.1.symm.trans hstart)
      subst before
      exact ⟨record, hserved, fun h => hsamePos (h.trans hslot.symm)⟩
    · have hearlier : InCellBefore q slot start iter other before := by
        by_contra hnow
        have hfound := hswept.next_cell hbefore hnow
        rw [hcell, Option.some.injEq, TimerPtr.timer.injEq] at hfound
        exact heq hfound.symm
      rcases hswept.served other before hearlier with
        ⟨found, hfound, hfoundPos⟩
      exact ⟨found,
        hfound.keep (hothers other heq) (hotherDeliveries other heq),
        hfoundPos⟩
  · intro other hnot
    have hne : other ≠ t := by
      intro heq
      subst other
      exact hnot timer ⟨hstart, hqueue, hslot, by omega⟩
    have hwaiting :=
      hswept.waiting other (fun before hbefore => hnot before hbefore.succ)
    exact ⟨(hothers other hne).trans hwaiting.1,
      (hotherDeliveries other hne).trans hwaiting.2⟩

/-- The walk through a slot whose timers can all be handled ends, and has then
served every timer of the slot. -/
theorem sweep_slot
    {slot : ℕ} {start : Exec} (hcons : Consistent q start.world)
    (hshape : WheelShape a b (start.world.clock q)) (ha : a < 64)
    (hhandled :
      ∀ t timer, start.world.timers t = some timer →
        timer.queue = some q → timer.iterSlot = slot →
          Handled a b (start.world.clock q) t timer) :
    ∃ final bound,
      Swept a b q slot start
        (start.world.slotList q slot).list.length final ∧
      ∀ fuel, bound ≤ fuel →
        UnorderedList.forEach
          (fun state : Exec => state.world.slotList q slot)
          (Exec.visitCell quiet q slot fuel) fuel 0 start = .ok final := by
  have hwalk :=
    UnorderedList.forEach_total
      (fun (iter : ℕ) (exec : Exec)
        (hswept : Swept a b q slot start iter exec) => hswept.length)
      (fun iter exec hswept hcell => hswept.skip
        (hcell.trans (by rw [hswept.consistent.marker])))
      (fun iter exec ptr hswept hcell hlive => by
        rw [hswept.consistent.marker] at hlive
        rcases hswept.consistent.backpointer slot iter ptr hcell hlive with
          ⟨t, timer, hptr, htimer, hqueue, hslot, hpos⟩
        subst ptr
        have hstart := (hswept.found htimer hslot hpos).2
        rcases visitCell_quiet hswept.consistent (hswept.clock ▸ hshape) ha
            htimer hqueue hslot hpos
            (hswept.clock ▸ hhandled t timer hstart hqueue hslot) with
          ⟨result, bound, hreturns, hticks, hdeliveries, hworld⟩
        exact ⟨result, bound,
          hswept.serve htimer hqueue hslot hpos hticks hdeliveries hworld,
          hreturns⟩)
      (Nat.zero_le _) (Swept.start hcons)
  rcases hwalk with ⟨final, bound, hfinal, hreturns⟩
  exact ⟨final, bound, hfinal,
    fun fuel hfuel => hreturns fuel fuel hfuel hfuel⟩

end GreenTurtle.Timers
