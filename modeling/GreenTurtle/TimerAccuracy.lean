import GreenTurtle.TimerOverdue
import Mathlib.Tactic

/-!
# How exact a timer is

The caller knows the time it passes to `Update`, not the clock of the queue,
which runs ahead of it by one to two intervals.  A timer that is scheduled for
`timerInterval` and then left alone is called first by the tick with number
`timerInterval / interval + 1`, whatever happens to other timers in the
meantime.  The two facts together bound the caller's time at the first call.
-/

namespace GreenTurtle.Timers

open FixedWidth
open Execution

variable {q : QueueId} {t : TimerId} {a b : ℕ} {onTimeOut : Callback}

/-! ## The lead of the clock -/

def TimerCall.updateTime : TimerCall → Option ℕ
  | .op _ => none
  | .update currentTime => some currentTime

/-- The times that the program passes to `Update`. -/
def updateTimes (calls : List TimerCall) : List ℕ :=
  calls.filterMap TimerCall.updateTime

theorem updateTimes_ops (ops : List TimerOp) :
    updateTimes (ops.map .op) = [] := by
  simp [updateTimes, TimerCall.updateTime]

/-- A round is begun before the bound and takes one interval. -/
theorem Rounds.lastUpdateTime_lt
    {bound interval limit : ℕ} {exec final : Exec}
    (hrounds : Rounds onTimeOut q bound exec final)
    (hinterval : (exec.world.clock q).interval = interval)
    (hlimit : bound + interval ≤ limit)
    (hfits : bound + interval ≤ 18446744073709551616)
    (hlt : (exec.world.clock q).lastUpdateTime < limit) :
    (final.world.clock q).lastUpdateTime < limit := by
  induction hrounds with
  | stop => exact hlt
  | @tick fuel exec next final hlate htick _ ih =>
      apply ih
      · rw [clock_tick htick]
        exact hinterval
      · rw [clock_tick htick, WheelClock.advance]
        dsimp only
        rw [hinterval, toUInt64_natCast_add (by omega)]
        omega

theorem update_lead_lt
    {interval latest fuel currentTime : ℕ} {exec final : Exec}
    (hinterval : (exec.world.clock q).interval = interval)
    (hle : currentTime ≤ latest)
    (hfits : latest + 2 * interval < 18446744073709551616)
    (hlt : (exec.world.clock q).lastUpdateTime < latest + 2 * interval)
    (hpos : 0 < interval)
    (hupdate : exec.update onTimeOut q fuel currentTime = .ok final) :
    (final.world.clock q).lastUpdateTime < latest + 2 * interval := by
  have hrounds := update_returns_iff.mp ⟨fuel, hupdate⟩
  rw [hinterval, toUInt64_natCast_add (by omega)] at hrounds
  apply hrounds.lastUpdateTime_lt
    ((interval_startClock exec currentTime).trans hinterval)
  · omega
  · omega
  · apply Exec.startClock_cases
      (motive := fun state =>
        (state.world.clock q).lastUpdateTime < latest + 2 * interval) hlt
    intro _
    rw [World.clock_setClock]
    dsimp only
    omega

/-- The clock is less than two intervals ahead of the latest time. -/
theorem runCalls_lead_lt
    {interval latest fuel : ℕ} {calls : List TimerCall}
    {exec final : Exec}
    (hinterval : (exec.world.clock q).interval = interval)
    (hpos : 0 < interval)
    (hle : ∀ time ∈ updateTimes calls, time ≤ latest)
    (hfits : latest + 2 * interval < 18446744073709551616)
    (hlt : (exec.world.clock q).lastUpdateTime < latest + 2 * interval)
    (hrun : Exec.runCalls onTimeOut q fuel calls exec = .ok final) :
    (final.world.clock q).lastUpdateTime < latest + 2 * interval := by
  induction calls generalizing exec with
  | nil =>
      simp only [Exec.runCalls, Except.ok.injEq] at hrun
      rw [← hrun]
      exact hlt
  | cons call calls ih =>
      cases call with
      | op op =>
          refine ih ?_ hle ?_ hrun
          · rw [clock_perform]
            exact hinterval
          · rw [clock_perform]
            exact hlt
      | update currentTime =>
          obtain ⟨next, hupdate, hrest⟩ := runCalls_update_iff.mp hrun
          have hnext :=
            (stepInvariant_interval q interval).update onTimeOut fuel
              currentTime hinterval
          rw [hupdate] at hnext
          refine ih hnext ?_ ?_ hrest
          · intro time htime
            exact hle time (List.mem_cons_of_mem _ htime)
          · exact update_lead_lt hinterval
              (hle currentTime List.mem_cons_self) hfits hlt hpos hupdate

/-- The clock is at least one interval ahead of the last time. -/
theorem le_lead_of_update
    {interval fuel currentTime : ℕ} {exec final : Exec}
    (hinterval : (exec.world.clock q).interval = interval)
    (hfits : currentTime + interval < 18446744073709551616)
    (hupdate : exec.update onTimeOut q fuel currentTime = .ok final) :
    currentTime + interval ≤ (final.world.clock q).lastUpdateTime := by
  have hrounds := update_returns_iff.mp ⟨fuel, hupdate⟩
  rw [hinterval, toUInt64_natCast_add hfits] at hrounds
  exact hrounds.bound_le

theorem runCalls_append
    {fuel : ℕ} {first second : List TimerCall} {exec final : Exec}
    (hrun :
      Exec.runCalls onTimeOut q fuel (first ++ second) exec = .ok final) :
    ∃ middle, Exec.runCalls onTimeOut q fuel first exec = .ok middle ∧
      Exec.runCalls onTimeOut q fuel second middle = .ok final := by
  induction first generalizing exec with
  | nil => exact ⟨exec, rfl, hrun⟩
  | cons call calls ih =>
      cases call with
      | op op => exact ih hrun
      | update currentTime =>
          obtain ⟨next, hupdate, hrest⟩ := runCalls_update_iff.mp hrun
          obtain ⟨middle, hfirst, hsecond⟩ := ih hrest
          exact ⟨middle, runCalls_update_iff.mpr ⟨next, hupdate, hfirst⟩,
            hsecond⟩

theorem runCalls_ops
    (fuel : ℕ) (ops : List TimerOp) (exec : Exec) :
    Exec.runCalls onTimeOut q fuel (ops.map .op) exec =
      .ok (ops.foldl (Exec.perform q) exec) := by
  induction ops generalizing exec with
  | nil => rfl
  | cons op ops ih => exact ih (exec.perform q op)

/-- After calls with times that do not decrease, the clock is one to two
intervals ahead of the last of them. -/
theorem lead_bounds
    {interval fuel now0 : ℕ} {before : List TimerCall} {ops : List TimerOp}
    {exec ready : Exec}
    (hinterval : (exec.world.clock q).interval = interval)
    (hpos : 0 < interval)
    (hnew : (exec.world.clock q).lastUpdateTime = 0)
    (hsorted : (updateTimes before ++ [now0]).Pairwise (· ≤ ·))
    (hfits : now0 + 2 * interval < 18446744073709551616)
    (hrun :
      Exec.runCalls onTimeOut q fuel
        (before ++ .update now0 :: ops.map .op) exec = .ok ready) :
    now0 + interval ≤ (ready.world.clock q).lastUpdateTime ∧
      (ready.world.clock q).lastUpdateTime < now0 + 2 * interval := by
  constructor
  · obtain ⟨started, hstarted, hrest⟩ := runCalls_append hrun
    have hkept :=
      (stepInvariant_interval q interval).runCalls onTimeOut fuel before
        hinterval
    rw [hstarted] at hkept
    obtain ⟨next, hupdate, hops⟩ := runCalls_update_iff.mp hrest
    rw [runCalls_ops, Except.ok.injEq] at hops
    rw [← hops, (visitInvariant_clock q _).performAll ops rfl]
    exact le_lead_of_update hkept (by omega) hupdate
  · apply runCalls_lead_lt hinterval hpos _ hfits (by omega) hrun
    intro time htime
    rw [List.pairwise_append] at hsorted
    simp only [updateTimes, List.filterMap_append, List.mem_append]
      at htime
    rcases htime with hearlier | hlast
    · exact hsorted.2.2 time hearlier now0 (List.mem_singleton.mpr rfl)
    · change time ∈ now0 :: updateTimes (ops.map .op) at hlast
      rw [updateTimes_ops, List.mem_singleton] at hlast
      exact hlast.le

/-! ## The way to the first call -/

theorem Geared.wheelShape
    {clock : WheelClock} (hgeared : Geared a b clock) (hab : a + b < 64) :
    WheelShape a b clock := by
  have hwrap : 2 ^ a * 2 ^ b < 18446744073709551616 := by
    rw [← pow_add]
    exact two_pow_lt_wrap hab
  refine ⟨hgeared.slotSize, hgeared.interval, hgeared.intervalExponent, ?_,
    hgeared.currentSlot_lt⟩
  rw [hgeared.circleTime_eq, Nat.mod_eq_of_lt hwrap]

/-- The tick that first calls a timer which is scheduled at `start`. -/
def firstTick (b start timerInterval : ℕ) : ℕ :=
  start + (timerInterval / 2 ^ b + 1) * 2 ^ b

/-- A timer was scheduled when the clock was at `start`.  Unless the program has
touched it since, it is in the slot of its deadline, or its first call came with
the tick `firstTick`. -/
structure OnTheWay
    (a b : ℕ) (q : QueueId) (base : List TimerEvent) (t : TimerId)
    (start timerInterval : ℕ) (exec : Exec) : Prop where
  sound : Sound q exec
  geared : Geared a b (exec.world.clock q)
  elapsed :
    ∃ rounds,
      (exec.world.clock q).lastUpdateTime = start + rounds * 2 ^ b
  progress :
    (∃ op, Settled base t (.performed op) exec) ∨
      (∃ record, Waiting base t record exec ∧ record.queue = some q ∧
        record.nextHandleTime = start + timerInterval ∧
        Placed a b (exec.world.clock q) record) ∨
      (Settled base t
          (.fired (firstTick b start timerInterval) t
            (start + timerInterval)) exec ∧
        firstTick b start timerInterval ≤
          (exec.world.clock q).lastUpdateTime)

namespace OnTheWay

variable {base : List TimerEvent} {start timerInterval fuel : ℕ}
  {exec next final : Exec}

theorem perform
    (hway : OnTheWay a b q base t start timerInterval exec)
    (op : TimerOp) :
    OnTheWay a b q base t start timerInterval (exec.perform q op) := by
  have hclock := clock_perform q exec op
  have hsettled := fun event =>
    (stepInvariant_settled q base t event).perform exec op
  constructor
  · exact hway.sound.perform op
  · rw [hclock]
    exact hway.geared
  · rw [hclock]
    exact hway.elapsed
  · rw [hclock]
    rcases hway.progress with
      ⟨first, htouched⟩ | ⟨record, hwaiting, hrecord⟩ | ⟨hfired, hle⟩
    · exact .inl ⟨first, hsettled _ htouched⟩
    · have hwatched : Watched base t record (exec.perform q op) :=
        Watched.perform (.inl hwaiting) op
      rcases hwatched with hstill | htouched
      · exact .inr (.inl ⟨record, hstill, hrecord⟩)
      · exact .inl htouched
    · exact .inr (.inr ⟨hsettled _ hfired, hle⟩)

/-- A deadline in the interval that begins now is that of the first tick. -/
theorem firstTick_eq
    {rounds : ℕ} (hle : rounds * 2 ^ b ≤ timerInterval)
    (hlt : timerInterval < (rounds + 1) * 2 ^ b) :
    firstTick b start timerInterval = start + (rounds + 1) * 2 ^ b := by
  have hdiv : timerInterval / 2 ^ b = rounds :=
    Nat.div_eq_of_lt_le hle hlt
  rw [firstTick, hdiv]

/-- A timer that was put back is in the slot of its deadline. -/
theorem placed_of_requeued
    {clock after : WheelClock} {timer record : Timer}
    (hplaced : Placed a b clock timer) (hshape : WheelShape a b after)
    (ha : a < 64)
    (htime : after.lastUpdateTime = clock.lastUpdateTime + 2 ^ b)
    (hle : after.lastUpdateTime ≤ timer.nextHandleTime)
    (hrequeued : Requeued q after timer record) :
    Placed a b after record := by
  have hpos : 0 < 2 ^ b := by positivity
  have hfits := hplaced.gap_fits
  have hgap :
      timer.nextHandleTime - after.lastUpdateTime + 2 ^ a * 2 ^ b <
        18446744073709551616 := by
    omega
  constructor
  · rw [hrequeued.timerInterval]
    exact hplaced.interval_pos
  · rw [hrequeued.nextHandleTime]
    exact hle
  · rw [hrequeued.nextHandleTime]
    exact hplaced.next_lt
  · rw [hrequeued.nextHandleTime]
    exact hgap
  · rw [hrequeued.iterSlot, hrequeued.nextHandleTime]
    exact hshape.toSlot_requeue ha hle hgap

theorem tick
    (hway : OnTheWay a b q base t start timerInterval exec)
    (ha : 1 ≤ a) (hab : a + b < 64)
    (hfits :
      (exec.world.clock q).lastUpdateTime + 2 ^ b < 18446744073709551616)
    (htick : exec.tick onTimeOut q fuel = .ok next) :
    OnTheWay a b q base t start timerInterval next := by
  have hpos : 0 < 2 ^ b := by positivity
  have hshape := hway.geared.wheelShape hab
  obtain ⟨hafter, htime, hslot⟩ := hshape.advance (by omega) hfits
  obtain ⟨rounds, hrounds⟩ := hway.elapsed
  have hclock := clock_tick htick
  have hsound := hway.sound.tick onTimeOut fuel
  rw [htick] at hsound
  have hsettled : ∀ event, Settled base t event exec →
      Settled base t event next := by
    intro event hevent
    have hstays :=
      (stepInvariant_settled q base t event).tick onTimeOut fuel hevent
    rw [htick] at hstays
    exact hstays
  constructor
  · exact hsound
  · rw [hclock]
    exact hway.geared.advance (by omega)
  · refine ⟨rounds + 1, ?_⟩
    rw [hclock, htime, hrounds]
    ring
  · rw [hclock]
    rcases hway.progress with
      ⟨op, htouched⟩ |
      ⟨record, hwaiting, hqueue, hnext, hplaced⟩ | ⟨hfired, hle⟩
    · exact .inl ⟨op, hsettled _ htouched⟩
    · have hle := hplaced.le_next
      by_cases hcurrent :
          record.iterSlot = (exec.world.clock q).currentSlot
      · rcases gap_of_slotAhead_eq ha hway.geared.currentSlot_lt
            (hplaced.slot.symm.trans hcurrent) with hnear | hfar
        · -- The deadline lies in the interval of this tick.
          have htickTime :
              firstTick b start timerInterval =
                (exec.world.clock q).advance.lastUpdateTime := by
            rw [firstTick_eq (by omega : rounds * 2 ^ b ≤ timerInterval)
              (by rw [Nat.add_one_mul]; omega), htime, hrounds]
            ring
          rcases hwaiting.tick_due hway.sound hqueue hcurrent (by omega)
              htick with htouched | hfired
          · exact .inl htouched
          · rw [hnext, ← htickTime] at hfired
            exact .inr (.inr ⟨hfired, htickTime.le⟩)
        · -- It is at least one turn of the wheel away.
          rcases hwaiting.tick_later hway.sound hqueue hcurrent (by omega)
              hplaced.next_lt htick with
            htouched | ⟨later, hrequeued, hstill⟩
          · exact .inl htouched
          · exact .inr (.inl ⟨later, hstill, hrequeued.queue,
              hrequeued.nextHandleTime.trans hnext,
              placed_of_requeued hplaced hafter (by omega) htime (by omega)
                hrequeued⟩)
      · rcases hwaiting.tick_elsewhere hway.sound hqueue hcurrent htick with
          hstill | htouched
        · exact .inr (.inl ⟨record, hstill, hqueue, hnext,
            hplaced.nearer hway.geared.currentSlot_lt htime hslot
              hcurrent⟩)
        · exact .inl htouched
    · exact .inr (.inr ⟨hsettled _ hfired, by omega⟩)

theorem rounds
    {bound : ℕ} (hway : OnTheWay a b q base t start timerInterval exec)
    (ha : 1 ≤ a) (hab : a + b < 64)
    (hfits : bound + 2 ^ b ≤ 18446744073709551616)
    (hrounds : Rounds onTimeOut q bound exec final) :
    OnTheWay a b q base t start timerInterval final := by
  induction hrounds with
  | stop => exact hway
  | tick hlate htick _ ih =>
      exact ih (hway.tick ha hab (by omega) htick)

theorem ne_zero
    (hway : OnTheWay a b q base t start timerInterval exec)
    (hstart : 0 < start) :
    (exec.world.clock q).lastUpdateTime ≠ 0 := by
  obtain ⟨rounds, hrounds⟩ := hway.elapsed
  omega

theorem rounds_of_update
    {currentTime : ℕ}
    (hway : OnTheWay a b q base t start timerInterval exec)
    (hstart : 0 < start)
    (hfits : currentTime + 2 * 2 ^ b < 18446744073709551616)
    (hupdate : exec.update onTimeOut q fuel currentTime = .ok final) :
    Rounds onTimeOut q (currentTime + 2 ^ b) exec final := by
  have hrounds :=
    (update_returns_iff_rounds (hway.ne_zero hstart)
      (by rw [hway.geared.interval]; omega)).mp ⟨fuel, hupdate⟩
  rw [hway.geared.interval] at hrounds
  exact hrounds

theorem update
    {currentTime : ℕ}
    (hway : OnTheWay a b q base t start timerInterval exec)
    (ha : 1 ≤ a) (hab : a + b < 64) (hstart : 0 < start)
    (hfits : currentTime + 2 * 2 ^ b < 18446744073709551616)
    (hupdate : exec.update onTimeOut q fuel currentTime = .ok final) :
    OnTheWay a b q base t start timerInterval final :=
  hway.rounds ha hab (by omega) (hway.rounds_of_update hstart hfits hupdate)

theorem runCalls
    {calls : List TimerCall}
    (hway : OnTheWay a b q base t start timerInterval exec)
    (ha : 1 ≤ a) (hab : a + b < 64) (hstart : 0 < start)
    (hfits : ∀ time ∈ updateTimes calls,
      time + 2 * 2 ^ b < 18446744073709551616)
    (hrun : Exec.runCalls onTimeOut q fuel calls exec = .ok final) :
    OnTheWay a b q base t start timerInterval final := by
  induction calls generalizing exec with
  | nil =>
      simp only [Exec.runCalls, Except.ok.injEq] at hrun
      rw [← hrun]
      exact hway
  | cons call calls ih =>
      cases call with
      | op op => exact ih (hway.perform op) hfits hrun
      | update currentTime =>
          obtain ⟨next, hupdate, hrest⟩ := runCalls_update_iff.mp hrun
          apply ih _ _ hrest
          · exact hway.update ha hab hstart
              (hfits currentTime List.mem_cons_self) hupdate
          · intro time htime
            exact hfits time (List.mem_cons_of_mem _ htime)

/-- The call that schedules the timer. -/
theorem schedule
    {old : Timer} (hsound : Sound q exec)
    (hgeared : Geared a b (exec.world.clock q)) (hab : a + b < 64)
    (hexists : exec.world.timers t = some old)
    (hpos : 1 ≤ timerInterval)
    (hfits :
      (exec.world.clock q).lastUpdateTime + timerInterval <
        18446744073709551616)
    (hcircle : timerInterval + 2 ^ a * 2 ^ b < 18446744073709551616) :
    OnTheWay a b q
      (exec.perform q (.schedule t timerInterval 0)).events t
      (exec.world.clock q).lastUpdateTime timerInterval
      (exec.perform q (.schedule t timerInterval 0)) := by
  have hclock := clock_perform q exec (.schedule t timerInterval 0)
  have hslot :
      (exec.world.clock q).toSlot timerInterval 0 =
        (exec.world.clock q).slotAhead a b timerInterval :=
    (hgeared.wheelShape hab).toSlot (by omega) (by simp) hcircle
  have hnext :
      toUInt64 (0 + timerInterval + (exec.world.clock q).lastUpdateTime) =
        (exec.world.clock q).lastUpdateTime + timerInterval := by
    rw [zero_add, Nat.add_comm]
    exact toUInt64_natCast_add (by omega)
  obtain ⟨pos, hrecord⟩ :=
    timers_perform_schedule (q := q) hexists timerInterval 0
  constructor
  · exact hsound.perform _
  · rw [hclock]
    exact hgeared
  · exact ⟨0, by rw [hclock]; simp⟩
  · rw [hclock]
    refine .inr (.inl ⟨_, Waiting.start hrecord, rfl, hnext, ?_⟩)
    constructor
    · exact hpos
    · dsimp only
      omega
    · dsimp only
      omega
    · dsimp only
      rw [hnext, Nat.add_sub_cancel_left]
      exact hcircle
    · dsimp only
      rw [hnext, Nat.add_sub_cancel_left]
      exact hslot

theorem length_le
    (hway : OnTheWay a b q base t start timerInterval exec) :
    base.length ≤ exec.events.length := by
  rcases hway.progress with
    ⟨_, later, hlater, _⟩ | ⟨_, ⟨later, hlater, _⟩, _⟩ |
    ⟨⟨later, hlater, _⟩, _⟩ <;>
  · rw [hlater, List.length_append]
    exact Nat.le_add_right _ _

/-- A timer that still waits has a deadline that the clock has not passed, and
so the clock has not come to the first tick. -/
theorem lastUpdateTime_le
    (hway : OnTheWay a b q base t start timerInterval exec)
    {record : Timer}
    (hnext : record.nextHandleTime = start + timerInterval)
    (hplaced : Placed a b (exec.world.clock q) record) :
    (exec.world.clock q).lastUpdateTime ≤
      start + timerInterval / 2 ^ b * 2 ^ b := by
  obtain ⟨rounds, hrounds⟩ := hway.elapsed
  have hle := hplaced.le_next
  have hdiv : rounds ≤ timerInterval / 2 ^ b := by
    rw [Nat.le_div_iff_mul_le (by positivity)]
    omega
  rw [hrounds]
  exact Nat.add_le_add_left (Nat.mul_le_mul_right _ hdiv) _

end OnTheWay

/-! ## The caller's time at the first call -/

/-- A loop that makes a round stops less than one interval after its bound. -/
theorem Rounds.eq_or_lt
    {bound interval : ℕ} {exec final : Exec}
    (hrounds : Rounds onTimeOut q bound exec final)
    (hinterval : (exec.world.clock q).interval = interval)
    (hpos : 0 < interval)
    (hfits : bound + interval ≤ 18446744073709551616) :
    final = exec ∨
      (final.world.clock q).lastUpdateTime < bound + interval := by
  by_cases hdone : bound ≤ (exec.world.clock q).lastUpdateTime
  · exact .inl (eq_of_le hdone hrounds)
  · exact .inr (hrounds.lastUpdateTime_lt hinterval le_rfl hfits (by omega))

/-- The program has made calls of `Update` with times that do not decrease, the
last of them with `now0`, and schedules a timer for `timerInterval`.  It may
call everything after that, and so may all callbacks, as long as nothing
touches the timer before its first call.  With `k` the number of whole intervals
in `timerInterval`, no later `Update` with a time up to `k` intervals after
`now0` calls the timer, and at the end of every later one with a time of at
least `k + 1` intervals after `now0` the timer has been called. -/
theorem timer_first_call_accurate
    {a b : ℕ} (ha : 1 ≤ a) (hab : a + b < 64) {queue : TimerQueue}
    (hnew : TimerQueue.new (2 ^ a) (2 ^ b) = some queue)
    {q : QueueId} {onTimeOut : Callback} {fuel now0 now1 : ℕ}
    {before after : List TimerCall} {ops : List TimerOp}
    {ready middle final : Exec}
    (hready :
      Exec.runCalls onTimeOut q fuel
        (before ++ .update now0 :: ops.map .op)
        (Exec.start (World.initial queue)) = .ok ready)
    (hsorted : (updateTimes before ++ [now0]).Pairwise (· ≤ ·))
    {t : TimerId} {old : Timer} (hexists : ready.world.timers t = some old)
    {timerInterval : ℕ} (hpos : 1 ≤ timerInterval)
    (hdeadline :
      (ready.world.clock q).lastUpdateTime + timerInterval <
        18446744073709551616)
    (hcircle : timerInterval + 2 ^ a * 2 ^ b < 18446744073709551616)
    (hafter :
      Exec.runCalls onTimeOut q fuel after
        (ready.perform q (.schedule t timerInterval 0)) = .ok middle)
    (hupdate : middle.update onTimeOut q fuel now1 = .ok final)
    (htimes : ∀ time ∈ now0 :: now1 :: updateTimes after,
      time + 2 * 2 ^ b < 18446744073709551616)
    (huntouched : ∀ op,
      ¬ Settled (ready.perform q (.schedule t timerInterval 0)).events t
        (.performed op) final) :
    (now1 ≤ now0 + timerInterval / 2 ^ b * 2 ^ b →
      ∀ event ∈ final.events.drop middle.events.length,
        ¬ event.Fires t) ∧
    (now0 + (timerInterval / 2 ^ b + 1) * 2 ^ b ≤ now1 →
      ∃ event ∈
        final.events.drop
          (ready.perform q (.schedule t timerInterval 0)).events.length,
        event.Fires t) := by
  have hinterval : 0 < 2 ^ b := by positivity
  have hnow0 := htimes now0 (by simp)
  have hnow1 := htimes now1 (by simp)
  have hreached :=
    Reached.of_runCalls hnew (by positivity)
      (two_pow_lt_wrap (by omega)) hready
  have hgeared :=
    Geared.of_runCalls (by omega : a < 64) (by omega : b < 64) hnew hready
  obtain ⟨_, hclock, hzero, _⟩ := TimerQueue.new_eq_some hnew
  obtain ⟨hlead, hlag⟩ :=
    @lead_bounds q onTimeOut (2 ^ b) fuel now0 before ops
      (Exec.start (World.initial queue)) ready hclock hinterval hzero
      hsorted hnow0 hready
  have hscheduled :=
    OnTheWay.schedule hreached.sound hgeared hab hexists hpos hdeadline
      hcircle
  have hmiddle :=
    hscheduled.runCalls ha hab (by omega)
      (fun time htime => htimes time (by simp [htime])) hafter
  have hfinal := hmiddle.update ha hab (by omega) hnow1 hupdate
  have hrounds := hmiddle.rounds_of_update (by omega) hnow1 hupdate
  generalize htick : timerInterval / 2 ^ b * 2 ^ b = whole at *
  constructor
  · intro hearly event hevent hfires
    rcases hrounds.eq_or_lt hmiddle.geared.interval hinterval (by omega)
      with rfl | hlt
    · simp at hevent
    · rcases hfinal.progress with
        ⟨op, htouched⟩ | ⟨record, hwaiting, _⟩ | ⟨_, hle⟩
      · exact huntouched op htouched
      · exact hwaiting.silent
          (List.drop_subset_drop_left _ hmiddle.length_le hevent) hfires
      · rw [firstTick, Nat.add_one_mul, htick] at hle
        omega
  · intro hlate
    rw [Nat.add_one_mul, htick] at hlate
    rcases hfinal.progress with
      ⟨op, htouched⟩ | ⟨record, _, _, hnext, hplaced⟩ | ⟨hfired, _⟩
    · exact absurd htouched (huntouched op)
    · have hle := hfinal.lastUpdateTime_le hnext hplaced
      have hreach := hrounds.bound_le
      omega
    · exact ⟨_, hfired.mem, rfl⟩

/-- Two slots of length two: a timer scheduled for three at the time six has
been called at the time ten, after another timer was scheduled. -/
theorem timer_first_call_accurate_three :
    ∃ queue, TimerQueue.new 2 2 = some queue ∧
      ∃ ready,
        Exec.runCalls quiet 0 9
            [.op (.create 7), .op (.create 8), .update 6]
            (Exec.start (World.initial queue)) = .ok ready ∧
          ∃ middle,
            Exec.runCalls quiet 0 9
                [.op (.schedule 8 1 0)]
                (ready.perform 0 (.schedule 7 3 0)) = .ok middle ∧
              ∃ final,
                middle.update quiet 0 9 10 = .ok final ∧
                  ∃ event ∈
                    final.events.drop
                      (ready.perform 0 (.schedule 7 3 0)).events.length,
                    event.Fires 7 := by
  refine ⟨_, rfl, _, rfl, _, rfl, _, rfl, ?_⟩
  refine (@timer_first_call_accurate 1 1 (by decide) (by decide) _ rfl 0
    quiet 9 6 10 [.op (.create 7), .op (.create 8)]
    [.op (.schedule 8 1 0)] [] _ _ _ rfl (by decide) 7 _ rfl 3
    (by decide) (by decide) (by decide) rfl rfl (by decide) ?_).2
    (by decide)
  intro op htouched
  refine absurd (Settled.unique ⟨[.performed (.schedule 8 1 0), .ticked 10,
    .fired 10 8 9, .fired 10 8 10, .requeued 8, .ticked 12, .fired 12 7 11,
    .requeued 7, .fired 12 8 11, .fired 12 8 12, .requeued 8], rfl, rfl⟩
    htouched) ?_
  exact TimerEvent.noConfusion

end GreenTurtle.Timers
