import GreenTurtle.TimerTermination
import GreenTurtle.TimerWatch
import Mathlib.Tactic

/-!
# Timers that are scheduled too late

`ScheduleTimer` takes a signed delay, and a delay below minus the interval puts
the deadline before the clock.  The slot is then computed from a negative time,
in unsigned arithmetic: it lies behind the current slot, and around the wheel
that is ahead of it.  Such a timer is called by the next tick only if its slot
happens to be the current one and its deadline has not become a large number.
-/

namespace GreenTurtle.Timers

open FixedWidth
open Execution

variable {q : QueueId} {t : TimerId} {a b : ℕ}

/-! ## The slot of a time in the past -/

/-- A wheel of `2 ^ a` slots and intervals of `2 ^ b`, as the constructor
leaves it. -/
structure Geared (a b : ℕ) (clock : WheelClock) : Prop where
  slotSize : clock.slotSize = 2 ^ a
  interval : clock.interval = 2 ^ b
  intervalExponent : clock.intervalExponent = b
  circleTime : clock.circleTime = toUInt64 (2 ^ a * 2 ^ b)
  currentSlot_lt : clock.currentSlot < 2 ^ a

theorem Geared.advance
    {clock : WheelClock} (hgeared : Geared a b clock) (ha : a < 64) :
    Geared a b clock.advance := by
  have hpos : 0 < 2 ^ a := by positivity
  refine ⟨hgeared.slotSize, hgeared.interval, hgeared.intervalExponent,
    hgeared.circleTime, ?_⟩
  unfold WheelClock.advance
  dsimp only
  have hmask := WheelClock.slotMask_two_pow hgeared.slotSize ha
  rw [hmask]
  exact lt_of_le_of_lt Nat.and_le_right (by omega)

theorem stepInvariant_geared (q : QueueId) (ha : a < 64) :
    StepInvariant q (fun exec => Geared a b (exec.world.clock q)) := by
  apply stepInvariant_clock q (Geared a b)
  · intro clock hgeared
    exact hgeared.advance ha
  · intro clock currentTime hgeared
    exact ⟨hgeared.slotSize, hgeared.interval, hgeared.intervalExponent,
      hgeared.circleTime, hgeared.currentSlot_lt⟩

theorem Geared.of_runCalls
    (ha : a < 64) (hb : b < 64) {queue : TimerQueue}
    (hnew : TimerQueue.new (2 ^ a) (2 ^ b) = some queue)
    {onTimeOut : Callback} {fuel : ℕ} {calls : List TimerCall}
    {exec : Exec}
    (hrun :
      Exec.runCalls onTimeOut q fuel calls
        (Exec.start (World.initial queue)) = .ok exec) :
    Geared a b (exec.world.clock q) := by
  obtain ⟨other, hother, hclock, _⟩ := new_two_pow a hb
  have hsame : other = queue :=
    Option.some.inj (hother.symm.trans hnew)
  subst other
  have hstart :
      Geared a b ((Exec.start (World.initial queue)).world.clock q) := by
    change Geared a b queue.toWheelClock
    rw [hclock]
    exact ⟨rfl, rfl, rfl, rfl, by simp [WheelClock.ofExponents]⟩
  have hgeared :=
    (stepInvariant_geared q ha).runCalls onTimeOut fuel calls hstart
  rw [hrun] at hgeared
  exact hgeared

theorem Geared.circleTime_eq
    {clock : WheelClock} (hgeared : Geared a b clock) :
    clock.circleTime = 2 ^ a * 2 ^ b % 18446744073709551616 := by
  rw [hgeared.circleTime]
  norm_cast

theorem Geared.toSlot_eq
    {clock : WheelClock} (hgeared : Geared a b clock) (ha : a < 64)
    (timerInterval : ℕ) (timeDelay : ℤ) :
    clock.toSlot timerInterval timeDelay =
      (clock.currentSlot +
        toUInt64 (timeDelay + clock.circleTime + timerInterval) / 2 ^ b) %
          2 ^ a := by
  have hwrap :
      ∀ x : ℕ, toUInt64 (clock.currentSlot + (x : ℤ)) =
        (clock.currentSlot + x) % 18446744073709551616 := by
    intro x
    unfold toUInt64
    omega
  unfold WheelClock.toSlot
  rw [WheelClock.slotMask_two_pow hgeared.slotSize ha,
    Nat.and_two_pow_sub_one_eq_mod, hgeared.intervalExponent,
    Nat.shiftRight_eq_div_pow, hwrap, mod_wrap_mod_two_pow _ ha.le]

/-- Going back `late` from a multiple of the wheel leads to the current slot
exactly if the intervals begun on the way make up whole turns. -/
theorem sub_div_dvd_iff
    {turns late : ℕ} (hlate : 0 < late)
    (hle : late ≤ turns * 2 ^ a * 2 ^ b) :
    2 ^ a ∣ (turns * 2 ^ a * 2 ^ b - late) / 2 ^ b ↔
      2 ^ a ∣ (late + (2 ^ b - 1)) / 2 ^ b := by
  have hpos : 0 < 2 ^ b := by positivity
  obtain ⟨before, rfl⟩ := Nat.exists_eq_add_one.mpr hlate
  have hceil : (before + 1 + (2 ^ b - 1)) / 2 ^ b = before / 2 ^ b + 1 := by
    rw [show before + 1 + (2 ^ b - 1) = before + 2 ^ b by omega,
      Nat.add_div_right _ hpos]
  have hsub :
      (turns * 2 ^ a * 2 ^ b - (before + 1)) / 2 ^ b =
        turns * 2 ^ a - (before / 2 ^ b + 1) := by
    rw [Nat.mul_comm (turns * 2 ^ a)]
    apply Nat.mul_sub_div
    rw [Nat.mul_comm]
    omega
  have hsmall : before / 2 ^ b + 1 ≤ turns * 2 ^ a := by
    rw [Nat.succ_le_iff, Nat.div_lt_iff_lt_mul hpos]
    omega
  rw [hceil, hsub]
  exact Nat.dvd_sub_iff_right hsmall (Nat.dvd_mul_left _ _)

theorem Geared.toSlot_overdue_iff
    {clock : WheelClock} (hgeared : Geared a b clock) (ha : a < 64)
    (hab : a + b ≤ 64) {timerInterval late : ℕ} {timeDelay : ℤ}
    (hlate : timerInterval + timeDelay = -(late : ℤ)) (hpos : 0 < late) :
    clock.toSlot timerInterval timeDelay = clock.currentSlot ↔
      2 ^ a ∣ (late + (2 ^ b - 1)) / 2 ^ b := by
  -- What the code computes is a multiple of the wheel, less `late`.
  have hmod :
      (toUInt64 (timeDelay + clock.circleTime + timerInterval) + late) %
          18446744073709551616 =
        2 ^ a * 2 ^ b % 18446744073709551616 := by
    rw [hgeared.circleTime_eq]
    generalize 2 ^ a * 2 ^ b = circle
    unfold toUInt64
    omega
  have hwrap : 2 ^ a * 2 ^ b ∣ 18446744073709551616 := by
    rw [← pow_add]
    exact (pow_dvd_pow 2 hab).trans (by norm_num)
  have hdvd :
      2 ^ a * 2 ^ b ∣
        toUInt64 (timeDelay + clock.circleTime + timerInterval) + late := by
    apply Nat.dvd_of_mod_eq_zero
    rw [← Nat.mod_mod_of_dvd _ hwrap, hmod, Nat.mod_mod_of_dvd _ hwrap,
      Nat.mod_self]
  obtain ⟨turns, hturns⟩ := hdvd
  have hsum :
      toUInt64 (timeDelay + clock.circleTime + timerInterval) =
        turns * 2 ^ a * 2 ^ b - late := by
    rw [Nat.mul_assoc, Nat.mul_comm turns, ← hturns]
    omega
  have hle : late ≤ turns * 2 ^ a * 2 ^ b := by
    rw [Nat.mul_assoc, Nat.mul_comm turns, ← hturns]
    omega
  rw [hgeared.toSlot_eq ha, add_mod_eq_left_iff hgeared.currentSlot_lt,
    hsum]
  exact sub_div_dvd_iff hpos hle

/-- The deadline of an overdue timer is a time before the clock, or has wrapped
around and is out of reach. -/
theorem deadline_overdue_iff
    {last interval timerInterval late : ℕ} {timeDelay : ℤ}
    (hlate : timerInterval + timeDelay = -(late : ℤ))
    (hbound : late + interval < 18446744073709551616)
    (hfits : last + interval < 18446744073709551616) :
    toUInt64 (timeDelay + timerInterval + last) ≤
        toUInt64 (last + interval) ↔
      late ≤ last := by
  rw [toUInt64_natCast_add hfits]
  unfold toUInt64
  omega

/-! ## The first tick after the call -/

theorem timers_perform_schedule
    {exec : Exec} {old : Timer} (hexists : exec.world.timers t = some old)
    (timerInterval : ℕ) (timeDelay : ℤ) :
    ∃ pos,
      (exec.perform q (.schedule t timerInterval timeDelay)).world.timers t =
        some
          { queue := some q
            iterSlot :=
              (exec.world.clock q).toSlot timerInterval timeDelay
            iterPos := pos
            timerInterval := timerInterval
            nextHandleTime :=
              toUInt64 (timeDelay + timerInterval +
                (exec.world.clock q).lastUpdateTime) } := by
  have hallowed :
      (TimerOp.schedule t timerInterval timeDelay).allowed exec.world :=
    by simp [TimerOp.allowed, hexists]
  refine ⟨Consistent.scheduledPos q exec.world t
    ((exec.world.clock q).toSlot timerInterval timeDelay), ?_⟩
  rw [Exec.perform, if_pos hallowed]
  change (exec.world.scheduleTimer q t timerInterval timeDelay).timers t = _
  rw [Consistent.scheduleTimer_timers hexists, Function.update_self]

/-- A waiting timer is called by the next tick exactly if it is in the current
slot and due, unless the program touches it before. -/
theorem Waiting.fires_iff
    {onTimeOut : Callback} {fuel : ℕ} {timer : Timer} {ready first : Exec}
    (hsound : Sound q ready) (hrange : ready.world.InRange)
    (htimer : ready.world.timers t = some timer)
    (hqueue : timer.queue = some q)
    (htick : ready.tick onTimeOut q fuel = .ok first)
    (hleft : ∀ op, ¬ Settled ready.events t (.performed op) first) :
    (∃ event ∈ first.events.drop ready.events.length, event.Fires t) ↔
      timer.iterSlot = (ready.world.clock q).currentSlot ∧
        timer.nextHandleTime ≤
          (ready.world.clock q).advance.lastUpdateTime := by
  have hwaiting := Waiting.start htimer
  by_cases hslot : timer.iterSlot = (ready.world.clock q).currentSlot
  · by_cases hdue :
        timer.nextHandleTime ≤
          (ready.world.clock q).advance.lastUpdateTime
    · refine iff_of_true ?_ ⟨hslot, hdue⟩
      rcases hwaiting.tick_due hsound hqueue hslot hdue htick with
        ⟨op, htouched⟩ | hsettled
      · exact absurd htouched (hleft op)
      · exact ⟨_, hsettled.mem, rfl⟩
    · refine iff_of_false ?_ (fun hboth => hdue hboth.2)
      rintro ⟨event, hevent, hfires⟩
      rcases hwaiting.tick_later hsound hqueue hslot (not_le.mp hdue)
          (hrange t timer htimer) htick with
        ⟨op, htouched⟩ | ⟨record, _, hstill⟩
      · exact hleft op htouched
      · exact hstill.silent hevent hfires
  · refine iff_of_false ?_ (fun hboth => hslot hboth.1)
    rintro ⟨event, hevent, hfires⟩
    rcases hwaiting.tick_elsewhere hsound hqueue hslot htick with
      hstill | ⟨op, htouched⟩
    · exact hstill.silent hevent hfires
    · exact hleft op htouched

/-- The next tick walks the slot that `ScheduleTimer` computes, and the deadline
it computes is not after the end of that tick. -/
def WheelClock.FiresNext
    (clock : WheelClock) (timerInterval : ℕ) (timeDelay : ℤ) : Prop :=
  clock.toSlot timerInterval timeDelay = clock.currentSlot ∧
    toUInt64 (timeDelay + timerInterval + clock.lastUpdateTime) ≤
      clock.advance.lastUpdateTime

theorem Geared.firesNext_iff
    {clock : WheelClock} (hgeared : Geared a b clock) (ha : a < 64)
    (hab : a + b ≤ 64) {timerInterval late : ℕ} {timeDelay : ℤ}
    (hinterval : 1 ≤ timerInterval)
    (hdelay : -9223372036854775808 ≤ timeDelay)
    (hlate : timerInterval + timeDelay = -(late : ℤ)) (hpos : 0 < late)
    (hfits : clock.lastUpdateTime + 2 ^ b < 18446744073709551616) :
    clock.FiresNext timerInterval timeDelay ↔
      2 ^ a ∣ (late + (2 ^ b - 1)) / 2 ^ b ∧
        late ≤ clock.lastUpdateTime := by
  have hb : b < 64 := lt_of_two_pow_lt_wrap (by omega)
  have hpow : 2 ^ b ≤ 9223372036854775808 := by
    calc
      2 ^ b ≤ 2 ^ 63 := Nat.pow_le_pow_right (by norm_num) (by omega)
      _ = 9223372036854775808 := by norm_num
  have hdeadline :=
    deadline_overdue_iff hlate (by omega) hfits
  unfold WheelClock.FiresNext
  rw [hgeared.toSlot_overdue_iff ha hab hlate hpos]
  unfold WheelClock.advance
  dsimp only
  rw [hgeared.interval, hdeadline]

/-- A timer is scheduled with a deadline that lies `late` before the clock, and
other operations may follow.  The first round of the next `Update` that makes
one is the first tick after the call.  If the program does not touch the timer
before its first call, that tick calls it if and only if `FiresNext` holds.
On a wheel of `2 ^ a` slots and intervals of `2 ^ b` this means that the number
of intervals begun in `late` is a multiple of the number of slots, and that the
clock has run for at least `late`. -/
theorem overdue_fires_at_once_iff
    {slotSize interval : ℕ} {queue : TimerQueue}
    (hnew : TimerQueue.new slotSize interval = some queue)
    (hslots : 0 < slotSize) (hsize : slotSize < 18446744073709551616)
    {q : QueueId} {onTimeOut : Callback} {fuel : ℕ}
    {calls : List TimerCall} {exec : Exec}
    (hrun :
      Exec.runCalls onTimeOut q fuel calls
        (Exec.start (World.initial queue)) = .ok exec)
    (hstarted : (exec.world.clock q).lastUpdateTime ≠ 0)
    {t : TimerId} {old : Timer} (hexists : exec.world.timers t = some old)
    {timerInterval late : ℕ} {timeDelay : ℤ}
    (hinterval : 1 ≤ timerInterval)
    (hdelay : -9223372036854775808 ≤ timeDelay)
    (hlate : timerInterval + timeDelay = -(late : ℤ)) (hpos : 0 < late)
    {ops : List TimerOp} {ready : Exec}
    (hready :
      ops.foldl (Exec.perform q)
        (exec.perform q (.schedule t timerInterval timeDelay)) = ready)
    {currentTime : ℕ} {final : Exec}
    (hround :
      (exec.world.clock q).lastUpdateTime <
        toUInt64 (currentTime + interval))
    (hupdate :
      ∃ rounds, ready.update onTimeOut q rounds currentTime = .ok final) :
    ∃ first,
      (∃ rounds, ready.tick onTimeOut q rounds = .ok first) ∧
      ((∀ op,
          ¬ Settled
            (exec.perform q (.schedule t timerInterval timeDelay)).events t
            (.performed op) first) →
        ((∃ event ∈ first.events.drop ready.events.length,
            event.Fires t) ↔
          (exec.world.clock q).FiresNext timerInterval timeDelay)) ∧
      ∀ a b, slotSize = 2 ^ a → interval = 2 ^ b → a + b ≤ 64 →
        (exec.world.clock q).lastUpdateTime + 2 ^ b <
            18446744073709551616 →
          ((exec.world.clock q).FiresNext timerInterval timeDelay ↔
            2 ^ a ∣ (late + (2 ^ b - 1)) / 2 ^ b ∧
              late ≤ (exec.world.clock q).lastUpdateTime) := by
  have hreached := Reached.of_runCalls hnew hslots hsize hrun
  have hclock : ready.world.clock q = exec.world.clock q := by
    rw [← hready, (visitInvariant_clock q _).performAll ops rfl,
      clock_perform]
  have hsound : Sound q ready := by
    rw [← hready]
    exact (hreached.sound.perform _).performAll ops
  have hrange : ready.world.InRange := by
    rw [← hready]
    exact (stepInvariant_inRange q).performAll ops
      ((stepInvariant_inRange q).perform exec _ hreached.inRange)
  rw [← hclock] at hstarted hround
  rw [update_returns_iff, startClock_of_ne_zero hstarted, hclock,
    hreached.interval] at hupdate
  cases hupdate with
  | stop hdone => exact absurd hround (not_lt.mpr hdone)
  | @tick rounds _ first _ _ htick _ =>
      refine ⟨first, ⟨rounds, htick⟩, ?_, ?_⟩
      · intro hleft
        obtain ⟨pos, hrecord⟩ :=
          timers_perform_schedule (q := q) hexists timerInterval timeDelay
        have hwatched :=
          Watched.performAll (q := q) (.inl (Waiting.start hrecord)) ops
        rw [hready] at hwatched
        rcases hwatched with hwaiting | ⟨op, htouched⟩
        · rw [Waiting.fires_iff hsound hrange hwaiting.timers rfl htick
            (fun op htouched => hleft op (hwaiting.settled_later htouched))]
          dsimp only
          rw [hclock]
          rfl
        · have hstays :=
            (stepInvariant_settled q _ t _).tick onTimeOut rounds htouched
          rw [htick] at hstays
          exact absurd hstays (hleft op)
      · rintro a b rfl rfl hab htime
        have ha := lt_of_two_pow_lt_wrap hsize
        have hb : b < 64 := lt_of_two_pow_lt_wrap (by omega)
        have hgeared := Geared.of_runCalls ha hb hnew hrun
        exact hgeared.firesNext_iff ha hab hinterval hdelay hlate hpos htime

/-- Two slots and an overdue time of two: the timer is in the current slot. -/
theorem overdue_fires_at_once_iff_whole_turn :
    ∃ queue, TimerQueue.new 2 1 = some queue ∧
      ∃ exec,
        Exec.runCalls quiet 0 20 [.op (.create 7), .update 5]
            (Exec.start (World.initial queue)) = .ok exec ∧
          ∃ first rounds,
            (exec.perform 0 (.schedule 7 1 (-3))).tick quiet 0 rounds =
                .ok first ∧
              ∃ event ∈
                first.events.drop
                  (exec.perform 0 (.schedule 7 1 (-3))).events.length,
                event.Fires 7 := by
  refine ⟨_, rfl, _, rfl, ?_⟩
  obtain ⟨first, ⟨rounds, htick⟩, hfires, hreading⟩ :=
    @overdue_fires_at_once_iff 2 1 _ rfl (by decide) (by decide) 0 quiet 20
      [.op (.create 7), .update 5] _ rfl (by decide) 7 _ rfl 1 2 (-3)
      (by decide) (by decide) (by decide) (by decide) [] _ rfl 6 _
      (by decide) ⟨20, rfl⟩
  refine ⟨first, rounds, htick, (hfires ?_).mpr ?_⟩
  · intro op htouched
    rw [@tick_unique 0 quiet _ 20 _ _ _ htick rfl] at htouched
    refine absurd (Settled.unique ⟨[.ticked 7, .fired 7 7 4, .fired 7 7 5,
      .fired 7 7 6, .fired 7 7 7, .requeued 7], rfl, rfl⟩ htouched) ?_
    exact TimerEvent.noConfusion
  · exact (hreading 1 0 rfl rfl (by decide) (by decide)).mpr (by decide)

/-- Two slots and an overdue time of one: the timer is one slot behind, which
is one slot ahead, and the first tick does not call it. -/
theorem overdue_not_fired_at_once :
    ∃ queue, TimerQueue.new 2 1 = some queue ∧
      ∃ exec,
        Exec.runCalls quiet 0 20 [.op (.create 7), .update 5]
            (Exec.start (World.initial queue)) = .ok exec ∧
          (exec.world.clock 0).lastUpdateTime = 6 ∧
          ∃ first rounds,
            (exec.perform 0 (.schedule 7 1 (-2))).tick quiet 0 rounds =
                .ok first ∧
              first.events.drop
                  (exec.perform 0 (.schedule 7 1 (-2))).events.length =
                [.ticked 7] ∧
              ¬ ∃ event ∈
                first.events.drop
                  (exec.perform 0 (.schedule 7 1 (-2))).events.length,
                event.Fires 7 := by
  refine ⟨_, rfl, _, rfl, rfl, _, 20, rfl, rfl, ?_⟩
  rintro ⟨event, hevent, hfires⟩
  have htick : event = .ticked 7 := List.mem_singleton.mp hevent
  subst event
  exact hfires

end GreenTurtle.Timers
