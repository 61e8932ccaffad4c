import GreenTurtle.TimerWheelTick
import Mathlib.Tactic

/-!
# The timer wheel refines the reference

The two stay related through every call: same time, same ticks, the queued
timers of the wheel are the entries of the flat list, and each timer has had
the same calls.  What the reference guarantees then holds for the wheel.
-/

namespace GreenTurtle.Timers

open FixedWidth
open Execution

variable {q : QueueId} {a b : ℕ}

structure Tracks
    (a b : ℕ) (q : QueueId) (exec : Exec) (ref : Reference) : Prop where
  consistent : Consistent q exec.world
  shape : WheelShape a b (exec.world.clock q)
  live : ∀ t, ∃ timer, exec.world.timers t = some timer
  placed :
    ∀ t timer, exec.world.timers t = some timer → timer.queue = some q →
      Placed a b (exec.world.clock q) timer
  lastUpdateTime :
    (exec.world.clock q).lastUpdateTime = ref.lastUpdateTime
  mem_deadlines :
    ∀ deadline, deadline ∈ ref.deadlines ↔
      ∃ timer, exec.world.timers deadline.timer = some timer ∧
        timer.queue = some q ∧ timer.deadline deadline.timer = deadline
  ordered : ref.Ordered
  ticks : exec.ticks = ref.ticks
  deliveries :
    ∀ t, deliveriesOf t exec.deliveries = deliveriesOf t ref.deliveries

/-! ## One tick -/

/-- The execution at the moment when the tick begins to walk its slot. -/
def Exec.tickStarted (q : QueueId) (exec : Exec) : Exec :=
  exec.emit (.ticked (exec.world.clock q).advance.lastUpdateTime)
    (exec.world.setClock q (exec.world.clock q).advance)

@[simp] theorem Exec.clock_tickStarted (q : QueueId) (exec : Exec) :
    (exec.tickStarted q).world.clock q =
      (exec.world.clock q).advance := by
  simp [tickStarted]

@[simp] theorem Exec.timers_tickStarted (q : QueueId) (exec : Exec) :
    (exec.tickStarted q).world.timers = exec.world.timers := by
  simp [tickStarted]

@[simp] theorem Exec.deliveries_tickStarted (q : QueueId) (exec : Exec) :
    (exec.tickStarted q).deliveries = exec.deliveries := by
  simp [tickStarted, deliveries_emit, TimerEvent.delivery]

@[simp] theorem Exec.ticks_tickStarted (q : QueueId) (exec : Exec) :
    (exec.tickStarted q).ticks =
      exec.ticks ++ [(exec.world.clock q).advance.lastUpdateTime] := by
  simp [tickStarted, ticks_emit, TimerEvent.tickTime]

theorem Tracks.handled
    {exec : Exec} {ref : Reference} (htracks : Tracks a b q exec ref)
    (ha : 1 ≤ a) (hfits : ref.TickFits (2 ^ a) (2 ^ b))
    {clock : WheelClock}
    (hclock :
      clock.lastUpdateTime = (exec.world.clock q).lastUpdateTime + 2 ^ b)
    {t : TimerId} {timer : Timer}
    (htimer : exec.world.timers t = some timer)
    (hqueue : timer.queue = some q)
    (hslot : timer.iterSlot = (exec.world.clock q).currentSlot) :
    Handled a b clock t timer := by
  have hpos : 0 < 2 ^ b := by positivity
  have hplaced := htracks.placed t timer htimer hqueue
  have hle := hplaced.le_next
  have hlast := htracks.lastUpdateTime
  have hgap :=
    gap_of_slotAhead_eq ha htracks.shape.currentSlot_lt
      (hplaced.slot.symm.trans hslot)
  rcases hgap with hdue | hfar
  · have hmem : timer.deadline t ∈ ref.deadlines :=
      (htracks.mem_deadlines _).mpr ⟨timer, htimer, hqueue, rfl⟩
    have hbefore :
        (timer.deadline t).next < ref.lastUpdateTime + 2 ^ b := by
      simp only [Timer.deadline]
      omega
    have hnext := hfits.2 _ hmem hbefore
    rw [← hlast, ← hclock] at hnext hbefore
    exact ⟨hplaced.interval_pos, hbefore.ne, hnext.1, hnext.2⟩
  · have hstay :
        (timer.deadline t).advance clock.lastUpdateTime =
          timer.deadline t := by
      apply Deadline.advance_of_le
      simp only [Timer.deadline]
      omega
    have hlt := hplaced.next_lt
    have hsum := hplaced.gap_fits
    constructor
    · exact hplaced.interval_pos
    · omega
    · rw [hstay]
      exact hlt
    · rw [hstay]
      simp only [Timer.deadline]
      omega

/-- A timer in another slot comes nearer without being touched. -/
theorem Placed.nearer
    {clock after : WheelClock} {timer : Timer}
    (hplaced : Placed a b clock timer)
    (hlt : clock.currentSlot < 2 ^ a)
    (htime : after.lastUpdateTime = clock.lastUpdateTime + 2 ^ b)
    (hslot : after.currentSlot = (clock.currentSlot + 1) % 2 ^ a)
    (hne : timer.iterSlot ≠ clock.currentSlot) :
    Placed a b after timer := by
  have hle := hplaced.le_next
  have hsum := hplaced.gap_fits
  have hahead :=
    slotAhead_of_ne hslot hlt (hplaced.slot.symm.trans_ne hne)
  have hgap :
      timer.nextHandleTime - after.lastUpdateTime =
        timer.nextHandleTime - clock.lastUpdateTime - 2 ^ b := by
    omega
  constructor
  · exact hplaced.interval_pos
  · omega
  · exact hplaced.next_lt
  · rw [hgap]
    exact (Nat.add_le_add_right (Nat.sub_le _ _) _).trans_lt hsum
  · rw [hgap, ← hahead.2]
    exact hplaced.slot

/-- The tick has served every queued timer and left the others alone. -/
structure Ticked (a b : ℕ) (q : QueueId) (exec next : Exec) : Prop where
  consistent : Consistent q next.world
  clock : next.world.clock q = (exec.world.clock q).advance
  ticks :
    next.ticks =
      exec.ticks ++ [(exec.world.clock q).advance.lastUpdateTime]
  served :
    ∀ t timer, exec.world.timers t = some timer → timer.queue = some q →
      ∃ record, Served a b q (exec.tickStarted q) t timer next record
  idle :
    ∀ t timer, exec.world.timers t = some timer → timer.queue ≠ some q →
      next.world.timers t = some timer ∧
        deliveriesOf t next.deliveries = deliveriesOf t exec.deliveries

/-- A timer outside the slot that was walked counts as served: it was not
due, and its cell is still the right one. -/
theorem Tracks.served_of_waiting
    {exec next : Exec} {ref : Reference} (htracks : Tracks a b q exec ref)
    (htime :
      (exec.world.clock q).advance.lastUpdateTime =
        (exec.world.clock q).lastUpdateTime + 2 ^ b)
    (hslot :
      (exec.world.clock q).advance.currentSlot =
        ((exec.world.clock q).currentSlot + 1) % 2 ^ a)
    {t : TimerId} {timer : Timer}
    (htimer : exec.world.timers t = some timer)
    (hqueue : timer.queue = some q)
    (hother : timer.iterSlot ≠ (exec.world.clock q).currentSlot)
    (hsame : next.world.timers t = some timer)
    (hdeliveries :
      deliveriesOf t next.deliveries = deliveriesOf t exec.deliveries) :
    Served a b q (exec.tickStarted q) t timer next timer := by
  have hnearer :
      Placed a b (exec.world.clock q).advance timer :=
    (htracks.placed t timer htimer hqueue).nearer
      htracks.shape.currentSlot_lt htime hslot hother
  rw [← Exec.clock_tickStarted] at hnearer
  have hnothing := (timer.deadline t).deliver_of_le hnearer.le_next
  constructor
  · exact hsame
  · exact hqueue
  · exact ((timer.deadline t).advance_of_le hnearer.le_next).symm
  · exact hnearer
  · rw [hnothing, List.append_nil, Exec.deliveries_tickStarted]
    exact hdeliveries

theorem Tracks.tick_ticked
    {exec : Exec} {ref : Reference} (htracks : Tracks a b q exec ref)
    (ha : 1 ≤ a) (hab : a + b < 64)
    (hfits : ref.TickFits (2 ^ a) (2 ^ b)) :
    ∃ next bound, Ticked a b q exec next ∧
      ∀ fuel, bound ≤ fuel → exec.tick quiet q fuel = .ok next := by
  rcases htracks.shape.advance (by omega)
      (htracks.lastUpdateTime ▸ hfits.1) with
    ⟨hshape, htime, hslot⟩
  let started := exec.tickStarted q
  have hclock :
      started.world.clock q = (exec.world.clock q).advance :=
    exec.clock_tickStarted q
  have htimers : started.world.timers = exec.world.timers :=
    exec.timers_tickStarted q
  have hcons : Consistent q started.world :=
    htracks.consistent.of_clock rfl
  have hhandled :
      ∀ t timer, started.world.timers t = some timer →
        timer.queue = some q →
          timer.iterSlot = (exec.world.clock q).currentSlot →
            Handled a b (started.world.clock q) t timer := by
    intro t timer htimer hqueue hcurrent
    rw [htimers] at htimer
    rw [hclock]
    exact htracks.handled ha hfits htime htimer hqueue hcurrent
  rcases sweep_slot hcons (hclock ▸ hshape) (by omega) hhandled with
    ⟨next, bound, hswept, hreturns⟩
  -- A timer that was not in the walked slot is as it was.
  have hwaiting :
      ∀ t timer, exec.world.timers t = some timer →
        (timer.queue = some q →
          timer.iterSlot ≠ (exec.world.clock q).currentSlot) →
          next.world.timers t = some timer ∧
            deliveriesOf t next.deliveries =
              deliveriesOf t exec.deliveries := by
    intro t timer htimer hother
    rw [← htimers] at htimer
    rw [← htimer, ← exec.deliveries_tickStarted q]
    apply hswept.waiting t
    intro found hfound
    have heq : found = timer :=
      Option.some.inj (hfound.1.symm.trans htimer)
    subst found
    exact hother hfound.2.1 hfound.2.2.1
  refine ⟨next, bound, ?_, hreturns⟩
  constructor
  · exact hswept.consistent
  · exact hswept.clock.trans hclock
  · exact hswept.ticks.trans (exec.ticks_tickStarted q)
  · intro t timer htimer hqueue
    by_cases hcurrent :
        timer.iterSlot = (exec.world.clock q).currentSlot
    · rw [← htimers] at htimer
      have hcell := hcons.cell htimer hqueue
      rw [hcurrent] at hcell
      have hpos := (List.getElem?_eq_some_iff.mp hcell).1
      rcases hswept.served t timer ⟨htimer, hqueue, hcurrent, hpos⟩ with
        ⟨record, hserved, _⟩
      exact ⟨record, hserved⟩
    · rcases hwaiting t timer htimer (fun _ => hcurrent) with
        ⟨hsame, hdeliveries⟩
      exact ⟨timer, htracks.served_of_waiting htime hslot htimer hqueue
        hcurrent hsame hdeliveries⟩
  · intro t timer htimer hidle
    exact hwaiting t timer htimer (fun hqueue => (hidle hqueue).elim)

/-- A record that is in the queue after the tick was served in it. -/
theorem Ticked.was_queued
    {exec next : Exec} {ref : Reference}
    (hticked : Ticked a b q exec next) (htracks : Tracks a b q exec ref)
    {t : TimerId} {record : Timer}
    (hrecord : next.world.timers t = some record)
    (hqueue : record.queue = some q) :
    ∃ timer, exec.world.timers t = some timer ∧ timer.queue = some q ∧
      Served a b q (exec.tickStarted q) t timer next record := by
  rcases htracks.live t with ⟨timer, htimer⟩
  by_cases hqueued : timer.queue = some q
  · rcases hticked.served t timer htimer hqueued with ⟨found, hfound⟩
    have heq : found = record :=
      Option.some.inj (hfound.timers.symm.trans hrecord)
    exact ⟨timer, htimer, hqueued, heq ▸ hfound⟩
  · have hsame := (hticked.idle t timer htimer hqueued).1
    have heq : timer = record :=
      Option.some.inj (hsame.symm.trans hrecord)
    exact (hqueued (heq ▸ hqueue)).elim

theorem Ticked.mem_deadlines
    {exec next : Exec} {ref : Reference}
    (hticked : Ticked a b q exec next) (htracks : Tracks a b q exec ref)
    (hnow :
      (exec.world.clock q).advance.lastUpdateTime =
        ref.lastUpdateTime + 2 ^ b)
    (deadline : Deadline) :
    deadline ∈ (ref.tick (2 ^ b)).deadlines ↔
      ∃ record, next.world.timers deadline.timer = some record ∧
        record.queue = some q ∧
        record.deadline deadline.timer = deadline := by
  simp only [Reference.tick, List.mem_map]
  constructor
  · intro hmem
    rcases hmem with ⟨before, hbefore, heq⟩
    rcases (htracks.mem_deadlines before).mp hbefore with
      ⟨timer, htimer, hqueue, hdeadline⟩
    rcases hticked.served _ timer htimer hqueue with ⟨record, hrecord⟩
    have hadvanced := hrecord.deadline
    rw [Exec.clock_tickStarted, hnow, hdeadline] at hadvanced
    subst deadline
    exact ⟨record, hrecord.timers, hrecord.queue, hadvanced⟩
  · intro hmem
    rcases hmem with ⟨record, hrecord, hqueue, heq⟩
    rcases hticked.was_queued htracks hrecord hqueue with
      ⟨timer, htimer, hqueued, hdone⟩
    have hadvanced := hdone.deadline
    rw [Exec.clock_tickStarted, hnow] at hadvanced
    refine ⟨timer.deadline deadline.timer, ?_, hadvanced.symm.trans heq⟩
    exact (htracks.mem_deadlines _).mpr ⟨timer, htimer, hqueued, rfl⟩

theorem Ticked.deliveriesOf_eq
    {exec next : Exec} {ref : Reference}
    (hticked : Ticked a b q exec next) (htracks : Tracks a b q exec ref)
    (hnow :
      (exec.world.clock q).advance.lastUpdateTime =
        ref.lastUpdateTime + 2 ^ b)
    (t : TimerId) :
    deliveriesOf t next.deliveries =
      deliveriesOf t (ref.tick (2 ^ b)).deliveries := by
  simp only [Reference.tick, deliveriesOf_append]
  rw [← htracks.deliveries t]
  rcases htracks.live t with ⟨timer, htimer⟩
  by_cases hqueued : timer.queue = some q
  · rcases hticked.served t timer htimer hqueued with ⟨record, hrecord⟩
    have hmem : timer.deadline t ∈ ref.deadlines :=
      (htracks.mem_deadlines _).mpr ⟨timer, htimer, hqueued, rfl⟩
    have hnew :=
      deliveriesOf_flatMap_of_mem (ref.lastUpdateTime + 2 ^ b)
        htracks.ordered.nodup hmem
    rw [hrecord.deliveries, Exec.deliveries_tickStarted,
      Exec.clock_tickStarted, hnow]
    exact congrArg _ hnew.symm
  · have hnone : t ∉ ref.deadlines.map Deadline.timer := by
      intro hmem
      rcases List.mem_map.mp hmem with ⟨deadline, hdeadline, heq⟩
      rcases (htracks.mem_deadlines deadline).mp hdeadline with
        ⟨found, hfound, hqueue, _⟩
      rw [heq] at hfound
      have hsame : found = timer :=
        Option.some.inj (hfound.symm.trans htimer)
      exact hqueued (hsame ▸ hqueue)
    rw [(hticked.idle t timer htimer hqueued).2,
      deliveriesOf_flatMap_of_not_mem _ hnone, List.append_nil]

theorem Tracks.tick
    {exec : Exec} {ref : Reference} (htracks : Tracks a b q exec ref)
    (ha : 1 ≤ a) (hab : a + b < 64)
    (hfits : ref.TickFits (2 ^ a) (2 ^ b)) :
    ∃ next bound, Tracks a b q next (ref.tick (2 ^ b)) ∧
      ∀ fuel, bound ≤ fuel → exec.tick quiet q fuel = .ok next := by
  have hlast := htracks.lastUpdateTime
  rcases htracks.shape.advance (by omega) (hlast ▸ hfits.1) with
    ⟨hshape, htime, _⟩
  have hnow :
      (exec.world.clock q).advance.lastUpdateTime =
        ref.lastUpdateTime + 2 ^ b := by
    rw [htime, hlast]
  rcases htracks.tick_ticked ha hab hfits with
    ⟨next, bound, hticked, hreturns⟩
  refine ⟨next, bound, ?_, hreturns⟩
  constructor
  · exact hticked.consistent
  · exact hticked.clock ▸ hshape
  · intro t
    rcases htracks.live t with ⟨timer, htimer⟩
    by_cases hqueued : timer.queue = some q
    · rcases hticked.served t timer htimer hqueued with ⟨record, hrecord⟩
      exact ⟨record, hrecord.timers⟩
    · exact ⟨timer, (hticked.idle t timer htimer hqueued).1⟩
  · intro t record hrecord hqueue
    rcases hticked.was_queued htracks hrecord hqueue with
      ⟨timer, _, _, hdone⟩
    rw [hticked.clock, ← Exec.clock_tickStarted]
    exact hdone.placed
  · rw [hticked.clock]
    exact hnow
  · exact hticked.mem_deadlines htracks hnow
  · exact htracks.ordered.tick (by positivity)
  · rw [hticked.ticks, hnow, htracks.ticks]
    rfl
  · exact hticked.deliveriesOf_eq htracks hnow

/-! ## Calls -/

theorem Reference.ticksTo_eq_zero
    {interval currentTime : ℕ} {ref : Reference} (hinterval : 0 < interval)
    (hle : currentTime + interval ≤ ref.lastUpdateTime) :
    ref.ticksTo interval currentTime = 0 := by
  unfold Reference.ticksTo
  rw [Nat.sub_eq_zero_of_le hle]
  exact Nat.div_eq_of_lt (by omega)

theorem Reference.ticksTo_tick
    {interval currentTime : ℕ} {ref : Reference} (hinterval : 0 < interval)
    (hlt : ref.lastUpdateTime < currentTime + interval) :
    ref.ticksTo interval currentTime =
      (ref.tick interval).ticksTo interval currentTime + 1 := by
  unfold Reference.ticksTo Reference.tick
  dsimp only
  by_cases hlast : ref.lastUpdateTime ≤ currentTime
  · have hsum :
        currentTime + interval - ref.lastUpdateTime + (interval - 1) =
          currentTime + interval - (ref.lastUpdateTime + interval) +
            (interval - 1) + interval := by
      omega
    rw [hsum, Nat.add_div_right _ hinterval]
  · rw [Nat.sub_eq_zero_of_le (by omega : _ ≤ ref.lastUpdateTime + interval),
      Nat.div_eq_of_lt (by omega : 0 + (interval - 1) < interval),
      Nat.div_eq_of_lt_le] <;>
      omega

theorem Tracks.updateLoop
    {exec : Exec} {ref : Reference} (htracks : Tracks a b q exec ref)
    (ha : 1 ≤ a) (hab : a + b < 64) {currentTime : ℕ}
    (hfits :
      ∀ k < ref.ticksTo (2 ^ b) currentTime,
        ((Reference.tick (2 ^ b))^[k] ref).TickFits (2 ^ a) (2 ^ b)) :
    ∃ next bound,
      Tracks a b q next
        ((Reference.tick (2 ^ b))^[ref.ticksTo (2 ^ b) currentTime] ref) ∧
      ∀ fuel, bound ≤ fuel →
        Exec.updateLoop quiet q (currentTime + 2 ^ b) fuel exec =
          .ok next := by
  have hpos : 0 < 2 ^ b := by positivity
  generalize hcount : ref.ticksTo (2 ^ b) currentTime = count at hfits
  induction count generalizing exec ref with
  | zero =>
      refine ⟨exec, 1, htracks, ?_⟩
      intro fuel hfuel
      have hdone :
          ¬ (exec.world.clock q).lastUpdateTime < currentTime + 2 ^ b := by
        intro hlt
        rw [htracks.lastUpdateTime] at hlt
        rw [Reference.ticksTo_tick hpos hlt] at hcount
        omega
      rw [show fuel = (fuel - 1) + 1 by omega]
      simp only [Exec.updateLoop, hdone, if_false]
  | succ count ih =>
      have hlt : ref.lastUpdateTime < currentTime + 2 ^ b := by
        by_contra hle
        rw [Reference.ticksTo_eq_zero hpos (by omega)] at hcount
        omega
      have hrest :
          (ref.tick (2 ^ b)).ticksTo (2 ^ b) currentTime = count := by
        rw [Reference.ticksTo_tick hpos hlt] at hcount
        omega
      rcases htracks.tick ha hab (hfits 0 (by omega)) with
        ⟨middle, tickBound, hmiddle, htick⟩
      rcases ih hmiddle hrest
          (fun k hk => hfits (k + 1) (by omega)) with
        ⟨next, bound, hnext, hloop⟩
      refine ⟨next, tickBound + bound + 1, hnext, ?_⟩
      intro fuel hfuel
      have hgo :
          (exec.world.clock q).lastUpdateTime < currentTime + 2 ^ b := by
        rw [htracks.lastUpdateTime]
        exact hlt
      rw [show fuel = (fuel - 1) + 1 by omega]
      simp only [Exec.updateLoop, hgo, if_true, htick (fuel - 1) (by omega)]
      exact hloop (fuel - 1) (by omega)

theorem Tracks.startClock
    {exec : Exec} {ref : Reference} (htracks : Tracks a b q exec ref)
    (currentTime : ℕ) :
    Tracks a b q (exec.startClock q currentTime)
      (ref.startClock currentTime) := by
  have hrunning := htracks.ordered.running
  have hne : (exec.world.clock q).lastUpdateTime ≠ 0 := by
    rw [htracks.lastUpdateTime]
    omega
  rw [Reference.startClock_of_running hrunning]
  simpa [Exec.startClock, hne] using htracks

theorem Tracks.update
    {exec : Exec} {ref : Reference} {currentTime : ℕ}
    (htracks :
      Tracks a b q (exec.startClock q currentTime)
        (ref.startClock currentTime))
    (ha : 1 ≤ a) (hab : a + b < 64)
    (hfits : ref.CallFits (2 ^ a) (2 ^ b) (.update currentTime)) :
    ∃ next bound,
      Tracks a b q next (ref.update (2 ^ b) currentTime) ∧
      ∀ fuel, bound ≤ fuel →
        exec.update quiet q fuel currentTime = .ok next := by
  rcases hfits with ⟨hsum, hticks⟩
  rcases htracks.updateLoop ha hab hticks with ⟨next, bound, hnext, hloop⟩
  refine ⟨next, bound, hnext, ?_⟩
  intro fuel hfuel
  unfold Exec.update
  dsimp only
  rw [htracks.shape.interval, toUInt64_natCast_add hsum]
  exact hloop fuel hfuel

/-- A call that changes the record of one timer, and its entry in the flat
list, keeps the two related. -/
theorem Tracks.replace
    {exec next : Exec} {ref after : Reference}
    (htracks : Tracks a b q exec ref) (t : TimerId) (record : Timer)
    (hcons : Consistent q next.world)
    (hclock : next.world.clock q = exec.world.clock q)
    (hothers :
      ∀ other, other ≠ t →
        next.world.timers other = exec.world.timers other)
    (hrecord : next.world.timers t = some record)
    (hplaced :
      record.queue = some q → Placed a b (exec.world.clock q) record)
    (hticks : next.ticks = exec.ticks)
    (hdeliveries : next.deliveries = exec.deliveries)
    (hafter :
      after.lastUpdateTime = ref.lastUpdateTime ∧
        after.ticks = ref.ticks ∧ after.deliveries = ref.deliveries)
    (hordered : after.Ordered)
    (hmem :
      ∀ deadline, deadline ∈ after.deadlines ↔
        deadline.timer ≠ t ∧ deadline ∈ ref.deadlines ∨
          record.queue = some q ∧ record.deadline t = deadline) :
    Tracks a b q next after := by
  constructor
  · exact hcons
  · exact hclock ▸ htracks.shape
  · intro other
    by_cases heq : other = t
    · exact ⟨record, heq ▸ hrecord⟩
    · rw [hothers other heq]
      exact htracks.live other
  · intro other timer htimer hqueue
    rw [hclock]
    by_cases heq : other = t
    · subst other
      have hsame : timer = record :=
        Option.some.inj (htimer.symm.trans hrecord)
      subst timer
      exact hplaced hqueue
    · rw [hothers other heq] at htimer
      exact htracks.placed other timer htimer hqueue
  · rw [hclock, hafter.1]
    exact htracks.lastUpdateTime
  · intro deadline
    rw [hmem, htracks.mem_deadlines]
    by_cases heq : deadline.timer = t
    · simp only [heq, ne_eq, not_true_eq_false, false_and, false_or,
        hrecord, Option.some.injEq, exists_eq_left']
    · have hne : record.deadline t ≠ deadline := by
        intro hsame
        exact heq (by rw [← hsame]; rfl)
      simp only [ne_eq, heq, not_false_eq_true, true_and, hne, and_false,
        or_false, hothers _ heq]
  · exact hordered
  · rw [hticks, hafter.2.1]
    exact htracks.ticks
  · intro t
    rw [hdeliveries, hafter.2.2]
    exact htracks.deliveries t

theorem Exec.perform_of_allowed
    {exec : Exec} {op : TimerOp} (hallowed : op.allowed exec.world = true) :
    exec.perform q op =
      exec.emit (.performed op) (op.perform q exec.world) := by
  simp [Exec.perform, hallowed]

theorem Tracks.cancel
    {exec : Exec} {ref : Reference} (htracks : Tracks a b q exec ref)
    (t : TimerId) :
    Tracks a b q (exec.perform q (.cancel (.timer t))) (ref.cancel t) := by
  rcases htracks.live t with ⟨timer, htimer⟩
  rw [Exec.perform_of_allowed (by simp [TimerOp.allowed, htimer])]
  have hcons := htracks.consistent
  have hlive :
      ∃ record,
        (exec.world.cancelTimer q (.timer t)).timers t = some record := by
    by_cases hqueued : exec.world.Queued t
    · rcases hqueued with ⟨found, hfound, hne⟩
      rw [hcons.cancelTimer_timers hfound (hcons.owner t found hfound hne)]
      exact ⟨_, Function.update_self ..⟩
    · rw [World.cancelTimer_of_not_queued hqueued]
      exact ⟨timer, htimer⟩
  rcases hlive with ⟨record, hrecord⟩
  have hidle : record.queue ≠ some q := by
    intro hqueue
    exact hcons.cancelTimer_not_queued t
      ⟨record, hrecord, by simp [hqueue]⟩
  apply htracks.replace t record
  · exact hcons.cancelTimer (.timer t)
  · exact World.clock_cancelTimer ..
  · intro other hne
    exact World.cancelTimer_timers_of_ne hne
  · exact hrecord
  · intro hqueue
    exact (hidle hqueue).elim
  · simp [Exec.ticks_emit, TimerEvent.tickTime]
  · simp [Exec.deliveries_emit, TimerEvent.delivery]
  · exact ⟨rfl, rfl, rfl⟩
  · exact htracks.ordered.cancel t
  · intro deadline
    simp [Reference.cancel, hidle, and_comm]

theorem Tracks.schedule
    {exec : Exec} {ref : Reference} (htracks : Tracks a b q exec ref)
    (ha : a < 64) {t : TimerId} {timerInterval : ℕ} {timeDelay : ℤ}
    (hfits :
      ref.CallFits (2 ^ a) (2 ^ b)
        (.op (.schedule t timerInterval timeDelay))) :
    Tracks a b q (exec.perform q (.schedule t timerInterval timeDelay))
      (ref.schedule t timerInterval timeDelay) := by
  rcases hfits with ⟨hinterval, hdelay, hnextFits, hgapFits⟩
  rcases htracks.live t with ⟨timer, htimer⟩
  rw [Exec.perform_of_allowed (by simp [TimerOp.allowed, htimer])]
  have hcons := htracks.consistent
  have hlast := htracks.lastUpdateTime
  have hnext :
      toUInt64 (timeDelay + timerInterval +
          (exec.world.clock q).lastUpdateTime) =
        (ref.lastUpdateTime + timerInterval + timeDelay).toNat := by
    rw [hlast, toUInt64_of_bounds (by omega) (by omega)]
    omega
  have hgap :
      (ref.lastUpdateTime + timerInterval + timeDelay).toNat -
          (exec.world.clock q).lastUpdateTime =
        (timerInterval + timeDelay).toNat := by
    omega
  have hsum :
      (timerInterval + timeDelay).toNat + 2 ^ a * 2 ^ b <
        18446744073709551616 := by
    omega
  have hslot :
      (exec.world.clock q).toSlot timerInterval timeDelay =
        (exec.world.clock q).slotAhead a b
          (timerInterval + timeDelay).toNat := by
    apply htracks.shape.toSlot ha _ hsum
    omega
  have htimers :=
    Consistent.scheduleTimer_timers (q := q) htimer timerInterval timeDelay
  rw [hnext, hslot] at htimers
  apply htracks.replace t _
  · exact hcons.scheduleTimer t timerInterval timeDelay
  · exact World.clock_scheduleTimer ..
  · intro other hne
    exact World.scheduleTimer_timers_of_ne hne timerInterval timeDelay
  · exact (congrFun htimers t).trans (Function.update_self ..)
  · intro _
    constructor
    · exact hinterval
    · dsimp only
      omega
    · dsimp only
      omega
    · dsimp only
      rw [hgap]
      exact hsum
    · dsimp only
      rw [hgap]
  · simp [Exec.ticks_emit, TimerEvent.tickTime]
  · simp [Exec.deliveries_emit, TimerEvent.delivery]
  · exact ⟨rfl, rfl, rfl⟩
  · exact htracks.ordered.schedule t hinterval hdelay
  · intro deadline
    simp only [Reference.schedule, Reference.cancel, List.mem_cons,
      List.mem_filter, decide_eq_true_eq, Timer.deadline, true_and]
    constructor
    · intro hmem
      rcases hmem with hnew | hold
      · exact .inr hnew.symm
      · exact .inl ⟨hold.2, hold.1⟩
    · intro hmem
      rcases hmem with hold | hnew
      · exact .inr ⟨hold.2, hold.1⟩
      · exact .inl hnew.symm

theorem Tracks.cancel_null
    {exec : Exec} {ref : Reference} (htracks : Tracks a b q exec ref) :
    Tracks a b q (exec.perform q (.cancel .null)) ref := by
  rw [Exec.perform_of_allowed rfl]
  constructor
  · exact htracks.consistent
  · exact htracks.shape
  · exact htracks.live
  · exact htracks.placed
  · exact htracks.lastUpdateTime
  · exact htracks.mem_deadlines
  · exact htracks.ordered
  · simpa [Exec.ticks_emit, TimerEvent.tickTime] using htracks.ticks
  · simpa [Exec.deliveries_emit, TimerEvent.delivery] using
      htracks.deliveries

theorem Tracks.perform
    {exec : Exec} {ref : Reference} (htracks : Tracks a b q exec ref)
    (ha : a < 64) {op : TimerOp}
    (hfits : ref.CallFits (2 ^ a) (2 ^ b) (.op op)) :
    Tracks a b q (exec.perform q op) (ref.call (2 ^ b) (.op op)) := by
  cases op with
  | create t => exact hfits.elim
  | destroy t => exact hfits.elim
  | schedule t timerInterval timeDelay => exact htracks.schedule ha hfits
  | cancel ptr =>
      cases ptr with
      | null => exact htracks.cancel_null
      | deleted => exact (hfits rfl).elim
      | timer t => exact htracks.cancel t

theorem Tracks.runCalls
    {exec : Exec} {ref : Reference} (htracks : Tracks a b q exec ref)
    (ha : 1 ≤ a) (hab : a + b < 64) {calls : List TimerCall}
    (hfits : Reference.CallsFit (2 ^ a) (2 ^ b) calls ref) :
    ∃ next bound, Tracks a b q next (ref.runCalls (2 ^ b) calls) ∧
      ∀ fuel, bound ≤ fuel →
        Exec.runCalls quiet q fuel calls exec = .ok next := by
  induction calls generalizing exec ref with
  | nil => exact ⟨exec, 0, htracks, fun _ _ => rfl⟩
  | cons call calls ih =>
      rcases hfits with ⟨hcall, hrest⟩
      cases call with
      | op op => exact ih (htracks.perform (by omega) hcall) hrest
      | update currentTime =>
          rcases (htracks.startClock currentTime).update ha hab hcall with
            ⟨middle, updateBound, hmiddle, hupdate⟩
          rcases ih hmiddle hrest with ⟨next, bound, hnext, hcalls⟩
          refine ⟨next, updateBound + bound, hnext, ?_⟩
          intro fuel hfuel
          simp only [Exec.runCalls, hupdate fuel (by omega)]
          exact hcalls fuel (by omega)

/-! ## Whole histories -/

/-- The queue has just been constructed, and so have all timers. -/
def World.populated (queue : TimerQueue) : World :=
  { World.initial queue with timers := fun _ => some Timer.new }

theorem WheelShape.ofExponents (hab : a + b < 64) (time : ℕ) :
    WheelShape a b
      { WheelClock.ofExponents a b with lastUpdateTime := time } := by
  have hcircle := two_pow_lt_wrap hab
  rw [pow_add] at hcircle
  constructor
  · rfl
  · rfl
  · rfl
  · dsimp only [WheelClock.ofExponents]
    rw [toUInt64_of_bounds (by positivity) (by exact_mod_cast hcircle)]
    exact_mod_cast Int.toNat_natCast (2 ^ a * 2 ^ b)
  · dsimp only [WheelClock.ofExponents]
    positivity

theorem World.populated_queue
    {queue : TimerQueue} {t : TimerId} {timer : Timer}
    (htimer : (populated queue).timers t = some timer) :
    timer.queue = none := by
  have hnew : Timer.new = timer := Option.some.inj htimer
  rw [← hnew]
  rfl

theorem Consistent.populated
    (hab : a + b < 64) {queue : TimerQueue}
    (hclock : queue.toWheelClock = .ofExponents a b)
    (hlists :
      ∀ slot, queue.queues slot = UnorderedList.new.setDeleted .deleted) :
    Consistent q (World.populated queue) := by
  have hsize : queue.slotSize = 2 ^ a := by
    rw [hclock]
    rfl
  apply Consistent.of_fresh
  · change 0 < queue.slotSize
    rw [hsize]
    positivity
  · change queue.slotSize ≤ _
    rw [hsize]
    exact (two_pow_lt_wrap (by omega)).le
  · intro t timer htimer
    exact World.populated_queue htimer
  · exact hlists

theorem Tracks.start
    (hab : a + b < 64) {queue : TimerQueue}
    (hclock : queue.toWheelClock = .ofExponents a b)
    (hlists :
      ∀ slot, queue.queues slot = UnorderedList.new.setDeleted .deleted)
    {start : ℕ} (hstart : 0 < start) :
    Tracks a b q
      ((Exec.start (World.populated queue)).startClock q start)
      (Reference.initial.startClock start) := by
  let world := World.populated queue
  have hzero : queue.lastUpdateTime = 0 := by
    rw [hclock]
    rfl
  have hstarted :
      ((Exec.start world).startClock q start) =
        { world :=
            world.setClock q
              { queue.toWheelClock with lastUpdateTime := start }
          trace := [] } := by
    have hsame : ((Exec.start world).world.clock q) = queue.toWheelClock := rfl
    simp only [Exec.startClock, hsame]
    rw [if_pos hzero]
    rfl
  have hcons : Consistent q world := .populated hab hclock hlists
  have hidle :
      ∀ t timer, world.timers t = some timer → timer.queue = none := by
    intro t timer htimer
    exact World.populated_queue htimer
  rw [hstarted]
  constructor
  · exact hcons.of_clock rfl
  · rw [World.clock_setClock, hclock]
    exact .ofExponents hab start
  · intro t
    exact ⟨Timer.new, rfl⟩
  · intro t timer htimer hqueue
    simp [hidle t timer htimer] at hqueue
  · rw [World.clock_setClock]
    rfl
  · intro deadline
    simp only [Reference.startClock, Reference.initial, if_true,
      List.not_mem_nil, false_iff]
    intro hmem
    rcases hmem with ⟨timer, htimer, hqueue, _⟩
    simp [hidle deadline.timer timer htimer] at hqueue
  · constructor <;>
      simp [Reference.startClock, Reference.initial, hstart]
  · rfl
  · intro t
    rfl

theorem Reference.CallsFit.split
    {slotSize interval : ℕ} {first second : List TimerCall}
    {ref : Reference}
    (hfits : CallsFit slotSize interval (first ++ second) ref) :
    CallsFit slotSize interval first ref ∧
      CallsFit slotSize interval second (ref.runCalls interval first) := by
  induction first generalizing ref with
  | nil => exact ⟨trivial, hfits⟩
  | cons call calls ih =>
      rcases ih hfits.2 with ⟨hfirst, hsecond⟩
      exact ⟨⟨hfits.1, hfirst⟩, hsecond⟩

theorem Reference.runCalls_schedule
    (interval : ℕ) (ref : Reference) (before after : List TimerCall)
    (t : TimerId) (timerInterval : ℕ) (timeDelay : ℤ) :
    ref.runCalls interval
        (before ++ .op (.schedule t timerInterval timeDelay) :: after) =
      ((ref.runCalls interval before).schedule t timerInterval
        timeDelay).runCalls interval after := by
  simp only [runCalls, List.foldl_append, List.foldl_cons]
  rfl

theorem Reference.DeliveredSince.runCalls
    {slotSize interval : ℕ} {t : TimerId} {first timerInterval : ℕ}
    {before : List Delivery} {ref : Reference}
    (hdelivered :
      ref.DeliveredSince interval t first timerInterval before)
    (hordered : ref.Ordered) (hinterval : 0 < interval)
    {calls : List TimerCall}
    (hfits : CallsFit slotSize interval calls ref)
    (huntouched : ∀ call ∈ calls, ¬ call.Touches t) :
    (ref.runCalls interval calls).DeliveredSince interval t first
      timerInterval before := by
  induction calls generalizing ref with
  | nil => exact hdelivered
  | cons call calls ih =>
      apply ih
      · exact hdelivered.call hordered hinterval hfits.1
          (huntouched call (by simp))
      · exact hordered.call hinterval hfits.1
      · exact hfits.2
      · intro other hother
        exact huntouched other (by simp [hother])

theorem Tracks.deliveries_perm
    {exec : Exec} {ref : Reference} (htracks : Tracks a b q exec ref) :
    exec.deliveries.Perm ref.deliveries := by
  rw [List.perm_iff_count]
  intro delivery
  have hcount :
      ∀ deliveries : List Delivery,
        deliveries.count delivery =
          (deliveriesOf delivery.timer deliveries).count delivery := by
    intro deliveries
    unfold deliveriesOf
    rw [List.count_filter (by simp)]
  rw [hcount, hcount ref.deliveries, htracks.deliveries]

theorem Tracks.of_history
    (ha : 1 ≤ a) (hab : a + b < 64) {queue : TimerQueue}
    (hclock : queue.toWheelClock = .ofExponents a b)
    (hlists :
      ∀ slot, queue.queues slot = UnorderedList.new.setDeleted .deleted)
    {start : ℕ} (hstart : 0 < start) {calls : List TimerCall}
    (hfits :
      Reference.CallsFit (2 ^ a) (2 ^ b) (.update start :: calls)
        Reference.initial) :
    ∃ exec bound,
      Tracks a b q exec
        (Reference.initial.runCalls (2 ^ b) (.update start :: calls)) ∧
      ∀ fuel, bound ≤ fuel →
        Exec.runCalls quiet q fuel (.update start :: calls)
          (Exec.start (World.populated queue)) = .ok exec := by
  have hbegin := Tracks.start (q := q) hab hclock hlists hstart
  rcases hbegin.update ha hab hfits.1 with
    ⟨first, firstBound, hfirst, hupdate⟩
  rcases hfirst.runCalls ha hab hfits.2 with ⟨exec, bound, hexec, hcalls⟩
  refine ⟨exec, firstBound + bound, hexec, ?_⟩
  intro fuel hfuel
  simp only [Exec.runCalls, hupdate fuel (by omega)]
  exact hcalls fuel (by omega)

/-- The wheel makes the calls of the flat list, tick by tick.  From the moment
a timer is scheduled until the program touches it again, its deadlines are
delivered one after the other, each once, in a tick that ends at most one
interval later; and no queued timer is ever overdue between two calls. -/
theorem timerWheel_refines_reference
    {a b : ℕ} (ha : 1 ≤ a) (hab : a + b < 64) (q : QueueId)
    {start : ℕ} (hstart : 0 < start) {calls : List TimerCall}
    (hfits :
      Reference.CallsFit (2 ^ a) (2 ^ b) (.update start :: calls)
        Reference.initial) :
    ∃ queue, TimerQueue.new (2 ^ a) (2 ^ b) = some queue ∧
      ∃ exec bound,
        (∀ fuel, bound ≤ fuel →
          Exec.runCalls quiet q fuel (.update start :: calls)
            (Exec.start (World.populated queue)) = .ok exec) ∧
        exec.ticks =
          (Reference.initial.runCalls (2 ^ b)
            (.update start :: calls)).ticks ∧
        exec.ticks.Pairwise (· < ·) ∧
        (∀ now,
          (exec.deliveries.filter (·.tick = now)).Perm
            ((Reference.initial.runCalls (2 ^ b)
              (.update start :: calls)).deliveries.filter
                (·.tick = now))) ∧
        (∀ t timer, exec.world.timers t = some timer →
          timer.queue = some q →
            (exec.world.clock q).lastUpdateTime ≤ timer.nextHandleTime) ∧
        ∀ (before : List TimerCall) (t : TimerId) (timerInterval : ℕ)
            (timeDelay : ℤ) (after : List TimerCall),
          calls =
              before ++ .op (.schedule t timerInterval timeDelay) :: after →
            (∀ call ∈ after, ¬ call.Touches t) →
              ∃ middle middleBound,
                (∀ fuel, middleBound ≤ fuel →
                  Exec.runCalls quiet q fuel (.update start :: before)
                    (Exec.start (World.populated queue)) = .ok middle) ∧
                ∃ (first : ℕ) (timer : Timer) (sent : List Delivery),
                  (first : ℤ) =
                      (middle.world.clock q).lastUpdateTime +
                        timerInterval + timeDelay ∧
                    exec.world.timers t = some timer ∧
                    timer.queue = some q ∧
                    deliveriesOf t exec.deliveries =
                      deliveriesOf t middle.deliveries ++ sent ∧
                    OnTime (2 ^ b) first timerInterval
                      timer.nextHandleTime sent := by
  have hinterval : 0 < 2 ^ b := by positivity
  rcases new_two_pow a (by omega : b < 64) with
    ⟨queue, hnew, hclock, hlists⟩
  rcases Tracks.of_history (q := q) ha hab hclock hlists hstart hfits with
    ⟨exec, bound, htracks, hreturns⟩
  refine ⟨queue, hnew, exec, bound, hreturns, htracks.ticks, ?_, ?_, ?_, ?_⟩
  · rw [htracks.ticks]
    exact htracks.ordered.ticks_increasing
  · intro now
    exact htracks.deliveries_perm.filter _
  · intro t timer htimer hqueue
    exact (htracks.placed t timer htimer hqueue).le_next
  · intro before t timerInterval timeDelay after hcalls huntouched
    subst calls
    rw [← List.cons_append] at hfits
    rcases hfits.split with ⟨hbefore, hcall, hafter⟩
    rcases Tracks.of_history (q := q) ha hab hclock hlists hstart
        hbefore with
      ⟨middle, middleBound, hmiddle, hmiddleReturns⟩
    refine ⟨middle, middleBound, hmiddleReturns, ?_⟩
    have hlater :=
      (Reference.DeliveredSince.schedule (2 ^ b) _ t timerInterval
        timeDelay).runCalls
          (hmiddle.ordered.schedule t hcall.1 hcall.2.1) hinterval hafter
          huntouched
    rw [← Reference.runCalls_schedule] at hlater
    rcases hlater with ⟨next, sent, hmem, hsent, hontime⟩
    rcases (htracks.mem_deadlines _).mp hmem with
      ⟨timer, htimer, hqueue, hdeadline⟩
    have hnext : timer.nextHandleTime = next :=
      congrArg Deadline.next hdeadline
    refine ⟨_, timer, sent, ?_, htimer, hqueue, ?_, hnext ▸ hontime⟩
    · have hdelay := hcall.2.1
      rw [hmiddle.lastUpdateTime]
      omega
    · rw [htracks.deliveries, hmiddle.deliveries]
      exact hsent

/-- A wheel of two slots: one timer has a first deadline in the current
interval, the other lies many revolutions ahead and is cancelled in time. -/
theorem timerWheel_refines_reference_two_slots :
    Reference.CallsFit (2 ^ 1) (2 ^ 1)
        [.update 5, .op (.schedule 7 3 (-2)), .op (.schedule 8 40 0),
          .update 10, .op (.cancel (.timer 8)), .update 13]
        Reference.initial ∧
      ∃ queue, TimerQueue.new (2 ^ 1) (2 ^ 1) = some queue ∧
        ∃ exec bound,
          (∀ fuel, bound ≤ fuel →
            Exec.runCalls quiet 0 fuel
              [.update 5, .op (.schedule 7 3 (-2)), .op (.schedule 8 40 0),
                .update 10, .op (.cancel (.timer 8)), .update 13]
              (Exec.start (World.populated queue)) = .ok exec) ∧
          exec.ticks = [7, 9, 11, 13, 15] ∧
          (exec.deliveries.filter (·.tick = 15)).Perm
            [{ tick := 15, timer := 7, time := 14 }] := by
  have hfits :
      Reference.CallsFit (2 ^ 1) (2 ^ 1)
        [.update 5, .op (.schedule 7 3 (-2)), .op (.schedule 8 40 0),
          .update 10, .op (.cancel (.timer 8)), .update 13]
        Reference.initial := by
    decide
  rcases timerWheel_refines_reference (by decide) (by decide) 0
      (by decide) hfits with
    ⟨queue, hnew, exec, bound, hreturns, hticks, _, hdeliveries, _⟩
  exact ⟨hfits, queue, hnew, exec, bound, hreturns, hticks.trans (by decide),
    hdeliveries 15⟩

end GreenTurtle.Timers
