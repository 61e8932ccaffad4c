import GreenTurtle.TimerModel
import Mathlib.Tactic

/-!
# The slot-less reference for the timer wheel

What the wheel is for, without slots, cells or masks: a flat list of timers
with their next deadlines.  A tick moves the time by one interval to `now`,
takes every timer whose deadline lies before `now`, and delivers its deadlines
up to and including `now`.  The wheel is compared with this reference elsewhere;
here it is shown to deliver every deadline once, in order, and in time.
-/

namespace GreenTurtle.Timers

structure Deadline where
  timer : TimerId
  interval : ℕ
  next : ℕ
  deriving DecidableEq

/-- One call of `OnTimeOut`, with the time of the tick in which it happens. -/
structure Delivery where
  tick : ℕ
  timer : TimerId
  time : ℕ
  deriving DecidableEq

/-- The deadlines delivered in the tick that moves the time to `now`. -/
def Deadline.dueTimes (now : ℕ) (deadline : Deadline) : List ℕ :=
  if deadline.next < now then
    (List.range ((now - deadline.next) / deadline.interval + 1)).map
      (fun i => deadline.next + i * deadline.interval)
  else []

def Deadline.advance (now : ℕ) (deadline : Deadline) : Deadline :=
  { deadline with
    next :=
      deadline.next + (deadline.dueTimes now).length * deadline.interval }

def Deadline.deliver (now : ℕ) (deadline : Deadline) : List Delivery :=
  (deadline.dueTimes now).map fun time =>
    { tick := now, timer := deadline.timer, time := time }

structure Reference where
  lastUpdateTime : ℕ
  deadlines : List Deadline
  ticks : List ℕ
  deliveries : List Delivery

namespace Reference

def initial : Reference where
  lastUpdateTime := 0
  deadlines := []
  ticks := []
  deliveries := []

def cancel (t : TimerId) (ref : Reference) : Reference :=
  { ref with deadlines := ref.deadlines.filter (·.timer ≠ t) }

def schedule
    (t : TimerId) (timerInterval : ℕ) (timeDelay : ℤ)
    (ref : Reference) : Reference :=
  { ref with
    deadlines :=
      { timer := t
        interval := timerInterval
        next := (ref.lastUpdateTime + timerInterval + timeDelay).toNat } ::
        (ref.cancel t).deadlines }

def tick (interval : ℕ) (ref : Reference) : Reference :=
  let now := ref.lastUpdateTime + interval
  { lastUpdateTime := now
    deadlines := ref.deadlines.map (Deadline.advance now)
    ticks := ref.ticks ++ [now]
    deliveries :=
      ref.deliveries ++ ref.deadlines.flatMap (Deadline.deliver now) }

def startClock (currentTime : ℕ) (ref : Reference) : Reference :=
  if ref.lastUpdateTime = 0 then
    { ref with lastUpdateTime := currentTime }
  else ref

/-- The number of ticks that bring the time to `currentTime + interval`. -/
def ticksTo (interval currentTime : ℕ) (ref : Reference) : ℕ :=
  (currentTime + interval - ref.lastUpdateTime + (interval - 1)) / interval

def update (interval currentTime : ℕ) (ref : Reference) : Reference :=
  let started := ref.startClock currentTime
  (tick interval)^[started.ticksTo interval currentTime] started

def call (interval : ℕ) (ref : Reference) : TimerCall → Reference
  | .op (.schedule t timerInterval timeDelay) =>
      ref.schedule t timerInterval timeDelay
  | .op (.cancel (.timer t)) => ref.cancel t
  | .op _ => ref
  | .update currentTime => ref.update interval currentTime

def runCalls
    (interval : ℕ) (calls : List TimerCall) (ref : Reference) : Reference :=
  calls.foldl (call interval) ref

/-! ## Histories in which no 64-bit sum overflows -/

/-- In this tick neither the clock, nor the next deadline of a timer that
fires, nor the sum from which its slot is computed reaches `2 ^ 64`. -/
def TickFits (slotSize interval : ℕ) (ref : Reference) : Prop :=
  ref.lastUpdateTime + interval < 18446744073709551616 ∧
    ∀ deadline ∈ ref.deadlines,
      deadline.next < ref.lastUpdateTime + interval →
        (deadline.advance (ref.lastUpdateTime + interval)).next <
            18446744073709551616 ∧
          (deadline.advance (ref.lastUpdateTime + interval)).next -
              (ref.lastUpdateTime + interval) + slotSize * interval <
            18446744073709551616

/-- The calls of the history: positive intervals, first deadlines that are
not in the past, and no overflow. -/
def CallFits
    (slotSize interval : ℕ) (ref : Reference) : TimerCall → Prop
  | .op (.schedule _ timerInterval timeDelay) =>
      1 ≤ timerInterval ∧ 0 ≤ timerInterval + timeDelay ∧
        ref.lastUpdateTime + (timerInterval + timeDelay) <
          18446744073709551616 ∧
        timerInterval + timeDelay + (slotSize * interval : ℕ) <
          18446744073709551616
  | .op (.cancel ptr) => ptr ≠ .deleted
  | .op (.create _) => False
  | .op (.destroy _) => False
  | .update currentTime =>
      currentTime + interval < 18446744073709551616 ∧
        ∀ k < (ref.startClock currentTime).ticksTo interval currentTime,
          TickFits slotSize interval
            ((tick interval)^[k] (ref.startClock currentTime))

def CallsFit
    (slotSize interval : ℕ) : List TimerCall → Reference → Prop
  | [], _ => True
  | call :: calls, ref =>
      CallFits slotSize interval ref call ∧
        CallsFit slotSize interval calls (ref.call interval call)

instance (slotSize interval : ℕ) (ref : Reference) :
    Decidable (TickFits slotSize interval ref) :=
  instDecidableAnd

instance (slotSize interval : ℕ) (ref : Reference) (call : TimerCall) :
    Decidable (CallFits slotSize interval ref call) :=
  match call with
  | .op (.schedule _ _ _) => instDecidableAnd
  | .op (.cancel _) => instDecidableNot
  | .op (.create _) => instDecidableFalse
  | .op (.destroy _) => instDecidableFalse
  | .update _ => instDecidableAnd

instance decidableCallsFit (slotSize interval : ℕ) :
    ∀ (calls : List TimerCall) (ref : Reference),
      Decidable (CallsFit slotSize interval calls ref)
  | [], _ => instDecidableTrue
  | call :: calls, ref =>
      have := decidableCallsFit slotSize interval calls
        (ref.call interval call)
      instDecidableAnd

end Reference

/-! ## Single deadlines -/

theorem Deadline.length_dueTimes
    {now : ℕ} {deadline : Deadline} (hdue : deadline.next < now) :
    (deadline.dueTimes now).length =
      (now - deadline.next) / deadline.interval + 1 := by
  simp [Deadline.dueTimes, hdue]

theorem Deadline.dueTimes_bounds
    {now time : ℕ} (deadline : Deadline)
    (hmem : time ∈ deadline.dueTimes now) :
    deadline.next ≤ time ∧ time ≤ now := by
  unfold Deadline.dueTimes at hmem
  split at hmem
  next hdue =>
    simp only [List.mem_map, List.mem_range] at hmem
    rcases hmem with ⟨i, hi, htime⟩
    have hle : i * deadline.interval ≤ now - deadline.next := by
      calc
        i * deadline.interval ≤
            (now - deadline.next) / deadline.interval *
              deadline.interval :=
          Nat.mul_le_mul_right _ (by omega)
        _ ≤ now - deadline.next := Nat.div_mul_le_self _ _
    omega
  next => simp at hmem

theorem Deadline.dueTimes_eq_range (now : ℕ) (deadline : Deadline) :
    deadline.dueTimes now =
      (List.range (deadline.dueTimes now).length).map
        (fun i => deadline.next + i * deadline.interval) := by
  unfold Deadline.dueTimes
  split
  next => simp
  next => rfl

theorem Deadline.lt_advance_next
    {now : ℕ} (deadline : Deadline) (hinterval : 1 ≤ deadline.interval)
    (hne : deadline.next ≠ now) :
    now < (deadline.advance now).next := by
  unfold Deadline.advance
  by_cases hdue : deadline.next < now
  · rw [Deadline.length_dueTimes hdue]
    have hlt :
        now - deadline.next <
          ((now - deadline.next) / deadline.interval + 1) *
            deadline.interval := by
      rw [Nat.add_one_mul]
      exact Nat.lt_div_mul_add (by omega)
    dsimp only
    omega
  · simp [Deadline.dueTimes, hdue]
    omega

theorem Deadline.advance_of_le
    {now : ℕ} (deadline : Deadline) (hle : now ≤ deadline.next) :
    deadline.advance now = deadline := by
  have hdue : ¬ deadline.next < now := by omega
  simp [Deadline.advance, Deadline.dueTimes, hdue]

/-- After the tick the next deadline is no longer in the past. -/
theorem Deadline.le_advance_next
    {now : ℕ} (deadline : Deadline) (hinterval : 1 ≤ deadline.interval) :
    now ≤ (deadline.advance now).next := by
  by_cases heq : deadline.next = now
  · rw [deadline.advance_of_le heq.ge]
    exact heq.ge
  · exact (deadline.lt_advance_next hinterval heq).le

theorem Deadline.deliver_of_le
    {now : ℕ} (deadline : Deadline) (hle : now ≤ deadline.next) :
    deadline.deliver now = [] := by
  have hdue : ¬ deadline.next < now := by omega
  simp [Deadline.deliver, Deadline.dueTimes, hdue]

/-! ## The deliveries of one timer -/

def deliveriesOf (t : TimerId) (deliveries : List Delivery) :
    List Delivery :=
  deliveries.filter (·.timer = t)

@[simp] theorem deliveriesOf_append
    (t : TimerId) (first second : List Delivery) :
    deliveriesOf t (first ++ second) =
      deliveriesOf t first ++ deliveriesOf t second :=
  List.filter_append ..

theorem deliveriesOf_deliver
    (t : TimerId) (now : ℕ) (deadline : Deadline) :
    deliveriesOf t (deadline.deliver now) =
      if deadline.timer = t then deadline.deliver now else [] := by
  unfold deliveriesOf Deadline.deliver
  by_cases heq : deadline.timer = t <;>
    simp [List.filter_map, Function.comp_def, heq]

theorem deliveriesOf_flatMap_of_not_mem
    {t : TimerId} (now : ℕ) {deadlines : List Deadline}
    (hnone : t ∉ deadlines.map Deadline.timer) :
    deliveriesOf t (deadlines.flatMap (Deadline.deliver now)) = [] := by
  induction deadlines with
  | nil => rfl
  | cons deadline deadlines ih =>
      simp only [List.map_cons, List.mem_cons, not_or] at hnone
      simp [deliveriesOf_deliver, Ne.symm hnone.1, ih hnone.2]

theorem deliveriesOf_flatMap_of_mem
    (now : ℕ) {deadlines : List Deadline} {deadline : Deadline}
    (hnodup : (deadlines.map Deadline.timer).Nodup)
    (hmem : deadline ∈ deadlines) :
    deliveriesOf deadline.timer
        (deadlines.flatMap (Deadline.deliver now)) =
      deadline.deliver now := by
  induction deadlines with
  | nil => simp at hmem
  | cons first rest ih =>
      simp only [List.map_cons, List.nodup_cons] at hnodup
      simp only [List.flatMap_cons, deliveriesOf_append]
      simp only [List.mem_cons] at hmem
      rcases hmem with heq | hrest
      · subst first
        rw [deliveriesOf_flatMap_of_not_mem now hnodup.1,
          deliveriesOf_deliver]
        simp
      · have hne : first.timer ≠ deadline.timer := by
          intro heq
          apply hnodup.1
          rw [heq]
          exact List.mem_map_of_mem hrest
        rw [ih hnodup.2 hrest, deliveriesOf_deliver]
        simp [hne]

namespace Reference

/-- Each timer has one deadline, and none of them is in the past. -/
structure Ordered (ref : Reference) : Prop where
  running : 0 < ref.lastUpdateTime
  nodup : (ref.deadlines.map Deadline.timer).Nodup
  interval_pos : ∀ deadline ∈ ref.deadlines, 1 ≤ deadline.interval
  le_next :
    ∀ deadline ∈ ref.deadlines, ref.lastUpdateTime ≤ deadline.next
  ticks_increasing : ref.ticks.Pairwise (· < ·)
  ticks_le : ∀ now ∈ ref.ticks, now ≤ ref.lastUpdateTime

theorem Ordered.tick
    {ref : Reference} (hordered : ref.Ordered) {interval : ℕ}
    (hinterval : 0 < interval) :
    (ref.tick interval).Ordered := by
  constructor
  · simp only [Reference.tick]
    omega
  · simp only [Reference.tick, List.map_map]
    exact hordered.nodup
  · intro deadline hmem
    simp only [Reference.tick, List.mem_map] at hmem
    rcases hmem with ⟨before, hbefore, heq⟩
    subst deadline
    exact hordered.interval_pos before hbefore
  · intro deadline hmem
    simp only [Reference.tick, List.mem_map] at hmem
    rcases hmem with ⟨before, hbefore, heq⟩
    subst deadline
    exact before.le_advance_next (hordered.interval_pos before hbefore)
  · simp only [Reference.tick]
    rw [List.pairwise_append]
    refine ⟨hordered.ticks_increasing, List.pairwise_singleton _ _, ?_⟩
    intro earlier hearlier now hnow
    have hle := hordered.ticks_le earlier hearlier
    simp only [List.mem_singleton] at hnow
    omega
  · intro now hmem
    simp only [Reference.tick, List.mem_append,
      List.mem_singleton] at hmem ⊢
    rcases hmem with hold | hnew
    · have hle := hordered.ticks_le now hold
      omega
    · omega

theorem Ordered.tick_iterate
    {ref : Reference} (hordered : ref.Ordered) {interval : ℕ}
    (hinterval : 0 < interval) (count : ℕ) :
    ((Reference.tick interval)^[count] ref).Ordered := by
  induction count with
  | zero => exact hordered
  | succ count ih =>
      rw [Function.iterate_succ_apply']
      exact ih.tick hinterval

theorem startClock_of_running
    {ref : Reference} (hrunning : 0 < ref.lastUpdateTime)
    (currentTime : ℕ) :
    ref.startClock currentTime = ref := by
  have hne : ref.lastUpdateTime ≠ 0 := by omega
  simp [startClock, hne]

theorem Ordered.cancel
    {ref : Reference} (hordered : ref.Ordered) (t : TimerId) :
    (ref.cancel t).Ordered := by
  have hsub :
      ∀ deadline ∈ (ref.cancel t).deadlines,
        deadline ∈ ref.deadlines := by
    intro deadline hmem
    exact (List.mem_filter.mp hmem).1
  constructor
  · exact hordered.running
  · exact hordered.nodup.sublist (List.filter_sublist.map _)
  · intro deadline hmem
    exact hordered.interval_pos deadline (hsub deadline hmem)
  · intro deadline hmem
    exact hordered.le_next deadline (hsub deadline hmem)
  · exact hordered.ticks_increasing
  · exact hordered.ticks_le

theorem Ordered.schedule
    {ref : Reference} (hordered : ref.Ordered) (t : TimerId)
    {timerInterval : ℕ} {timeDelay : ℤ} (hinterval : 1 ≤ timerInterval)
    (hdelay : 0 ≤ timerInterval + timeDelay) :
    (ref.schedule t timerInterval timeDelay).Ordered := by
  have hcancel := hordered.cancel t
  constructor
  · exact hordered.running
  · simp only [Reference.schedule, List.map_cons, List.nodup_cons]
    refine ⟨?_, hcancel.nodup⟩
    simp [Reference.cancel]
  · intro deadline hmem
    simp only [Reference.schedule, List.mem_cons] at hmem
    rcases hmem with heq | hold
    · subst deadline
      exact hinterval
    · exact hcancel.interval_pos deadline hold
  · intro deadline hmem
    simp only [Reference.schedule, List.mem_cons] at hmem ⊢
    rcases hmem with heq | hold
    · subst deadline
      dsimp only
      omega
    · exact hcancel.le_next deadline hold
  · exact hordered.ticks_increasing
  · exact hordered.ticks_le

theorem Ordered.call
    {ref : Reference} (hordered : ref.Ordered)
    {slotSize interval : ℕ} (hinterval : 0 < interval)
    {call : TimerCall} (hfits : CallFits slotSize interval ref call) :
    (ref.call interval call).Ordered := by
  cases call with
  | update currentTime =>
      simp only [Reference.call, Reference.update,
        startClock_of_running hordered.running]
      exact hordered.tick_iterate hinterval _
  | op op =>
      cases op with
      | create t => exact hfits.elim
      | destroy t => exact hfits.elim
      | schedule t timerInterval timeDelay =>
          exact hordered.schedule t hfits.1 hfits.2.1
      | cancel ptr =>
          cases ptr with
          | null => exact hordered
          | deleted => exact (hfits rfl).elim
          | timer t => exact hordered.cancel t

end Reference

/-! ## Every deadline once, in order and in time -/

/-- The program reschedules or cancels the timer. -/
def TimerCall.Touches (t : TimerId) : TimerCall → Prop
  | .op (.schedule s _ _) => s = t
  | .op (.cancel (.timer s)) => s = t
  | _ => False

/-- The deliveries are the deadlines `first`, `first + timerInterval`, ...
up to the one before `next`, each in a tick of length `interval` that ends at
or after it. -/
structure OnTime
    (interval first timerInterval next : ℕ)
    (deliveries : List Delivery) : Prop where
  times :
    ∃ count, next = first + count * timerInterval ∧
      deliveries.map Delivery.time =
        (List.range count).map (fun i => first + i * timerInterval)
  in_tick :
    ∀ delivery ∈ deliveries,
      delivery.tick ≤ delivery.time + interval ∧
        delivery.time ≤ delivery.tick

theorem OnTime.append
    {interval first timerInterval now : ℕ} {sent : List Delivery}
    (deadline : Deadline)
    (hsent : OnTime interval first timerInterval deadline.next sent)
    (hinterval : deadline.interval = timerInterval)
    (hnext : now ≤ deadline.next + interval) :
    OnTime interval first timerInterval (deadline.advance now).next
      (sent ++ deadline.deliver now) := by
  rcases hsent.times with ⟨count, hcount, htimes⟩
  constructor
  · refine ⟨count + (deadline.dueTimes now).length, ?_, ?_⟩
    · simp only [Deadline.advance, hcount, hinterval]
      ring
    · have hdeliver :
          (deadline.deliver now).map Delivery.time =
            deadline.dueTimes now := by
        simp [Deadline.deliver, Function.comp_def]
      rw [List.map_append, htimes, hdeliver, List.range_add,
        List.map_append, List.map_map]
      congr 1
      refine (deadline.dueTimes_eq_range now).trans ?_
      apply List.map_congr_left
      intro i _
      simp only [Function.comp_apply, hcount, hinterval]
      ring
  · intro delivery hmem
    simp only [List.mem_append] at hmem
    rcases hmem with hold | hnew
    · exact hsent.in_tick delivery hold
    · simp only [Deadline.deliver, List.mem_map] at hnew
      rcases hnew with ⟨time, htime, heq⟩
      subst delivery
      have hbounds := deadline.dueTimes_bounds htime
      dsimp only
      omega

namespace Reference

/-- Since it was scheduled for `first`, the timer has been delivered on time,
and its deadline is still on the list. -/
def DeliveredSince
    (interval : ℕ) (t : TimerId) (first timerInterval : ℕ)
    (before : List Delivery) (ref : Reference) : Prop :=
  ∃ next sent,
    { timer := t, interval := timerInterval, next := next } ∈
        ref.deadlines ∧
      deliveriesOf t ref.deliveries = before ++ sent ∧
      OnTime interval first timerInterval next sent

theorem DeliveredSince.schedule
    (interval : ℕ) (ref : Reference) (t : TimerId) (timerInterval : ℕ)
    (timeDelay : ℤ) :
    (ref.schedule t timerInterval timeDelay).DeliveredSince interval t
      (ref.lastUpdateTime + timerInterval + timeDelay).toNat timerInterval
      (deliveriesOf t ref.deliveries) := by
  refine ⟨_, [], List.mem_cons_self, ?_, ?_⟩
  · exact (List.append_nil _).symm
  · constructor
    · exact ⟨0, by simp, rfl⟩
    · simp

theorem DeliveredSince.tick
    {interval : ℕ} {t : TimerId} {first timerInterval : ℕ}
    {before : List Delivery} {ref : Reference}
    (hdelivered :
      ref.DeliveredSince interval t first timerInterval before)
    (hordered : ref.Ordered) :
    (ref.tick interval).DeliveredSince interval t first timerInterval
      before := by
  rcases hdelivered with ⟨next, sent, hmem, hdeliveries, hsent⟩
  let deadline : Deadline :=
    { timer := t, interval := timerInterval, next := next }
  let now := ref.lastUpdateTime + interval
  refine
    ⟨(deadline.advance now).next, sent ++ deadline.deliver now, ?_, ?_, ?_⟩
  · simp only [Reference.tick, List.mem_map]
    exact ⟨deadline, hmem, rfl⟩
  · have hnew :=
      deliveriesOf_flatMap_of_mem now hordered.nodup hmem
    simp only [Reference.tick, deliveriesOf_append, hdeliveries]
    rw [hnew, List.append_assoc]
  · apply OnTime.append deadline hsent rfl
    have hle := hordered.le_next _ hmem
    simp only [now, deadline] at hle ⊢
    omega

theorem DeliveredSince.call
    {slotSize interval : ℕ} {t : TimerId} {first timerInterval : ℕ}
    {before : List Delivery} {ref : Reference}
    (hdelivered :
      ref.DeliveredSince interval t first timerInterval before)
    (hordered : ref.Ordered) (hinterval : 0 < interval)
    {call : TimerCall} (hfits : CallFits slotSize interval ref call)
    (huntouched : ¬ call.Touches t) :
    (ref.call interval call).DeliveredSince interval t first
      timerInterval before := by
  have hcancel :
      ∀ s, s ≠ t →
        (ref.cancel s).DeliveredSince interval t first timerInterval
          before := by
    intro s hne
    rcases hdelivered with ⟨next, sent, hmem, hrest⟩
    refine ⟨next, sent, ?_, hrest⟩
    exact List.mem_filter.mpr ⟨hmem, by simpa using Ne.symm hne⟩
  cases call with
  | update currentTime =>
      simp only [Reference.call, Reference.update,
        startClock_of_running hordered.running]
      generalize ref.ticksTo interval currentTime = count
      induction count with
      | zero => exact hdelivered
      | succ count ih =>
          rw [Function.iterate_succ_apply']
          exact ih.tick (hordered.tick_iterate hinterval count)
  | op op =>
      cases op with
      | create s => exact hfits.elim
      | destroy s => exact hfits.elim
      | schedule s otherInterval timeDelay =>
          rcases hcancel s huntouched with ⟨next, sent, hmem, hrest⟩
          exact ⟨next, sent, List.mem_cons_of_mem _ hmem, hrest⟩
      | cancel ptr =>
          cases ptr with
          | null => exact hdelivered
          | deleted => exact (hfits rfl).elim
          | timer s => exact hcancel s huntouched

end Reference

end GreenTurtle.Timers
