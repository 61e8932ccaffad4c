import GreenTurtle.TimerConsistency
import GreenTurtle.TimerSteps
import Mathlib.Tactic

/-!
# Re-entrant executions of the timer wheel

Callbacks may schedule, cancel or destroy any timer, also the one that is
firing and those in the list under traversal.  The invariant of this file holds
after every single operation of an execution: the links of `Consistent`, and
the rule that a timer in a queue has been scheduled after it was last stopped.
-/

namespace GreenTurtle.Timers

open FixedWidth
open Execution

/-- The program stops the timer. -/
def TimerEvent.Stops (t : TimerId) : TimerEvent → Prop
  | .performed (.cancel (.timer s)) => s = t
  | .performed (.destroy s) => s = t
  | _ => False

/-- The program schedules the timer. -/
def TimerEvent.Starts (t : TimerId) : TimerEvent → Prop
  | .performed (.schedule s _ _) => s = t
  | _ => False

/-- `OnTimeOut` of the timer is called. -/
def TimerEvent.Fires (t : TimerId) : TimerEvent → Prop
  | .fired _ s _ => s = t
  | _ => False

def Exec.events (exec : Exec) : List TimerEvent :=
  exec.trace.map Prod.fst

/-- Between a stop of a timer and a later call of its `OnTimeOut` the program
has scheduled it again. -/
def SilentAfterStop (events : List TimerEvent) : Prop :=
  ∀ t (i j : ℕ) (stop fire : TimerEvent),
    events[i]? = some stop → stop.Stops t →
    events[j]? = some fire → fire.Fires t → i < j →
      ∃ (k : ℕ) (start : TimerEvent), i < k ∧ k < j ∧
        events[k]? = some start ∧ start.Starts t

structure Sound (q : QueueId) (exec : Exec) : Prop where
  consistent : Consistent q exec.world
  points : ∀ point ∈ exec.trace, Consistent q point.2
  silent : SilentAfterStop exec.events
  revived :
    ∀ t (i : ℕ) (stop : TimerEvent),
      exec.events[i]? = some stop → stop.Stops t →
      exec.world.Queued t →
        ∃ (k : ℕ) (start : TimerEvent), i < k ∧
          exec.events[k]? = some start ∧ start.Starts t

variable {q : QueueId}

@[simp] theorem Exec.events_emit
    (exec : Exec) (event : TimerEvent) (world : World) :
    (exec.emit event world).events = exec.events ++ [event] := by
  simp [Exec.events, Exec.emit]

namespace Sound

/-- What an operation must respect: it keeps the links, takes out the timers
it stops, brings in only the timers it starts, and calls only timers that are
in the queue. -/
theorem emit
    {exec : Exec} (hsound : Sound q exec) {event : TimerEvent}
    {world : World} (hcons : Consistent q world)
    (hstops : ∀ t, event.Stops t → ¬ world.Queued t)
    (hstarts :
      ∀ t, world.Queued t → exec.world.Queued t ∨ event.Starts t)
    (hfires : ∀ t, event.Fires t → exec.world.Queued t) :
    Sound q (exec.emit event world) := by
  constructor
  · exact hcons
  · intro point hpoint
    simp only [Exec.emit, List.mem_append, List.mem_singleton] at hpoint
    rcases hpoint with hold | hnew
    · exact hsound.points point hold
    · rw [hnew]
      exact hcons
  · intro t i j stop fire hstop hstopped hfire hfired hlt
    rw [Exec.events_emit] at hstop hfire ⊢
    have hbefore : exec.events[i]? = some stop := by
      rcases getElem?_concat_some hstop with hold | ⟨hlast, _⟩
      · exact hold
      · have hbound :=
          (List.getElem?_eq_some_iff.mp hfire).1
        simp only [List.length_append, List.length_singleton] at hbound
        omega
    rcases getElem?_concat_some hfire with hold | ⟨rfl, rfl⟩
    · obtain ⟨k, start, hik, hkj, hstart, hstarted⟩ :=
        hsound.silent t i j stop fire hbefore hstopped hold hfired hlt
      exact ⟨k, start, hik, hkj,
        getElem?_concat_of_some event hstart, hstarted⟩
    · obtain ⟨k, start, hik, hstart, hstarted⟩ :=
        hsound.revived t i stop hbefore hstopped (hfires t hfired)
      exact ⟨k, start, hik, (List.getElem?_eq_some_iff.mp hstart).1,
        getElem?_concat_of_some event hstart, hstarted⟩
  · intro t i stop hstop hstopped hqueued
    rw [Exec.events_emit] at hstop ⊢
    rcases getElem?_concat_some hstop with hold | ⟨_, rfl⟩
    · rcases hstarts t hqueued with hbefore | hstarted
      · obtain ⟨k, start, hik, hstart, hstarted⟩ :=
          hsound.revived t i stop hold hstopped hbefore
        exact ⟨k, start, hik,
          getElem?_concat_of_some event hstart, hstarted⟩
      · exact ⟨exec.events.length, event,
          (List.getElem?_eq_some_iff.mp hold).1, by simp, hstarted⟩
    · exact (hstops t hstopped hqueued).elim

end Sound

/-! ## The operations of the program -/

namespace Consistent

variable {world : World}

theorem queued_of_cancelTimer
    (hcons : Consistent q world) {ptr : TimerPtr} {t : TimerId}
    (hqueued : (world.cancelTimer q ptr).Queued t) : world.Queued t := by
  cases ptr with
  | null => exact hqueued
  | deleted => exact hqueued
  | timer s =>
      by_cases heq : t = s
      · subst t
        exact (hcons.cancelTimer_not_queued s hqueued).elim
      · obtain ⟨timer, htimer, hsome⟩ := hqueued
        rw [World.cancelTimer_timers_of_ne heq] at htimer
        exact ⟨timer, htimer, hsome⟩

theorem destroyTimer_eq
    (hcons : Consistent q world) {t : TimerId} {timer : Timer}
    (htimer : world.timers t = some timer) :
    world.destroyTimer t =
      { world.cancelTimer q (.timer t) with
        timers :=
          Function.update (world.cancelTimer q (.timer t)).timers t
            none } := by
  cases hqueue : timer.queue with
  | none =>
      have hidle : ¬ world.Queued t := by
        rintro ⟨record, hrecord, hne⟩
        rw [htimer, Option.some.injEq] at hrecord
        subst record
        exact hne hqueue
      rw [World.cancelTimer_of_not_queued hidle]
      simp [World.destroyTimer, htimer, hqueue]
  | some owner =>
      have howner := hcons.owner t timer htimer (by simp [hqueue])
      rw [hqueue, Option.some.injEq] at howner
      subst owner
      simp [World.destroyTimer, htimer, hqueue]

theorem destroyTimer
    (hcons : Consistent q world) (t : TimerId) :
    Consistent q (world.destroyTimer t) :=
  iff_linked.mpr ((iff_linked.mp hcons).destroyTimer t)

theorem queued_of_destroyTimer
    (hcons : Consistent q world) {s t : TimerId}
    (hqueued : (world.destroyTimer s).Queued t) :
    world.Queued t ∧ t ≠ s := by
  cases htimer : world.timers s with
  | none =>
      rw [World.destroyTimer, htimer] at hqueued
      refine ⟨hqueued, ?_⟩
      rintro rfl
      obtain ⟨timer, hsome, _⟩ := hqueued
      simp [htimer] at hsome
  | some timer =>
      rw [hcons.destroyTimer_eq htimer] at hqueued
      obtain ⟨record, hrecord, hsome⟩ := hqueued
      have hne : t ≠ s := by
        rintro rfl
        simp at hrecord
      have hold :
          (world.cancelTimer q (.timer s)).timers t = some record := by
        simpa [Function.update, hne] using hrecord
      exact ⟨hcons.queued_of_cancelTimer ⟨record, hold, hsome⟩, hne⟩

end Consistent

theorem Sound.perform
    {exec : Exec} (hsound : Sound q exec) (op : TimerOp) :
    Sound q (exec.perform q op) := by
  have hcons := hsound.consistent
  unfold Exec.perform
  split
  next hallowed =>
    cases op with
    | create t =>
        have hnone : exec.world.timers t = none := by
          simpa [TimerOp.allowed] using hallowed
        have hidle : ¬ exec.world.Queued t := by
          rintro ⟨timer, htimer, _⟩
          simp [hnone] at htimer
        apply hsound.emit
        · exact hcons.updateIdle hidle (some Timer.new)
            (by rintro timer ⟨⟩; rfl)
        · intro s hstops
          exact hstops.elim
        · rintro s ⟨timer, htimer, hsome⟩
          have hne : s ≠ t := by
            rintro rfl
            simp only [TimerOp.perform, World.timers_setTimer,
              Function.update_self, Option.some.injEq] at htimer
            exact hsome (by rw [← htimer]; rfl)
          refine .inl ⟨timer, ?_, hsome⟩
          simpa [TimerOp.perform, Function.update, hne] using htimer
        · intro s hfires
          exact hfires.elim
    | schedule t timerInterval timeDelay =>
        apply hsound.emit
        · exact hcons.scheduleTimer t timerInterval timeDelay
        · intro s hstops
          exact hstops.elim
        · rintro s ⟨timer, htimer, hsome⟩
          by_cases heq : s = t
          · exact .inr heq.symm
          · simp only [TimerOp.perform,
              World.scheduleTimer_timers_of_ne heq] at htimer
            exact .inl ⟨timer, htimer, hsome⟩
        · intro s hfires
          exact hfires.elim
    | cancel ptr =>
        apply hsound.emit
        · exact hcons.cancelTimer ptr
        · intro s hstops
          cases ptr with
          | null => exact hstops.elim
          | deleted => exact hstops.elim
          | timer t =>
              have heq : t = s := hstops
              subst s
              exact hcons.cancelTimer_not_queued t
        · intro s hqueued
          exact .inl (hcons.queued_of_cancelTimer hqueued)
        · intro s hfires
          exact hfires.elim
    | destroy t =>
        apply hsound.emit
        · exact hcons.destroyTimer t
        · intro s hstops hqueued
          have heq : t = s := hstops
          exact (hcons.queued_of_destroyTimer hqueued).2 heq.symm
        · intro s hqueued
          exact .inl (hcons.queued_of_destroyTimer hqueued).1
        · intro s hfires
          exact hfires.elim
  next => exact hsound

theorem Sound.performAll
    {exec : Exec} (hsound : Sound q exec) (ops : List TimerOp) :
    Sound q (ops.foldl (Exec.perform q) exec) := by
  induction ops generalizing exec with
  | nil => exact hsound
  | cons op ops ih => exact ih (hsound.perform op)

/-! ## The loops of `Update` -/

theorem Sound.handleTimeOut
    {exec : Exec} (hsound : Sound q exec) (onTimeOut : Callback)
    {t : TimerId} {timer : Timer}
    (htimer : exec.world.timers t = some timer)
    (hqueued : exec.world.Queued t) :
    Sound q (exec.handleTimeOut onTimeOut q t timer) := by
  unfold Exec.handleTimeOut
  apply Sound.performAll
  apply hsound.emit
  · exact hsound.consistent.setTimer htimer rfl rfl rfl
  · intro s hstops
    exact hstops.elim
  · rintro s ⟨record, hrecord, hsome⟩
    by_cases heq : s = t
    · subst s
      exact .inl hqueued
    · refine .inl ⟨record, ?_, hsome⟩
      simpa [World.advanceTimer, Function.update, heq] using hrecord
  · intro s hfires
    have heq : t = s := hfires
    subst s
    exact hqueued

/-- Reading a cell gives a queued timer or the null pointer. -/
theorem Consistent.queued_of_get
    {world : World} (hcons : Consistent q world) {slot iter : ℕ}
    {t : TimerId} (hget : (world.slotList q slot).get iter = .timer t) :
    world.Queued t := by
  unfold UnorderedList.get at hget
  split at hget
  next ptr hcell =>
    split at hget
    next => simp [default] at hget
    next hlive =>
      rw [hcons.marker] at hlive
      obtain ⟨other, timer, hptr, htimer, hqueue, _⟩ :=
        hcons.backpointer slot iter ptr hcell hlive
      rw [hget, TimerPtr.timer.injEq] at hptr
      subst other
      exact ⟨timer, htimer, by simp [hqueue]⟩
  next => simp [default] at hget

theorem Sound.fireWhileDue
    (onTimeOut : Callback) (slot iter fuel : ℕ) {ptr : TimerPtr}
    {exec : Exec} (hsound : Sound q exec)
    (hptr : ∀ t, ptr = .timer t → exec.world.Queued t) :
    Sound q
        (stateOf (Exec.fireWhileDue onTimeOut q slot iter fuel ptr exec)) ∧
      ∀ left next,
        Exec.fireWhileDue onTimeOut q slot iter fuel ptr exec =
            .ok (left, next) →
          ∀ t, left = .timer t → next.world.Queued t := by
  induction fuel generalizing ptr exec with
  | zero => exact ⟨hsound, by simp [Exec.fireWhileDue]⟩
  | succ fuel ih =>
      cases ptr with
      | null =>
          refine ⟨hsound, ?_⟩
          rintro left next ⟨⟩ t heq
          contradiction
      | deleted =>
          refine ⟨hsound, ?_⟩
          rintro left next ⟨⟩ t heq
          contradiction
      | timer s =>
          simp only [Exec.fireWhileDue]
          split
          next =>
            refine ⟨hsound, ?_⟩
            rintro left next ⟨⟩ t heq
            contradiction
          next timer htimer =>
            split
            next =>
              have hcalled :=
                hsound.handleTimeOut onTimeOut htimer (hptr s rfl)
              exact ih hcalled
                (fun t hget => hcalled.consistent.queued_of_get hget)
            next =>
              refine ⟨hsound, ?_⟩
              rintro left next ⟨⟩ t heq
              exact hptr t heq

theorem Sound.requeue
    {exec : Exec} (hsound : Sound q exec) {ptr : TimerPtr}
    (hptr : ∀ t, ptr = .timer t → exec.world.Queued t) :
    Sound q (exec.requeue q ptr) := by
  apply Exec.requeue_cases hsound
  intro t timer hleft _
  apply hsound.emit
  · exact hsound.consistent.scheduleTimer t _ _
  · intro s hstops
    exact hstops.elim
  · rintro s ⟨record, hrecord, hsome⟩
    by_cases heq : s = t
    · subst s
      exact .inl (hptr t hleft)
    · rw [World.scheduleTimer_timers_of_ne heq] at hrecord
      exact .inl ⟨record, hrecord, hsome⟩
  · intro s hfires
    exact hfires.elim

theorem Sound.visitCell
    (onTimeOut : Callback) (slot fuel iter : ℕ) {ptr : TimerPtr}
    {exec : Exec} (hsound : Sound q exec)
    (hcell : (exec.world.slotList q slot).list[iter]? = some ptr)
    (hlive : ptr ≠ (exec.world.slotList q slot).deleted) :
    Sound q
      (stateOf (Exec.visitCell onTimeOut q slot fuel ptr iter exec)) := by
  rw [hsound.consistent.marker] at hlive
  obtain ⟨t, timer, rfl, htimer, hqueue, _⟩ :=
    hsound.consistent.backpointer slot iter ptr hcell hlive
  have hptr :
      ∀ s, TimerPtr.timer t = .timer s → exec.world.Queued s := by
    rintro s ⟨⟩
    exact ⟨timer, htimer, by simp [hqueue]⟩
  obtain ⟨hstate, hleft⟩ :=
    hsound.fireWhileDue onTimeOut slot iter fuel hptr
  simp only [Exec.visitCell]
  cases hresult :
      Exec.fireWhileDue onTimeOut q slot iter fuel (.timer t) exec with
  | error stopped =>
      rw [hresult] at hstate
      exact hstate
  | ok result =>
      obtain ⟨left, next⟩ := result
      rw [hresult] at hstate
      exact Sound.requeue hstate (hleft left next hresult)

theorem Sound.ticked
    {exec : Exec} (hsound : Sound q exec) :
    Sound q
      (exec.emit (.ticked (exec.world.clock q).advance.lastUpdateTime)
        (exec.world.setClock q (exec.world.clock q).advance)) := by
  apply hsound.emit
  · exact hsound.consistent.of_clock rfl
  · intro t hstops
    exact hstops.elim
  · intro t hqueued
    exact .inl hqueued
  · intro t hfires
    exact hfires.elim

theorem Sound.tick
    (onTimeOut : Callback) (fuel : ℕ) {exec : Exec}
    (hsound : Sound q exec) :
    Sound q (outcome (exec.tick onTimeOut q fuel)) := by
  unfold Exec.tick
  refine UnorderedList.forEach_preserves (Sound q) ?_ fuel 0 hsound.ticked
  intro ptr iter state hstate hcell hlive
  exact hstate.visitCell onTimeOut _ fuel iter hcell hlive

theorem Sound.startClock
    (currentTime : ℕ) {exec : Exec} (hsound : Sound q exec) :
    Sound q (exec.startClock q currentTime) := by
  apply Exec.startClock_cases hsound
  intro _
  exact ⟨hsound.consistent.of_clock rfl, hsound.points, hsound.silent,
    hsound.revived⟩

theorem Sound.update
    (onTimeOut : Callback) (fuel currentTime : ℕ) {exec : Exec}
    (hsound : Sound q exec) :
    Sound q (outcome (exec.update onTimeOut q fuel currentTime)) :=
  updateLoop_preserves (fun fuel _ hstate => hstate.tick onTimeOut fuel) _
    fuel (hsound.startClock currentTime)

theorem Sound.runCalls
    (onTimeOut : Callback) (fuel : ℕ) (calls : List TimerCall)
    {exec : Exec} (hsound : Sound q exec) :
    Sound q (outcome (Exec.runCalls onTimeOut q fuel calls exec)) :=
  runCalls_preserves (fun _ op hstate => hstate.perform op)
    (fun fuel currentTime _ hstate =>
      hstate.update onTimeOut fuel currentTime)
    fuel calls hsound

/-! ## Whole histories -/

/-- The clock of a new queue whose two sizes are powers of two. -/
def WheelClock.ofExponents
    (slotExponent intervalExponent : ℕ) : WheelClock where
  slotSize := 2 ^ slotExponent
  lastUpdateTime := 0
  interval := 2 ^ intervalExponent
  currentSlot := 0
  intervalExponent := intervalExponent
  circleTime := toUInt64 (2 ^ slotExponent * 2 ^ intervalExponent)

theorem new_two_pow
    (slotExponent : ℕ) {intervalExponent : ℕ}
    (hinterval : intervalExponent < 64) :
    ∃ queue,
      TimerQueue.new (2 ^ slotExponent) (2 ^ intervalExponent) =
          some queue ∧
        queue.toWheelClock =
          .ofExponents slotExponent intervalExponent ∧
        ∀ slot, queue.queues slot = UnorderedList.new.setDeleted .deleted := by
  have hloop := exponentLoop_two_pow intervalExponent (64 - intervalExponent)
  rw [show intervalExponent + 1 + (64 - intervalExponent) = 65 by omega]
    at hloop
  unfold TimerQueue.new
  rw [hloop]
  simp [WheelClock.ofExponents]

theorem Sound.start
    {world : World} (hcons : Consistent q world) :
    Sound q (Exec.start world) := by
  have hevents : (Exec.start world).events = [] := rfl
  constructor
  · exact hcons
  · intro point hpoint
    simp [Exec.start] at hpoint
  · intro t i j stop fire hstop
    simp [hevents] at hstop
  · intro t i stop hstop
    simp [hevents] at hstop

/-- Whatever the program and its callbacks do, and wherever the execution
stands, timers and cells point at each other, every free list names exactly the
deleted cells of its list, and a stopped timer is not called until the program
schedules it again. -/
theorem runCalls_consistent_and_silent
    {slotExponent intervalExponent : ℕ}
    (hslot : slotExponent < 64) (hinterval : intervalExponent < 64)
    (q : QueueId) (onTimeOut : Callback) (fuel : ℕ)
    (calls : List TimerCall) :
    ∃ queue,
      TimerQueue.new (2 ^ slotExponent) (2 ^ intervalExponent) =
          some queue ∧
        let exec :=
          outcome
            (Exec.runCalls onTimeOut q fuel calls
              (Exec.start (World.initial queue)))
        Consistent q exec.world ∧
          (∀ point ∈ exec.trace, Consistent q point.2) ∧
          SilentAfterStop exec.events := by
  obtain ⟨queue, hnew, hclock, hlists⟩ :=
    new_two_pow slotExponent hinterval
  have hsize : queue.slotSize = 2 ^ slotExponent := by
    rw [hclock]
    rfl
  have hstart : Sound q (Exec.start (World.initial queue)) := by
    apply Sound.start
    apply Consistent.of_fresh
    · change 0 < queue.slotSize
      rw [hsize]
      positivity
    · change queue.slotSize ≤ _
      rw [hsize]
      exact (two_pow_lt_wrap hslot).le
    · intro t timer htimer
      simp [World.initial] at htimer
    · exact hlists
  have hsound := hstart.runCalls onTimeOut fuel calls
  exact ⟨queue, hnew, hsound.consistent, hsound.points, hsound.silent⟩

/-- The firing timer cancels itself and puts another timer into its cell. -/
theorem runCalls_consistent_and_silent_swap :
    1 < 64 ∧ 0 < 64 ∧
      ∃ queue, TimerQueue.new (2 ^ 1) (2 ^ 0) = some queue ∧
        let exec :=
          outcome
            (Exec.runCalls
              (fun _ t _ => [.cancel (.timer t), .schedule 8 3 0]) 0 20
              [.op (.create 7), .op (.create 8), .update 5,
                .op (.schedule 7 1 0), .update 9]
              (Exec.start (World.initial queue)))
        Consistent 0 exec.world ∧
          (∀ point ∈ exec.trace, Consistent 0 point.2) ∧
          SilentAfterStop exec.events :=
  ⟨by decide, by decide,
    runCalls_consistent_and_silent (by decide) (by decide) 0 _ 20 _⟩

end GreenTurtle.Timers
