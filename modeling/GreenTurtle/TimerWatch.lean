import GreenTurtle.TimerRefinement
import GreenTurtle.TimerRounds
import Mathlib.Tactic

/-!
# One timer among others

What happens to a timer that the program leaves alone, while the other timers
and all callbacks do as they like.  The timer waits until its first call or the
program's first operation on it, whichever comes first; that event settles what
this file says about it.  A tick of another slot leaves a waiting timer where it
is.  A tick of its own slot calls it if it is due, and puts it back otherwise.
-/

namespace GreenTurtle.Timers

open FixedWidth
open Execution

variable {q : QueueId} {t : TimerId} {timer : Timer}

/-! ## The event that settles a timer -/

def TimerOp.touches (t : TimerId) : TimerOp → Bool
  | .create s => s = t
  | .schedule s _ _ => s = t
  | .cancel (.timer s) => s = t
  | .cancel _ => false
  | .destroy s => s = t

/-- The timer is called, or the program performs an operation on it. -/
def TimerEvent.settles (t : TimerId) : TimerEvent → Bool
  | .performed op => op.touches t
  | .fired _ s _ => s = t
  | _ => false

/-- The first of the events that settles the timer. -/
def fate (t : TimerId) (events : List TimerEvent) : Option TimerEvent :=
  events.find? (·.settles t)

/-- Since `base` the timer was settled by `event`. -/
def Settled
    (base : List TimerEvent) (t : TimerId) (event : TimerEvent)
    (exec : Exec) : Prop :=
  ∃ later, exec.events = base ++ later ∧ fate t later = some event

/-- Since `base` the timer was not settled, and this is its record. -/
def Waiting
    (base : List TimerEvent) (t : TimerId) (timer : Timer)
    (exec : Exec) : Prop :=
  ∃ later, exec.events = base ++ later ∧ fate t later = none ∧
    exec.world.timers t = some timer

/-- The timer waits, unless the program has touched it. -/
def Watched
    (base : List TimerEvent) (t : TimerId) (timer : Timer)
    (exec : Exec) : Prop :=
  Waiting base t timer exec ∨ ∃ op, Settled base t (.performed op) exec

variable {base : List TimerEvent} {exec : Exec} {event : TimerEvent}

theorem Waiting.start
    (htimer : exec.world.timers t = some timer) :
    Waiting exec.events t timer exec :=
  ⟨[], by simp, rfl, htimer⟩

theorem Waiting.timers
    (hwaiting : Waiting base t timer exec) :
    exec.world.timers t = some timer := by
  obtain ⟨_, _, _, htimer⟩ := hwaiting
  exact htimer

theorem Waiting.not_settled
    (hwaiting : Waiting base t timer exec) :
    ¬ Settled base t event exec := by
  rintro ⟨later, hlater, hfate⟩
  obtain ⟨other, hother, hnone, _⟩ := hwaiting
  have hsame := List.append_cancel_left (hother.symm.trans hlater)
  rw [hsame, hfate] at hnone
  contradiction

theorem Settled.unique
    {other : TimerEvent} (hsettled : Settled base t event exec)
    (hother : Settled base t other exec) : event = other := by
  obtain ⟨later, hlater, hfate⟩ := hsettled
  obtain ⟨rest, hrest, hfound⟩ := hother
  have hsame := List.append_cancel_left (hlater.symm.trans hrest)
  rw [hsame, hfound] at hfate
  exact (Option.some.inj hfate).symm

theorem Settled.emit
    (hsettled : Settled base t event exec) (more : TimerEvent)
    (world : World) : Settled base t event (exec.emit more world) := by
  obtain ⟨later, hlater, hfate⟩ := hsettled
  refine ⟨later ++ [more], ?_, ?_⟩
  · rw [Exec.events_emit, hlater, List.append_assoc]
  · unfold fate at hfate ⊢
    rw [List.find?_append, hfate]
    rfl

theorem Waiting.emit
    (hwaiting : Waiting base t timer exec) (event : TimerEvent)
    (hevent : event.settles t = false) {world : World} {record : Timer}
    (hrecord : world.timers t = some record) :
    Waiting base t record (exec.emit event world) := by
  obtain ⟨later, hlater, hfate, _⟩ := hwaiting
  refine ⟨later ++ [event], ?_, ?_, hrecord⟩
  · rw [Exec.events_emit, hlater, List.append_assoc]
  · unfold fate at hfate ⊢
    rw [List.find?_append, hfate]
    simp [hevent]

theorem Waiting.settle
    (hwaiting : Waiting base t timer exec) (event : TimerEvent)
    (hevent : event.settles t = true) (world : World) :
    Settled base t event (exec.emit event world) := by
  obtain ⟨later, hlater, hfate, _⟩ := hwaiting
  refine ⟨later ++ [event], ?_, ?_⟩
  · rw [Exec.events_emit, hlater, List.append_assoc]
  · unfold fate at hfate ⊢
    rw [List.find?_append, hfate]
    simp [hevent]

/-- A timer that waits at some point is settled later, if at all. -/
theorem Waiting.settled_later
    {middle : Exec} (hwaiting : Waiting base t timer middle)
    (hsettled : Settled middle.events t event exec) :
    Settled base t event exec := by
  obtain ⟨first, hfirst, hnone, _⟩ := hwaiting
  obtain ⟨second, hsecond, hfate⟩ := hsettled
  refine ⟨first ++ second, ?_, ?_⟩
  · rw [hsecond, hfirst, List.append_assoc]
  · unfold fate at hnone hfate ⊢
    rw [List.find?_append, hnone]
    exact hfate

theorem Settled.mem
    {start : Exec} (hsettled : Settled start.events t event exec) :
    event ∈ exec.events.drop start.events.length := by
  obtain ⟨later, hlater, hfate⟩ := hsettled
  rw [hlater, List.drop_left]
  exact List.mem_of_find?_eq_some hfate

/-- A waiting timer has not been called. -/
theorem Waiting.silent
    {start : Exec} (hwaiting : Waiting start.events t timer exec)
    (hevent : event ∈ exec.events.drop start.events.length) :
    ¬ event.Fires t := by
  obtain ⟨later, hlater, hfate, _⟩ := hwaiting
  rw [hlater, List.drop_left] at hevent
  have hnot := List.find?_eq_none.mp hfate event hevent
  intro hfires
  cases event with
  | fired lastUpdateTime s time =>
      have heq : s = t := hfires
      exact hnot (by simp [TimerEvent.settles, heq])
  | performed op => exact hfires.elim
  | ticked lastUpdateTime => exact hfires.elim
  | requeued s => exact hfires.elim

/-- What settled a timer stays what settled it. -/
theorem stepInvariant_settled
    (q : QueueId) (base : List TimerEvent) (t : TimerId)
    (event : TimerEvent) :
    StepInvariant q (Settled base t event) := by
  refine ⟨⟨?_, ?_, ?_, ?_⟩, ?_, ?_⟩
  · intro exec op hsettled
    unfold Exec.perform
    split
    next => exact hsettled.emit _ _
    next => exact hsettled
  · intro exec s record hsettled _
    exact hsettled.emit _ _
  · intro exec ptr hsettled
    apply Exec.requeue_cases hsettled
    intro s record _ _
    exact hsettled.emit _ _
  · intro exec slot iter hsettled _
    exact hsettled
  · intro exec hsettled
    exact hsettled.emit _ _
  · intro exec currentTime hsettled
    apply Exec.startClock_cases hsettled
    intro _
    exact hsettled

/-! ## What others do -/

theorem TimerOp.perform_timers
    {op : TimerOp} (hop : op.touches t = false) (world : World) :
    (op.perform q world).timers t = world.timers t := by
  cases op with
  | create s =>
      have hne : t ≠ s := by
        simpa [TimerOp.touches, eq_comm] using hop
      exact Function.update_of_ne hne ..
  | schedule s timerInterval timeDelay =>
      have hne : t ≠ s := by
        simpa [TimerOp.touches, eq_comm] using hop
      exact World.scheduleTimer_timers_of_ne hne _ _
  | cancel ptr =>
      cases ptr with
      | null => rfl
      | deleted => rfl
      | timer s =>
          have hne : t ≠ s := by
            simpa [TimerOp.touches, eq_comm] using hop
          exact World.cancelTimer_timers_of_ne hne
  | destroy s =>
      have hne : t ≠ s := by
        simpa [TimerOp.touches, eq_comm] using hop
      change (world.destroyTimer s).timers t = _
      unfold World.destroyTimer
      split
      next => rfl
      next record _ =>
        dsimp only
        rw [Function.update_of_ne hne]
        cases record.queue with
        | none => rfl
        | some owner => exact World.cancelTimer_timers_of_ne hne

namespace Watched

theorem perform
    (hwatched : Watched base t timer exec) (op : TimerOp) :
    Watched base t timer (exec.perform q op) := by
  rcases hwatched with hwaiting | ⟨first, hsettled⟩
  · unfold Exec.perform
    split
    next =>
      cases hop : op.touches t with
      | true => exact .inr ⟨op, hwaiting.settle (.performed op) hop _⟩
      | false =>
          exact .inl (hwaiting.emit (.performed op) hop
            ((TimerOp.perform_timers hop _).trans hwaiting.timers))
    next => exact .inl hwaiting
  · exact .inr ⟨first,
      (stepInvariant_settled q base t _).perform exec op hsettled⟩

theorem performAll
    (hwatched : Watched base t timer exec) (ops : List TimerOp) :
    Watched base t timer (ops.foldl (Exec.perform q) exec) := by
  induction ops generalizing exec with
  | nil => exact hwatched
  | cons op ops ih => exact ih (hwatched.perform op)

/-- Another timer is called. -/
theorem handleTimeOut
    (hwatched : Watched base t timer exec) (onTimeOut : Callback)
    {s : TimerId} {record : Timer} (hne : s ≠ t)
    (hrecord : exec.world.timers s = some record) :
    Watched base t timer (exec.handleTimeOut onTimeOut q s record) := by
  rcases hwatched with hwaiting | ⟨first, hsettled⟩
  · apply performAll
    refine .inl
      (hwaiting.emit _ (by simp [TimerEvent.settles, hne]) ?_)
    rw [World.advanceTimer, World.timers_setTimer,
      Function.update_of_ne hne.symm]
    exact hwaiting.timers
  · exact .inr ⟨first,
      (stepInvariant_settled q base t _).handleTimeOut onTimeOut hrecord
        hsettled⟩

end Watched

theorem Waiting.requeue_other
    (hwaiting : Waiting base t timer exec) {ptr : TimerPtr}
    (hptr : ptr ≠ .timer t) :
    Waiting base t timer (exec.requeue q ptr) := by
  apply Exec.requeue_cases hwaiting
  intro s record hother _
  have hne : t ≠ s := by
    rintro rfl
    exact hptr hother
  exact hwaiting.emit _ rfl
    ((World.scheduleTimer_timers_of_ne hne _ _).trans hwaiting.timers)

/-! ## Visits of other cells -/

section OtherCells

variable {slot iter : ℕ}

/-- The cell of a waiting timer is the only one that holds it. -/
theorem Waiting.get_ne
    (hwaiting : Waiting base t timer exec)
    (hcons : Consistent q exec.world) (hqueue : timer.queue = some q)
    (helse : timer.iterSlot = slot → timer.iterPos ≠ iter) :
    (exec.world.slotList q slot).get iter ≠ .timer t := by
  intro hget
  have hcell :
      (exec.world.slotList q slot).list[iter]? = some (.timer t) := by
    unfold UnorderedList.get at hget
    split at hget
    next ptr hptr =>
      split at hget
      next => simp [default] at hget
      next => rw [hptr, hget]
    next => simp [default] at hget
  obtain ⟨hslot, hpos⟩ :=
    (hcons.cell_iff t timer hwaiting.timers hqueue slot iter).mp hcell
  exact helse hslot.symm hpos.symm

theorem Watched.fireWhileDue
    (hwatched : Watched base t timer exec) (onTimeOut : Callback)
    (fuel : ℕ) {ptr : TimerPtr} (hsound : Sound q exec)
    (hqueue : timer.queue = some q)
    (helse : timer.iterSlot = slot → timer.iterPos ≠ iter)
    (hget : (exec.world.slotList q slot).get iter = ptr) :
    Watched base t timer
        (stateOf
          (Exec.fireWhileDue onTimeOut q slot iter fuel ptr exec)) ∧
      ∀ left next,
        Exec.fireWhileDue onTimeOut q slot iter fuel ptr exec =
            .ok (left, next) →
          Waiting base t timer next → left ≠ .timer t := by
  induction fuel generalizing ptr exec with
  | zero =>
      refine ⟨hwatched, ?_⟩
      intro left next hresult
      simp [Exec.fireWhileDue] at hresult
  | succ fuel ih =>
      rcases hwatched with hwaiting | ⟨op, hsettled⟩
      · have hother := hwaiting.get_ne hsound.consistent hqueue helse
        rw [hget] at hother
        cases ptr with
        | null =>
            refine ⟨.inl hwaiting, ?_⟩
            rintro left next ⟨⟩ _
            exact hother
        | deleted =>
            refine ⟨.inl hwaiting, ?_⟩
            rintro left next ⟨⟩ _
            exact hother
        | timer s =>
            have hne : s ≠ t := by
              rintro rfl
              exact hother rfl
            simp only [Exec.fireWhileDue]
            cases hrecord : exec.world.timers s with
            | none =>
                refine ⟨.inl hwaiting, ?_⟩
                rintro left next ⟨⟩ _
                simp
            | some record =>
                dsimp only
                split
                next =>
                  exact ih
                    (Watched.handleTimeOut (.inl hwaiting) onTimeOut hne
                      hrecord)
                    (hsound.handleTimeOut onTimeOut hrecord
                      (hsound.consistent.queued_of_get hget)) rfl
                next =>
                  refine ⟨.inl hwaiting, ?_⟩
                  rintro left next ⟨⟩ _
                  exact hother
      · have hstays :=
          (stepInvariant_settled q base t _).fireWhileDue onTimeOut slot
            iter (fuel + 1) ptr hsettled
        refine ⟨.inr ⟨op, hstays⟩, ?_⟩
        intro left next hresult hwaiting
        rw [hresult] at hstays
        exact absurd hstays hwaiting.not_settled

theorem Watched.visitCell
    (hwatched : Watched base t timer exec) (onTimeOut : Callback)
    (fuel : ℕ) {ptr : TimerPtr} (hsound : Sound q exec)
    (hqueue : timer.queue = some q)
    (helse : timer.iterSlot = slot → timer.iterPos ≠ iter)
    (hcell : (exec.world.slotList q slot).list[iter]? = some ptr)
    (hlive : ptr ≠ (exec.world.slotList q slot).deleted) :
    Watched base t timer
      (stateOf (Exec.visitCell onTimeOut q slot fuel ptr iter exec)) := by
  have hget : (exec.world.slotList q slot).get iter = ptr := by
    simp [UnorderedList.get, hcell, hlive]
  rw [hsound.consistent.marker] at hlive
  obtain ⟨s, _, rfl, _⟩ :=
    hsound.consistent.backpointer slot iter ptr hcell hlive
  obtain ⟨hstate, hleft⟩ :=
    hwatched.fireWhileDue onTimeOut fuel hsound hqueue helse hget
  simp only [Exec.visitCell]
  cases hresult :
      Exec.fireWhileDue onTimeOut q slot iter fuel (.timer s) exec with
  | error stopped =>
      rw [hresult] at hstate
      exact hstate
  | ok result =>
      obtain ⟨left, next⟩ := result
      rw [hresult] at hstate
      rcases hstate with hwaiting | ⟨op, hsettled⟩
      · exact .inl
          (hwaiting.requeue_other (hleft left next hresult hwaiting))
      · exact .inr ⟨op,
          (stepInvariant_settled q base t _).requeue next left hsettled⟩

end OtherCells

/-! ## The visit of its own cell -/

section OwnCell

variable {onTimeOut : Callback} {slot iter fuel : ℕ}

/-- What a visit makes of a timer that is not due. -/
structure Requeued
    (q : QueueId) (clock : WheelClock) (timer record : Timer) : Prop where
  queue : record.queue = some q
  timerInterval : record.timerInterval = timer.timerInterval
  nextHandleTime : record.nextHandleTime = timer.nextHandleTime
  iterSlot :
    record.iterSlot =
      clock.toSlot timer.timerInterval
        (toInt64 (timer.nextHandleTime -
          (timer.timerInterval + clock.lastUpdateTime)))
  iterPos :
    record.iterSlot = timer.iterSlot → record.iterPos = timer.iterPos

theorem Waiting.requeue_own
    (hwaiting : Waiting base t timer exec)
    (hcons : Consistent q exec.world) (hqueue : timer.queue = some q)
    (hlt : timer.nextHandleTime < 18446744073709551616) :
    ∃ record, Requeued q (exec.world.clock q) timer record ∧
      Waiting base t record (exec.requeue q (.timer t)) := by
  have htimers :=
    Consistent.requeue_timers (q := q) hwaiting.timers hlt rfl
  have hrecord := congrFun htimers t
  rw [Function.update_self] at hrecord
  simp only [Exec.requeue, hwaiting.timers]
  refine ⟨_, ?_, hwaiting.emit _ rfl hrecord⟩
  constructor
  · rfl
  · rfl
  · rfl
  · rfl
  · intro hsame
    dsimp only at hsame ⊢
    rw [hsame]
    exact hcons.scheduledPos_same_slot hwaiting.timers hqueue

/-- A timer that is due is called as soon as its cell is visited. -/
theorem Waiting.visitCell_due
    (hwaiting : Waiting base t timer exec)
    (hdue : timer.nextHandleTime ≤ (exec.world.clock q).lastUpdateTime)
    {continues : Bool} {next : Exec}
    (hresult :
      Exec.visitCell onTimeOut q slot fuel (.timer t) iter exec =
        .ok (continues, next)) :
    Settled base t
      (.fired (exec.world.clock q).lastUpdateTime t timer.nextHandleTime)
      next := by
  have hinv :=
    stepInvariant_settled q base t
      (.fired (exec.world.clock q).lastUpdateTime t timer.nextHandleTime)
  have hcalled :
      Settled base t
        (.fired (exec.world.clock q).lastUpdateTime t timer.nextHandleTime)
        (exec.handleTimeOut onTimeOut q t timer) :=
    hinv.performAll _
      (hwaiting.settle _ (by simp [TimerEvent.settles]) _)
  simp only [Exec.visitCell] at hresult
  cases fuel with
  | zero => simp [Exec.fireWhileDue] at hresult
  | succ fuel =>
      simp only [Exec.fireWhileDue, hwaiting.timers, if_pos hdue] at hresult
      have hfired :=
        hinv.fireWhileDue onTimeOut slot iter fuel
          (((exec.handleTimeOut onTimeOut q t timer).world.slotList q
            slot).get iter) hcalled
      split at hresult
      next => simp at hresult
      next left after hloop =>
        rw [hloop] at hfired
        simp only [Except.ok.injEq, Prod.mk.injEq] at hresult
        rw [← hresult.2]
        exact hinv.requeue after left hfired

/-- A timer that is not due is put back. -/
theorem Waiting.visitCell_later
    (hwaiting : Waiting base t timer exec)
    (hlater : (exec.world.clock q).lastUpdateTime < timer.nextHandleTime)
    {continues : Bool} {next : Exec}
    (hresult :
      Exec.visitCell onTimeOut q slot fuel (.timer t) iter exec =
        .ok (continues, next)) :
    next = exec.requeue q (.timer t) := by
  simp only [Exec.visitCell] at hresult
  cases fuel with
  | zero => simp [Exec.fireWhileDue] at hresult
  | succ fuel =>
      simp only [Exec.fireWhileDue, hwaiting.timers,
        if_neg (not_le.mpr hlater), Except.ok.injEq, Prod.mk.injEq]
        at hresult
      exact hresult.2.symm

end OwnCell

/-! ## One tick -/

theorem Waiting.tickStarted
    (hwaiting : Waiting base t timer exec) (q : QueueId) :
    Waiting base t timer (exec.tickStarted q) :=
  hwaiting.emit _ rfl hwaiting.timers

section Tick

variable {onTimeOut : Callback} {fuel : ℕ} {next : Exec}

/-- A tick of another slot. -/
theorem Waiting.tick_elsewhere
    (hwaiting : Waiting base t timer exec) (hsound : Sound q exec)
    (hqueue : timer.queue = some q)
    (hslot : timer.iterSlot ≠ (exec.world.clock q).currentSlot)
    (htick : exec.tick onTimeOut q fuel = .ok next) :
    Watched base t timer next := by
  have hwalk :
      Sound q (outcome (exec.tick onTimeOut q fuel)) ∧
        Watched base t timer (outcome (exec.tick onTimeOut q fuel)) := by
    unfold Exec.tick
    refine UnorderedList.forEach_preserves
      (fun state => Sound q state ∧ Watched base t timer state) ?_ fuel 0
      ⟨hsound.ticked, .inl (hwaiting.tickStarted q)⟩
    rintro ptr iter state ⟨hstate, hwatched⟩ hcell hlive
    exact ⟨hstate.visitCell onTimeOut _ fuel iter hcell hlive,
      hwatched.visitCell onTimeOut fuel hstate hqueue
        (fun hsame => absurd hsame hslot) hcell hlive⟩
  rw [htick] at hwalk
  exact hwalk.2

/-- The walk through the slot of the timer: its cell is still ahead, or it has
had the visit that `after` describes. -/
structure WalkPast
    (base : List TimerEvent) (q : QueueId) (t : TimerId) (timer : Timer)
    (clock : WheelClock) (after : Exec → Prop) (iter : ℕ) (exec : Exec) :
    Prop where
  sound : Sound q exec
  clock_eq : exec.world.clock q = clock
  progress :
    (∃ op, Settled base t (.performed op) exec) ∨
      (iter ≤ timer.iterPos ∧ Waiting base t timer exec) ∨
      (timer.iterPos < iter ∧ after exec)

/-- What the visit of its own cell makes of a waiting timer. -/
def OwnVisit
    (base : List TimerEvent) (q : QueueId) (t : TimerId) (timer : Timer)
    (onTimeOut : Callback) (fuel : ℕ) (clock : WheelClock)
    (after : Exec → Prop) : Prop :=
  ∀ state continues visited,
    Sound q state → state.world.clock q = clock →
    Waiting base t timer state →
    Exec.visitCell onTimeOut q timer.iterSlot fuel (.timer t) timer.iterPos
        state = .ok (continues, visited) →
      after visited

/-- The visits of the cells behind the timer's do not undo that. -/
def LaterVisits
    (base : List TimerEvent) (q : QueueId) (t : TimerId) (timer : Timer)
    (onTimeOut : Callback) (fuel : ℕ) (after : Exec → Prop) : Prop :=
  ∀ state iter ptr,
    Sound q state → timer.iterPos < iter → after state →
    (state.world.slotList q timer.iterSlot).list[iter]? = some ptr →
    ptr ≠ (state.world.slotList q timer.iterSlot).deleted →
      (∃ op, Settled base t (.performed op)
        (stateOf (Exec.visitCell onTimeOut q timer.iterSlot fuel ptr iter
          state))) ∨
      after
        (stateOf (Exec.visitCell onTimeOut q timer.iterSlot fuel ptr iter
          state))

namespace WalkPast

variable {clock : WheelClock} {after : Exec → Prop} {iter : ℕ}

/-- The walk passes over a deleted cell, which is not the timer's. -/
theorem skip
    (hpast : WalkPast base q t timer clock after iter exec)
    (hqueue : timer.queue = some q)
    (hcell :
      (exec.world.slotList q timer.iterSlot).list[iter]? =
        some (exec.world.slotList q timer.iterSlot).deleted) :
    WalkPast base q t timer clock after (iter + 1) exec := by
  refine ⟨hpast.sound, hpast.clock_eq, ?_⟩
  rcases hpast.progress with htouched | ⟨hle, hstill⟩ | ⟨hlt, hdone⟩
  · exact .inl htouched
  · have hne : iter ≠ timer.iterPos := by
      rintro rfl
      rw [hpast.sound.consistent.cell hstill.timers hqueue,
        hpast.sound.consistent.marker] at hcell
      simp at hcell
    exact .inr (.inl ⟨by omega, hstill⟩)
  · exact .inr (.inr ⟨by omega, hdone⟩)

theorem visit
    (hpast : WalkPast base q t timer clock after iter exec)
    (hqueue : timer.queue = some q)
    (hown : OwnVisit base q t timer onTimeOut fuel clock after)
    (hlater : LaterVisits base q t timer onTimeOut fuel after)
    {ptr : TimerPtr}
    (hcell :
      (exec.world.slotList q timer.iterSlot).list[iter]? = some ptr)
    (hlive : ptr ≠ (exec.world.slotList q timer.iterSlot).deleted)
    {continues : Bool}
    (hvisit :
      Exec.visitCell onTimeOut q timer.iterSlot fuel ptr iter exec =
        .ok (continues, next)) :
    WalkPast base q t timer clock after (iter + 1) next := by
  have hstate :=
    hpast.sound.visitCell onTimeOut timer.iterSlot fuel iter hcell hlive
  have hclock :=
    (visitInvariant_clock q clock).visitCell onTimeOut timer.iterSlot fuel
      iter hpast.clock_eq hcell
  rw [hvisit] at hstate hclock
  refine ⟨hstate, hclock, ?_⟩
  rcases hpast.progress with
    ⟨op, hsettled⟩ | ⟨hle, hstill⟩ | ⟨hlt, hdone⟩
  · have hstays :=
      (stepInvariant_settled q base t _).visitCell onTimeOut timer.iterSlot
        fuel iter hsettled hcell
    rw [hvisit] at hstays
    exact .inl ⟨op, hstays⟩
  · by_cases heq : iter = timer.iterPos
    · subst iter
      rw [hpast.sound.consistent.cell hstill.timers hqueue,
        Option.some.injEq] at hcell
      subst ptr
      exact .inr (.inr ⟨by omega,
        hown exec continues next hpast.sound hpast.clock_eq hstill
          hvisit⟩)
    · have hwatched :=
        Watched.visitCell (.inl hstill) onTimeOut fuel hpast.sound hqueue
          (fun _ => Ne.symm heq) hcell hlive
      rw [hvisit] at hwatched
      rcases hwatched with hwaits | htouched
      · exact .inr (.inl ⟨by omega, hwaits⟩)
      · exact .inl htouched
  · have hkept := hlater exec iter ptr hpast.sound hlt hdone hcell hlive
    rw [hvisit] at hkept
    rcases hkept with htouched | hafter
    · exact .inl htouched
    · exact .inr (.inr ⟨by omega, hafter⟩)

end WalkPast

/-- A tick of the timer's own slot. -/
theorem Waiting.tick_own
    (hwaiting : Waiting base t timer exec) (hsound : Sound q exec)
    (hqueue : timer.queue = some q)
    (hslot : timer.iterSlot = (exec.world.clock q).currentSlot)
    (htick : exec.tick onTimeOut q fuel = .ok next)
    {after : Exec → Prop}
    (hown :
      OwnVisit base q t timer onTimeOut fuel (exec.world.clock q).advance
        after)
    (hlater : LaterVisits base q t timer onTimeOut fuel after) :
    (∃ op, Settled base t (.performed op) next) ∨ after next := by
  unfold Exec.tick at htick
  rw [← hslot] at htick
  have hstart :
      WalkPast base q t timer (exec.world.clock q).advance after 0
        (exec.tickStarted q) :=
    ⟨hsound.ticked, exec.clock_tickStarted q,
      .inr (.inl ⟨Nat.zero_le _, hwaiting.tickStarted q⟩)⟩
  have hwalk :=
    UnorderedList.forEach_returned
      (fun iter state
          (hpast : WalkPast base q t timer (exec.world.clock q).advance
            after iter state) hcell => hpast.skip hqueue hcell)
      (fun _ _ _ _ _ hpast hcell hlive hvisit =>
        ⟨visitCell_continues hvisit,
          hpast.visit hqueue hown hlater hcell hlive hvisit⟩)
      hstart htick
  obtain ⟨last, hpast, hlength⟩ := hwalk
  rcases hpast.progress with htouched | ⟨hle, hstill⟩ | ⟨_, hdone⟩
  · exact .inl htouched
  · -- The walk does not end before it has come to the cell of the timer.
    have hfound := hpast.sound.consistent.cell hstill.timers hqueue
    have hbound := (List.getElem?_eq_some_iff.mp hfound).1
    omega
  · exact .inr hdone

theorem Waiting.tick_due
    (hwaiting : Waiting base t timer exec) (hsound : Sound q exec)
    (hqueue : timer.queue = some q)
    (hslot : timer.iterSlot = (exec.world.clock q).currentSlot)
    (hdue :
      timer.nextHandleTime ≤
        (exec.world.clock q).advance.lastUpdateTime)
    (htick : exec.tick onTimeOut q fuel = .ok next) :
    (∃ op, Settled base t (.performed op) next) ∨
      Settled base t
        (.fired (exec.world.clock q).advance.lastUpdateTime t
          timer.nextHandleTime) next := by
  apply hwaiting.tick_own hsound hqueue hslot htick
  · intro state continues visited _ hclock hstill hvisit
    rw [← hclock] at hdue ⊢
    exact hstill.visitCell_due hdue hvisit
  · intro state iter ptr _ _ hafter hcell _
    exact .inr ((stepInvariant_settled q base t _).visitCell onTimeOut
      timer.iterSlot fuel iter hafter hcell)

theorem Waiting.tick_later
    (hwaiting : Waiting base t timer exec) (hsound : Sound q exec)
    (hqueue : timer.queue = some q)
    (hslot : timer.iterSlot = (exec.world.clock q).currentSlot)
    (hlater :
      (exec.world.clock q).advance.lastUpdateTime <
        timer.nextHandleTime)
    (hlt : timer.nextHandleTime < 18446744073709551616)
    (htick : exec.tick onTimeOut q fuel = .ok next) :
    (∃ op, Settled base t (.performed op) next) ∨
      ∃ record,
        Requeued q (exec.world.clock q).advance timer record ∧
          Waiting base t record next := by
  apply hwaiting.tick_own hsound hqueue hslot htick
  · intro state continues visited hstate hclock hstill hvisit
    rw [← hclock] at hlater ⊢
    rw [hstill.visitCell_later hlater hvisit]
    exact hstill.requeue_own hstate.consistent hqueue hlt
  · rintro state iter ptr hstate hpos ⟨record, hrequeued, hstill⟩ hcell
      hlive
    -- Back in the same slot it is in the same cell, which is behind.
    have hwatched :=
      Watched.visitCell (.inl hstill) onTimeOut fuel hstate hrequeued.queue
        (fun hsame => by
          have hcellPos := hrequeued.iterPos hsame
          omega) hcell hlive
    rcases hwatched with hwaits | htouched
    · exact .inr ⟨record, hrequeued, hwaits⟩
    · exact .inl htouched

end Tick

end GreenTurtle.Timers
