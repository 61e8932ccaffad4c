import GreenTurtle.Execution
import GreenTurtle.FixedWidth
import GreenTurtle.UnorderedList
import Mathlib.Tactic

/-!
# Timers and the timer wheel

`timer.cc` and `timer_queue.cc`.  Timers and queues refer to each other by
pointer, so both live in one `World` and every operation transforms it.  The
program decides what its `OnTimeOut` callbacks do; an execution therefore takes
a callback that answers each call with the operations it performs.  The
execution also keeps a trace, in which every operation stands with the world it
leaves behind.
-/

namespace GreenTurtle.Timers

open FixedWidth

abbrev TimerId := ℕ
abbrev QueueId := ℕ

/-- The values of type `Timer *` that a cell can hold: a timer, the null
pointer, or the pointer `-1` that marks a deleted cell. -/
inductive TimerPtr where
  | null
  | deleted
  | timer (t : TimerId)
  deriving DecidableEq

instance : Inhabited TimerPtr := ⟨.null⟩

structure Timer where
  queue : Option QueueId
  iterSlot : ℕ
  iterPos : ℕ
  timerInterval : ℕ
  nextHandleTime : ℕ
  deriving DecidableEq

def Timer.new : Timer where
  queue := none
  iterSlot := 0
  iterPos := 0
  timerInterval := 0
  nextHandleTime := 0

def Timer.isInQueue (timer : Timer) : Bool :=
  timer.queue.isSome

/-- The fields of a `TimerQueue` other than its lists. -/
structure WheelClock where
  slotSize : ℕ
  lastUpdateTime : ℕ
  interval : ℕ
  currentSlot : ℕ
  intervalExponent : ℕ
  circleTime : ℕ

/-- The array `queues` has `slotSize` entries; no index outside is used. -/
structure TimerQueue extends WheelClock where
  queues : ℕ → UnorderedList TimerPtr

/-- The loop that divides the interval by two until it is one. -/
def exponentLoop : ℕ → ℕ → Option ℕ
  | 0, _ => none
  | fuel + 1, i =>
      if i = 1 then some 0
      else (exponentLoop fuel (i / 2)).map (· + 1)

/-- The constructor.  The result is missing when the exponent loop does not
end; 65 rounds are enough for every 64-bit interval on which it does. -/
def TimerQueue.new (slotSize interval : ℕ) : Option TimerQueue :=
  (exponentLoop 65 interval).map fun exponent =>
    { queues := fun _ => UnorderedList.new.setDeleted .deleted
      slotSize := slotSize
      lastUpdateTime := 0
      interval := interval
      currentSlot := 0
      intervalExponent := exponent
      circleTime := toUInt64 (slotSize * interval) }

def WheelClock.slotMask (clock : WheelClock) : ℕ :=
  toUInt64 (clock.slotSize - 1)

/-- The slot that `ScheduleTimer` computes. -/
def WheelClock.toSlot
    (clock : WheelClock) (timerInterval : ℕ) (timeDelay : ℤ) : ℕ :=
  toUInt64 (clock.currentSlot +
      (toUInt64 (timeDelay + clock.circleTime + timerInterval) >>>
        clock.intervalExponent : ℕ)) &&&
    clock.slotMask

/-- The head of the outer loop of `Update`: slot index and time move on. -/
def WheelClock.advance (clock : WheelClock) : WheelClock :=
  { clock with
    currentSlot := toUInt64 (clock.currentSlot + 1) &&& clock.slotMask
    lastUpdateTime := toUInt64 (clock.lastUpdateTime + clock.interval) }

theorem exponentLoop_two_pow (exponent extra : ℕ) :
    exponentLoop (exponent + 1 + extra) (2 ^ exponent) = some exponent := by
  induction exponent with
  | zero =>
      rw [show 0 + 1 + extra = extra + 1 by omega]
      simp [exponentLoop]
  | succ exponent ih =>
      have hne : 2 ^ (exponent + 1) ≠ 1 := by
        have hpos : 0 < 2 ^ exponent := by positivity
        omega
      have hhalf : 2 ^ (exponent + 1) / 2 = 2 ^ exponent := by omega
      rw [show exponent + 1 + 1 + extra = (exponent + 1 + extra) + 1 by omega]
      simp only [exponentLoop, hne, if_false, hhalf, ih, Option.map_some]

structure World where
  queues : QueueId → TimerQueue
  timers : TimerId → Option Timer

namespace World

/-- The queue has just been constructed and there is no timer yet. -/
def initial (queue : TimerQueue) : World where
  queues := fun _ => queue
  timers := fun _ => none

def setTimer (world : World) (t : TimerId) (timer : Timer) : World :=
  { world with timers := Function.update world.timers t (some timer) }

def setQueue (world : World) (q : QueueId) (queue : TimerQueue) : World :=
  { world with queues := Function.update world.queues q queue }

def setList
    (world : World) (q : QueueId) (slot : ℕ)
    (list : UnorderedList TimerPtr) : World :=
  world.setQueue q
    { world.queues q with
      queues := Function.update (world.queues q).queues slot list }

def setClock (world : World) (q : QueueId) (clock : WheelClock) : World :=
  world.setQueue q { world.queues q with toWheelClock := clock }

def slotList (world : World) (q : QueueId) (slot : ℕ) :
    UnorderedList TimerPtr :=
  (world.queues q).queues slot

def clock (world : World) (q : QueueId) : WheelClock :=
  (world.queues q).toWheelClock

/-- The bound on the slot is that of the queue on which the method is called,
while the list is taken from the queue the timer is in. -/
def cancelTimer (world : World) (self : QueueId) : TimerPtr → World
  | .timer t =>
      match world.timers t with
      | none => world
      | some timer =>
          match timer.queue with
          | none => world
          | some owner =>
              if timer.iterSlot < (world.clock self).slotSize then
                (world.setList owner timer.iterSlot
                  ((world.slotList owner timer.iterSlot).erase
                    timer.iterPos)).setTimer t
                  { timer with queue := none }
              else world
  | _ => world

/-- The second half of `ScheduleTimer`: insert the timer and fill its fields. -/
def placeTimer
    (world : World) (self : QueueId) (t : TimerId)
    (slot timerInterval nextHandleTime : ℕ) : World :=
  let inserted := (world.slotList self slot).insert (.timer t)
  (world.setList self slot inserted.2).setTimer t
    { queue := some self
      iterSlot := slot
      iterPos := inserted.1
      timerInterval := timerInterval
      nextHandleTime := nextHandleTime }

def scheduleTimer
    (world : World) (self : QueueId) (t : TimerId)
    (timerInterval : ℕ) (timeDelay : ℤ) : World :=
  match world.timers t with
  | none => world
  | some timer =>
      let nextHandleTime :=
        toUInt64 (timeDelay + timerInterval +
          (world.clock self).lastUpdateTime)
      let world :=
        if timer.isInQueue then world.cancelTimer self (.timer t) else world
      world.placeTimer self t
        ((world.clock self).toSlot timerInterval timeDelay)
        timerInterval nextHandleTime

/-- The destructor, after which the timer no longer exists. -/
def destroyTimer (world : World) (t : TimerId) : World :=
  match world.timers t with
  | none => world
  | some timer =>
      let world :=
        match timer.queue with
        | some owner => world.cancelTimer owner (.timer t)
        | none => world
      { world with timers := Function.update world.timers t none }

/-- The part of `HandleTimeOut` that precedes the callback. -/
def advanceTimer (world : World) (t : TimerId) (timer : Timer) : World :=
  world.setTimer t
    { timer with
      nextHandleTime :=
        toUInt64 (timer.nextHandleTime + timer.timerInterval) }

@[simp] theorem timers_setTimer
    (world : World) (t : TimerId) (timer : Timer) :
    (world.setTimer t timer).timers =
      Function.update world.timers t (some timer) := rfl

@[simp] theorem timers_setList
    (world : World) (q : QueueId) (slot : ℕ)
    (list : UnorderedList TimerPtr) :
    (world.setList q slot list).timers = world.timers := rfl

@[simp] theorem timers_setClock
    (world : World) (q : QueueId) (clock : WheelClock) :
    (world.setClock q clock).timers = world.timers := rfl

@[simp] theorem slotList_setTimer
    (world : World) (t : TimerId) (timer : Timer) (q : QueueId)
    (slot : ℕ) :
    (world.setTimer t timer).slotList q slot = world.slotList q slot := rfl

@[simp] theorem slotList_setClock
    (world : World) (q : QueueId) (clock : WheelClock) (slot : ℕ) :
    (world.setClock q clock).slotList q slot = world.slotList q slot := by
  simp [setClock, setQueue, slotList]

theorem slotList_setList
    (world : World) (q : QueueId) (slot other : ℕ)
    (list : UnorderedList TimerPtr) :
    (world.setList q slot list).slotList q other =
      if other = slot then list else world.slotList q other := by
  by_cases heq : other = slot <;>
    simp [setList, setQueue, slotList, Function.update, heq]

@[simp] theorem clock_setTimer
    (world : World) (t : TimerId) (timer : Timer) (q : QueueId) :
    (world.setTimer t timer).clock q = world.clock q := rfl

@[simp] theorem clock_setList
    (world : World) (q other : QueueId) (slot : ℕ)
    (list : UnorderedList TimerPtr) :
    (world.setList other slot list).clock q = world.clock q := by
  by_cases heq : q = other
  · subst q
    simp [setList, setQueue, clock]
  · simp [setList, setQueue, clock, Function.update, heq]

@[simp] theorem clock_setClock
    (world : World) (q : QueueId) (clock : WheelClock) :
    (world.setClock q clock).clock q = clock := by
  simp [setClock, setQueue, World.clock]

@[simp] theorem clock_cancelTimer
    (world : World) (self q : QueueId) (ptr : TimerPtr) :
    (world.cancelTimer self ptr).clock q = world.clock q := by
  unfold cancelTimer
  split
  next t =>
    split
    next => rfl
    next timer _ =>
      split
      next => rfl
      next => split <;> simp
  next => rfl

@[simp] theorem clock_scheduleTimer
    (world : World) (self q : QueueId) (t : TimerId)
    (timerInterval : ℕ) (timeDelay : ℤ) :
    (world.scheduleTimer self t timerInterval timeDelay).clock q =
      world.clock q := by
  unfold scheduleTimer
  split
  next => rfl
  next timer _ =>
    cases hqueued : timer.isInQueue <;> simp [placeTimer]

end World

/-! ## Executions -/

/-- What the program may ask for outside of `Update`. -/
inductive TimerOp where
  | create (t : TimerId)
  | schedule (t : TimerId) (timerInterval : ℕ) (timeDelay : ℤ)
  | cancel (ptr : TimerPtr)
  | destroy (t : TimerId)
  deriving DecidableEq

inductive TimerEvent where
  | performed (op : TimerOp)
  | ticked (lastUpdateTime : ℕ)
  | fired (lastUpdateTime : ℕ) (t : TimerId) (time : ℕ)
  | requeued (t : TimerId)
  deriving DecidableEq

structure Exec where
  world : World
  trace : List (TimerEvent × World)

/-- The operations an `OnTimeOut` callback performs, given everything that has
happened so far, the timer, and the time it is handed. -/
abbrev Callback := Exec → TimerId → ℕ → List TimerOp

/-- A pointer is passed to the queue only while its timer exists, and a timer
is constructed only at an unused address. -/
def TimerOp.allowed (world : World) : TimerOp → Bool
  | .create t => (world.timers t).isNone
  | .schedule t _ _ => (world.timers t).isSome
  | .cancel .null => true
  | .cancel .deleted => false
  | .cancel (.timer t) => (world.timers t).isSome
  | .destroy t => (world.timers t).isSome

def TimerOp.perform (q : QueueId) (world : World) : TimerOp → World
  | .create t => world.setTimer t Timer.new
  | .schedule t timerInterval timeDelay =>
      world.scheduleTimer q t timerInterval timeDelay
  | .cancel ptr => world.cancelTimer q ptr
  | .destroy t => world.destroyTimer t

namespace Exec

def start (world : World) : Exec where
  world := world
  trace := []

def emit (exec : Exec) (event : TimerEvent) (world : World) : Exec where
  world := world
  trace := exec.trace ++ [(event, world)]

def perform (q : QueueId) (exec : Exec) (op : TimerOp) : Exec :=
  if op.allowed exec.world then
    exec.emit (.performed op) (op.perform q exec.world)
  else exec

/-- `HandleTimeOut` of a timer, with the callback it ends in. -/
def handleTimeOut
    (onTimeOut : Callback) (q : QueueId) (exec : Exec)
    (t : TimerId) (timer : Timer) : Exec :=
  let fired :=
    exec.emit
      (.fired (exec.world.clock q).lastUpdateTime t timer.nextHandleTime)
      (exec.world.advanceTimer t timer)
  (onTimeOut fired t timer.nextHandleTime).foldl (perform q) fired

/-- The inner loop: as long as the cell holds a timer that is due, call it and
read the cell again. -/
def fireWhileDue
    (onTimeOut : Callback) (q : QueueId) (slot iter : ℕ) :
    ℕ → TimerPtr → Exec → Except Exec (TimerPtr × Exec)
  | 0, _, exec => .error exec
  | fuel + 1, .timer t, exec =>
      match exec.world.timers t with
      | none => .ok (.null, exec)
      | some timer =>
          if timer.nextHandleTime ≤ (exec.world.clock q).lastUpdateTime then
            let called := exec.handleTimeOut onTimeOut q t timer
            fireWhileDue onTimeOut q slot iter fuel
              ((called.world.slotList q slot).get iter) called
          else .ok (.timer t, exec)
  | _ + 1, ptr, exec => .ok (ptr, exec)

/-- A timer that is left in its cell goes back to the wheel with its deadline
unchanged. -/
def requeue (q : QueueId) (exec : Exec) : TimerPtr → Exec
  | .timer t =>
      match exec.world.timers t with
      | none => exec
      | some timer =>
          let timeDelay :=
            toInt64 (timer.nextHandleTime -
              (timer.timerInterval +
                (exec.world.clock q).lastUpdateTime))
          exec.emit (.requeued t)
            (exec.world.scheduleTimer q t timer.timerInterval timeDelay)
  | _ => exec

/-- The lambda that `Update` hands to `for_each`. -/
def visitCell
    (onTimeOut : Callback) (q : QueueId) (slot fuel : ℕ)
    (ptr : TimerPtr) (iter : ℕ) (exec : Exec) :
    Except Exec (Bool × Exec) :=
  match ptr with
  | .null =>
      let world :=
        exec.world.setList q slot ((exec.world.slotList q slot).erase iter)
      .ok (true, { exec with world := world })
  | ptr =>
      match fireWhileDue onTimeOut q slot iter fuel ptr exec with
      | .error stopped => .error stopped
      | .ok (left, next) => .ok (true, next.requeue q left)

/-- One round of the outer loop. -/
def tick
    (onTimeOut : Callback) (q : QueueId) (fuel : ℕ) (exec : Exec) :
    Except Exec Exec :=
  let slot := (exec.world.clock q).currentSlot
  let clock := (exec.world.clock q).advance
  UnorderedList.forEach (fun state : Exec => state.world.slotList q slot)
    (visitCell onTimeOut q slot fuel) fuel 0
    (exec.emit (.ticked clock.lastUpdateTime) (exec.world.setClock q clock))

def updateLoop
    (onTimeOut : Callback) (q : QueueId) (deltaTime : ℕ) :
    ℕ → Exec → Except Exec Exec
  | 0, exec => .error exec
  | fuel + 1, exec =>
      if (exec.world.clock q).lastUpdateTime < deltaTime then
        match tick onTimeOut q fuel exec with
        | .error stopped => .error stopped
        | .ok next => updateLoop onTimeOut q deltaTime fuel next
      else .ok exec

/-- The first call of `Update` starts the clock at the time it is given. -/
def startClock (q : QueueId) (currentTime : ℕ) (exec : Exec) : Exec :=
  let clock := exec.world.clock q
  if clock.lastUpdateTime = 0 then
    { exec with
      world :=
        exec.world.setClock q { clock with lastUpdateTime := currentTime } }
  else exec

def update
    (onTimeOut : Callback) (q : QueueId) (fuel currentTime : ℕ)
    (exec : Exec) : Except Exec Exec :=
  let exec := exec.startClock q currentTime
  updateLoop onTimeOut q
    (toUInt64 (currentTime + (exec.world.clock q).interval)) fuel exec

end Exec

/-- One call made by the program on its queue. -/
inductive TimerCall where
  | op (op : TimerOp)
  | update (currentTime : ℕ)
  deriving DecidableEq

/-- A finite history of calls.  A call of `Update` that runs out of fuel ends
the history, with everything that happened until then. -/
def Exec.runCalls
    (onTimeOut : Callback) (q : QueueId) (fuel : ℕ) :
    List TimerCall → Exec → Except Exec Exec
  | [], exec => .ok exec
  | .op op :: calls, exec =>
      runCalls onTimeOut q fuel calls (exec.perform q op)
  | .update currentTime :: calls, exec =>
      match exec.update onTimeOut q fuel currentTime with
      | .error stopped => .error stopped
      | .ok next => runCalls onTimeOut q fuel calls next

end GreenTurtle.Timers
