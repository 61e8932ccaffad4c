import GreenTurtle.TimerModel
import Mathlib.Tactic

/-!
# What holds throughout an execution

A property that no tick destroys holds after every call of `Update`, and one
that no operation of the program destroys either holds after every list of
calls.  Most properties are not destroyed by any of the single steps of which
the visits of a tick are made, or a call of `Update` with all its ticks; for
these the rules are those of `VisitInvariant` and of `StepInvariant`.
-/

namespace GreenTurtle.Timers

open FixedWidth
open Execution

variable {q : QueueId} {onTimeOut : Callback} {inv : Exec → Prop}
  {exec : Exec}

/-! ## What one step can do -/

theorem Exec.requeue_cases
    {motive : Exec → Prop} {ptr : TimerPtr} (hleft : motive exec)
    (hback :
      ∀ t timer, ptr = .timer t → exec.world.timers t = some timer →
        motive
          (exec.emit (.requeued t)
            (exec.world.scheduleTimer q t timer.timerInterval
              (toInt64 (timer.nextHandleTime -
                (timer.timerInterval +
                  (exec.world.clock q).lastUpdateTime)))))) :
    motive (exec.requeue q ptr) := by
  unfold Exec.requeue
  split
  next t =>
    split
    next => exact hleft
    next timer htimer => exact hback t timer rfl htimer
  next => exact hleft

theorem Exec.startClock_cases
    {motive : Exec → Prop} {currentTime : ℕ} (hruns : motive exec)
    (hstarts :
      (exec.world.clock q).lastUpdateTime = 0 →
        motive
          { exec with
            world :=
              exec.world.setClock q
                { exec.world.clock q with
                  lastUpdateTime := currentTime } }) :
    motive (exec.startClock q currentTime) := by
  unfold Exec.startClock
  dsimp only
  split
  next hzero => exact hstarts hzero
  next => exact hruns

/-! ## From one tick to a list of calls -/

theorem updateLoop_preserves
    (htick :
      ∀ fuel exec, inv exec → inv (outcome (exec.tick onTimeOut q fuel)))
    (deltaTime fuel : ℕ) (hexec : inv exec) :
    inv (outcome (Exec.updateLoop onTimeOut q deltaTime fuel exec)) := by
  induction fuel generalizing exec with
  | zero => exact hexec
  | succ fuel ih =>
      simp only [Exec.updateLoop]
      split
      next =>
        have hnext := htick fuel exec hexec
        cases hresult : exec.tick onTimeOut q fuel with
        | error stopped =>
            rw [hresult] at hnext
            exact hnext
        | ok next =>
            rw [hresult] at hnext
            exact ih hnext
      next => exact hexec

theorem runCalls_preserves
    (hperform : ∀ exec op, inv exec → inv (exec.perform q op))
    (hupdate :
      ∀ fuel currentTime exec, inv exec →
        inv (outcome (exec.update onTimeOut q fuel currentTime)))
    (fuel : ℕ) (calls : List TimerCall) (hexec : inv exec) :
    inv (outcome (Exec.runCalls onTimeOut q fuel calls exec)) := by
  induction calls generalizing exec with
  | nil => exact hexec
  | cons call calls ih =>
      cases call with
      | op op => exact ih (hperform exec op hexec)
      | update currentTime =>
          have hnext := hupdate fuel currentTime exec hexec
          simp only [Exec.runCalls]
          cases hresult : exec.update onTimeOut q fuel currentTime with
          | error stopped =>
              rw [hresult] at hnext
              exact hnext
          | ok next =>
              rw [hresult] at hnext
              exact ih hnext

/-! ## From single steps to one tick -/

/-- Every pointer but the null pointer is treated as a timer. -/
theorem visitCell_of_ne_null
    {ptr : TimerPtr} (hptr : ptr ≠ .null) (slot fuel iter : ℕ)
    (exec : Exec) :
    Exec.visitCell onTimeOut q slot fuel ptr iter exec =
      match Exec.fireWhileDue onTimeOut q slot iter fuel ptr exec with
      | .error stopped => .error stopped
      | .ok (left, next) => .ok (true, next.requeue q left) := by
  cases ptr with
  | null => exact absurd rfl hptr
  | deleted => rfl
  | timer t => rfl

/-- A property of executions that no operation of the program and no single
step of a visit destroys. -/
structure VisitInvariant (q : QueueId) (inv : Exec → Prop) : Prop where
  perform : ∀ exec op, inv exec → inv (exec.perform q op)
  fired :
    ∀ exec t timer, inv exec → exec.world.timers t = some timer →
      inv
        (exec.emit
          (.fired (exec.world.clock q).lastUpdateTime t timer.nextHandleTime)
          (exec.world.advanceTimer t timer))
  requeue : ∀ exec ptr, inv exec → inv (exec.requeue q ptr)
  dropNull :
    ∀ (exec : Exec) (slot iter : ℕ), inv exec →
      (exec.world.slotList q slot).list[iter]? = some .null →
      inv
        { exec with
          world :=
            exec.world.setList q slot
              ((exec.world.slotList q slot).erase iter) }

/-- The same, with the steps by which `Update` moves the clock. -/
structure StepInvariant (q : QueueId) (inv : Exec → Prop) : Prop
    extends VisitInvariant q inv where
  ticked :
    ∀ exec, inv exec →
      inv
        (exec.emit (.ticked (exec.world.clock q).advance.lastUpdateTime)
          (exec.world.setClock q (exec.world.clock q).advance))
  startClock :
    ∀ exec currentTime, inv exec → inv (exec.startClock q currentTime)

namespace VisitInvariant

theorem performAll
    (hinv : VisitInvariant q inv) (ops : List TimerOp) (hexec : inv exec) :
    inv (ops.foldl (Exec.perform q) exec) := by
  induction ops generalizing exec with
  | nil => exact hexec
  | cons op ops ih => exact ih (hinv.perform exec op hexec)

theorem handleTimeOut
    (hinv : VisitInvariant q inv) (onTimeOut : Callback) {t : TimerId}
    {timer : Timer} (htimer : exec.world.timers t = some timer)
    (hexec : inv exec) :
    inv (exec.handleTimeOut onTimeOut q t timer) :=
  hinv.performAll _ (hinv.fired exec t timer hexec htimer)

theorem fireWhileDue
    (hinv : VisitInvariant q inv) (onTimeOut : Callback)
    (slot iter fuel : ℕ) (ptr : TimerPtr) (hexec : inv exec) :
    inv (stateOf
      (Exec.fireWhileDue onTimeOut q slot iter fuel ptr exec)) := by
  induction fuel generalizing ptr exec with
  | zero => exact hexec
  | succ fuel ih =>
      cases ptr with
      | null => exact hexec
      | deleted => exact hexec
      | timer t =>
          simp only [Exec.fireWhileDue]
          split
          next => exact hexec
          next timer htimer =>
            split
            next => exact ih _ (hinv.handleTimeOut onTimeOut htimer hexec)
            next => exact hexec

theorem visitCell
    (hinv : VisitInvariant q inv) (onTimeOut : Callback)
    (slot fuel iter : ℕ) {ptr : TimerPtr} (hexec : inv exec)
    (hcell : (exec.world.slotList q slot).list[iter]? = some ptr) :
    inv (stateOf
      (Exec.visitCell onTimeOut q slot fuel ptr iter exec)) := by
  by_cases hptr : ptr = .null
  · subst ptr
    exact hinv.dropNull exec slot iter hexec hcell
  · have hfired := hinv.fireWhileDue onTimeOut slot iter fuel ptr hexec
    rw [visitCell_of_ne_null hptr]
    cases hresult :
        Exec.fireWhileDue onTimeOut q slot iter fuel ptr exec with
    | error stopped =>
        rw [hresult] at hfired
        exact hfired
    | ok result =>
        obtain ⟨left, next⟩ := result
        rw [hresult] at hfired
        exact hinv.requeue next left hfired

end VisitInvariant

namespace StepInvariant

theorem tick
    (hinv : StepInvariant q inv) (onTimeOut : Callback) (fuel : ℕ)
    (hexec : inv exec) :
    inv (outcome (exec.tick onTimeOut q fuel)) := by
  unfold Exec.tick
  refine UnorderedList.forEach_preserves inv ?_ fuel 0
    (hinv.ticked exec hexec)
  intro ptr iter state hstate hcell _
  exact hinv.visitCell onTimeOut _ fuel iter hstate hcell

theorem update
    (hinv : StepInvariant q inv) (onTimeOut : Callback)
    (fuel currentTime : ℕ) (hexec : inv exec) :
    inv (outcome (exec.update onTimeOut q fuel currentTime)) :=
  updateLoop_preserves (fun fuel _ hstate => hinv.tick onTimeOut fuel hstate)
    _ fuel (hinv.startClock exec currentTime hexec)

theorem runCalls
    (hinv : StepInvariant q inv) (onTimeOut : Callback) (fuel : ℕ)
    (calls : List TimerCall) (hexec : inv exec) :
    inv (outcome (Exec.runCalls onTimeOut q fuel calls exec)) :=
  runCalls_preserves hinv.perform
    (fun fuel currentTime _ hstate =>
      hinv.update onTimeOut fuel currentTime hstate)
    fuel calls hexec

end StepInvariant

end GreenTurtle.Timers
