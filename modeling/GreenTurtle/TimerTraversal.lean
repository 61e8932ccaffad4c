import GreenTurtle.TimerLinks
import GreenTurtle.TimerRefinement
import GreenTurtle.TimerRounds
import GreenTurtle.UnorderedListTraversal
import Mathlib.Tactic

/-!
# The traversal of a slot by `Update`

The lambda of `Update` calls `OnTimeOut`, which may schedule, cancel and destroy
any timer, and it puts timers back into the wheel.  On the list that is being
traversed all this comes down to insertions and erasures, so what holds of
every traversal holds of this one.
-/

namespace GreenTurtle.Timers

open Execution
open UnorderedList (ListCall passes StaysLive PassedIfRefilled)

/-- A list that calls have led to. -/
def Called (l next : UnorderedList TimerPtr) : Prop :=
  ∃ calls : List (ListCall TimerPtr), next = calls.foldl ListCall.apply l

section Calls

variable {l next : UnorderedList TimerPtr}

theorem Called.insert (hcalled : Called l next) (ptr : TimerPtr) :
    Called l (next.insert ptr).2 := by
  obtain ⟨calls, rfl⟩ := hcalled
  refine ⟨calls ++ [.insert ptr], ?_⟩
  rw [List.foldl_append]
  rfl

theorem Called.erase (hcalled : Called l next) (idx : ℕ) :
    Called l (next.erase idx) := by
  obtain ⟨calls, rfl⟩ := hcalled
  refine ⟨calls ++ [.erase idx], ?_⟩
  rw [List.foldl_append]
  rfl

end Calls

section Slot

variable {l : UnorderedList TimerPtr} {q : QueueId} {slot : ℕ}
  {world : World}

theorem Called.setList
    (hcalled : Called l (world.slotList q slot)) {owner : QueueId}
    {place : ℕ} {changed : UnorderedList TimerPtr}
    (hchanged :
      Called l (world.slotList owner place) → Called l changed) :
    Called l ((world.setList owner place changed).slotList q slot) := by
  rw [World.slotList_setList_eq]
  split
  next hsame =>
    obtain ⟨rfl, rfl⟩ := hsame
    exact hchanged hcalled
  next => exact hcalled

theorem Called.cancelTimer
    (hcalled : Called l (world.slotList q slot)) (self : QueueId)
    (ptr : TimerPtr) :
    Called l ((world.cancelTimer self ptr).slotList q slot) := by
  unfold World.cancelTimer
  split
  next t =>
    split
    next => exact hcalled
    next timer _ =>
      split
      next => exact hcalled
      next owner _ =>
        split
        next =>
          rw [World.slotList_setTimer]
          exact hcalled.setList fun hlist => hlist.erase timer.iterPos
        next => exact hcalled
  next => exact hcalled

theorem Called.scheduleTimer
    (hcalled : Called l (world.slotList q slot)) (self : QueueId)
    (t : TimerId) (timerInterval : ℕ) (timeDelay : ℤ) :
    Called l
      ((world.scheduleTimer self t timerInterval timeDelay).slotList q
        slot) := by
  cases htimer : world.timers t with
  | none =>
      simp only [World.scheduleTimer, htimer]
      exact hcalled
  | some timer =>
      rw [World.scheduleTimer_eq_placeTimer htimer, World.placeTimer,
        World.slotList_setTimer]
      exact (hcalled.cancelTimer self (.timer t)).setList
        fun hlist => hlist.insert (.timer t)

theorem Called.perform
    (hcalled : Called l (world.slotList q slot)) (self : QueueId)
    (op : TimerOp) :
    Called l ((op.perform self world).slotList q slot) := by
  cases op with
  | create t => exact hcalled
  | schedule t timerInterval timeDelay =>
      exact hcalled.scheduleTimer self t timerInterval timeDelay
  | cancel ptr => exact hcalled.cancelTimer self ptr
  | destroy t =>
      simp only [TimerOp.perform, World.destroyTimer]
      split
      next => exact hcalled
      next timer _ =>
        cases timer.queue with
        | none => exact hcalled
        | some owner => exact hcalled.cancelTimer owner (.timer t)

theorem visitInvariant_called (q self : QueueId) (slot : ℕ) :
    VisitInvariant self fun exec =>
      Called l (exec.world.slotList q slot) where
  perform := by
    intro exec op hcalled
    unfold Exec.perform
    split
    next => exact hcalled.perform self op
    next => exact hcalled
  fired := by
    intro exec t timer hcalled _
    exact hcalled
  requeue := by
    intro exec ptr hcalled
    apply Exec.requeue_cases
      (motive := fun exec => Called l (exec.world.slotList q slot)) hcalled
    intro t timer _ _
    exact hcalled.scheduleTimer self t _ _
  dropNull := by
    intro exec place iter hcalled _
    exact hcalled.setList fun hlist => hlist.erase iter

end Slot

/-! ## The lambda as a callback -/

section Sweep

variable {q : QueueId} {onTimeOut : Callback} {exec next : Exec}
  {fuel : ℕ}

theorem visitCell_called
    (slot : ℕ) (ptr : TimerPtr) (iter : ℕ) (exec : Exec) :
    Called (exec.world.slotList q slot)
      ((stateOf
        (exec.visitCell onTimeOut q slot fuel ptr iter)).world.slotList q
          slot) := by
  have hstart :
      Called (exec.world.slotList q slot) (exec.world.slotList q slot) :=
    ⟨[], rfl⟩
  by_cases hptr : ptr = .null
  · subst ptr
    exact hstart.setList fun hlist => hlist.erase iter
  · have hinv := @visitInvariant_called (exec.world.slotList q slot) q q slot
    have hfired := hinv.fireWhileDue onTimeOut slot iter fuel ptr hstart
    rw [visitCell_of_ne_null hptr]
    cases hresult :
        Exec.fireWhileDue onTimeOut q slot iter fuel ptr exec with
    | error stopped =>
        rw [hresult] at hfired
        exact hfired
    | ok result =>
        obtain ⟨left, visited⟩ := result
        rw [hresult] at hfired
        exact hinv.requeue visited left hfired

/-- The lambda, which always returns true, with the calls it comes down to. -/
noncomputable def slotCallback
    (onTimeOut : Callback) (q : QueueId) (slot fuel : ℕ) :
    UnorderedList.Callback TimerPtr Exec where
  view exec := exec.world.slotList q slot
  fn ptr iter exec :=
    (true, stateOf (exec.visitCell onTimeOut q slot fuel ptr iter))
  calls ptr iter exec := (visitCell_called slot ptr iter exec).choose
  view_fn ptr iter exec := (visitCell_called slot ptr iter exec).choose_spec

theorem tick_eq_traverse
    (htick : exec.tick onTimeOut q fuel = .ok next) :
    ∃ walk,
      (slotCallback onTimeOut q (exec.world.clock q).currentSlot
          fuel).traverse fuel (exec.tickStarted q) =
        .ok walk ∧ walk.state = next := by
  let callback :=
    slotCallback onTimeOut q (exec.world.clock q).currentSlot fuel
  have hreturns :
      UnorderedList.forEach callback.view
          (fun ptr iter state => .ok (callback.fn ptr iter state)) fuel 0
          (exec.tickStarted q) =
        .ok next := by
    apply UnorderedList.forEach_mono ?_ le_rfl htick
    rintro ptr iter state ⟨continues, visited⟩ hvisit
    have htrue := visitCell_continues hvisit
    subst continues
    simp only [callback, slotCallback, hvisit, stateOf]
  rw [UnorderedList.forEach_eq_traverse] at hreturns
  cases hresult : callback.traverse fuel (exec.tickStarted q) with
  | error walk =>
      rw [hresult] at hreturns
      cases hreturns
  | ok walk =>
      rw [hresult] at hreturns
      exact ⟨walk, rfl, Except.ok.inj hreturns⟩

/-- In a tick, every cell of the slot that keeps its timer is visited exactly
once, the cells in the order of their indices, and a cell whose timer is gone
is visited only if another one has been put into it. -/
theorem tick_visits_once
    (htick : exec.tick onTimeOut q fuel = .ok next) :
    ∃ walk,
      (slotCallback onTimeOut q (exec.world.clock q).currentSlot
          fuel).traverse fuel (exec.tickStarted q) =
        .ok walk ∧ walk.state = next ∧
      (passes walk.trace).Pairwise (·.2 < ·.2) ∧
      PassedIfRefilled walk.trace ∧
      ∀ ptr idx,
        StaysLive
            (exec.world.slotList q (exec.world.clock q).currentSlot)
            walk.trace ptr idx →
          (passes walk.trace).filter (·.2 = idx) = [(ptr, idx)] := by
  obtain ⟨walk, hwalk, hnext⟩ := tick_eq_traverse htick
  have hsound :=
    UnorderedList.traverse_sound
      (slotCallback onTimeOut q (exec.world.clock q).currentSlot fuel)
      (exec.tickStarted q) fuel
  have hrunning :=
    UnorderedList.traverse_neverStopped
      (slotCallback onTimeOut q (exec.world.clock q).currentSlot fuel)
      (exec.tickStarted q) (fun _ _ _ => rfl) fuel
  rw [hwalk] at hsound hrunning
  obtain ⟨hordered, honce⟩ := hsound
  refine ⟨walk, hwalk, hnext, hordered.increasing, hordered.refilled, ?_⟩
  intro ptr idx hstays
  have hstart :
      (exec.tickStarted q).world.slotList q
          (exec.world.clock q).currentSlot =
        exec.world.slotList q (exec.world.clock q).currentSlot :=
    World.slotList_setClock _ _ _ _
  rw [← hstart] at hstays
  rw [honce ptr idx hstays]
  rintro ⟨stop, l, hreturned, -⟩
  exact hrunning stop l hreturned

end Sweep

end GreenTurtle.Timers
