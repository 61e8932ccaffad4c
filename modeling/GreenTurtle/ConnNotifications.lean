import GreenTurtle.ConnManager
import Mathlib.Tactic

/-!
# The notifications of the connection manager

Additions and removals wait in two sets, which `Update` takes away together
under the lock and hands to the callbacks one after the other.  Between the
lock and the callbacks they are in flight: neither pending nor notified.
-/

namespace GreenTurtle.Connections

open Execution

def ConnCall.added : ConnCall → Option HandlerId
  | .add ptr => some ptr
  | .remove _ => none

def ConnCall.removed : ConnCall → Option HandlerId
  | .add _ => none
  | .remove ptr => some ptr

def ConnLabel.call : ConnLabel → Option ConnCall
  | .addConn ptr => some (.add ptr)
  | .removeConn ptr => some (.remove ptr)
  | .update => none

/-- The handlers passed to `AddConn`, in the order of the calls. -/
def addedCalls (calls : List ConnCall) : List HandlerId :=
  calls.filterMap ConnCall.added

def removedCalls (calls : List ConnCall) : List HandlerId :=
  calls.filterMap ConnCall.removed

def Notice.addSet : Notice → List HandlerId
  | .added handlers => handlers
  | .removed _ => []

def Notice.removeSet : Notice → List HandlerId
  | .added _ => []
  | .removed handlers => handlers

/-- The sets handed to the add callback, one after the other. -/
def addNotified (notices : List Notice) : List HandlerId :=
  notices.flatMap Notice.addSet

def removeNotified (notices : List Notice) : List HandlerId :=
  notices.flatMap Notice.removeSet

def UpdateStage.addSet : UpdateStage → List HandlerId
  | .collected addSet _ => addSet
  | _ => []

def UpdateStage.removeSet : UpdateStage → List HandlerId
  | .idle => []
  | .collected _ removeSet => removeSet
  | .addNotified removeSet => removeSet

/-- Whoever is reported as removed has been reported as added before. -/
def AddsFirst (notices : List Notice) : Prop :=
  ∀ (before : List Notice) (handlers : List HandlerId)
      (after : List Notice),
    notices = before ++ .removed handlers :: after →
      ∀ ptr ∈ handlers, ptr ∈ addNotified before

/-- `RemoveConn` is called only for handlers passed to `AddConn` before. -/
def RemovedAfterAdded (system : ConnSystem) : ConnLabel → Prop
  | .removeConn ptr => ptr ∈ addedCalls system.calls
  | _ => True

instance (system : ConnSystem) (label : ConnLabel) :
    Decidable (RemovedAfterAdded system label) :=
  match label with
  | .addConn _ => instDecidableTrue
  | .removeConn _ => List.instDecidableMemOfLawfulBEq _ _
  | .update => instDecidableTrue

/-- A callback that is not called because its set is empty changes nothing. -/
theorem addNotified_send (notices : List Notice) (addSet : List HandlerId) :
    addNotified
        (if addSet = [] then notices else notices ++ [.added addSet]) =
      addNotified notices ++ addSet := by
  split
  next heq => simp [heq]
  next => simp [addNotified, Notice.addSet]

theorem removeNotified_send
    (notices : List Notice) (removeSet : List HandlerId) :
    removeNotified
        (if removeSet = [] then notices
          else notices ++ [.removed removeSet]) =
      removeNotified notices ++ removeSet := by
  split
  next heq => simp [heq]
  next => simp [removeNotified, Notice.removeSet]

theorem removeNotified_send_added
    (notices : List Notice) (addSet : List HandlerId) :
    removeNotified
        (if addSet = [] then notices else notices ++ [.added addSet]) =
      removeNotified notices := by
  split
  next => rfl
  next => simp [removeNotified, Notice.removeSet]

theorem addNotified_send_removed
    (notices : List Notice) (removeSet : List HandlerId) :
    addNotified
        (if removeSet = [] then notices
          else notices ++ [.removed removeSet]) =
      addNotified notices := by
  split
  next => rfl
  next => simp [addNotified, Notice.addSet]

theorem AddsFirst.send_added
    {notices : List Notice} (hfirst : AddsFirst notices)
    (addSet : List HandlerId) :
    AddsFirst
      (if addSet = [] then notices else notices ++ [.added addSet]) := by
  split
  next => exact hfirst
  next =>
    intro before handlers after hsplit
    rcases List.eq_nil_or_concat after with hnil | ⟨rest, last, hlast⟩
    · subst after
      have hlast := congrArg List.getLast? hsplit
      simp at hlast
    · subst after
      rw [List.concat_eq_append, ← List.cons_append,
        ← List.append_assoc] at hsplit
      exact hfirst before handlers rest (List.append_inj_left' hsplit rfl)

theorem AddsFirst.send_removed
    {notices : List Notice} (hfirst : AddsFirst notices)
    {removeSet : List HandlerId}
    (hadded : ∀ ptr ∈ removeSet, ptr ∈ addNotified notices) :
    AddsFirst
      (if removeSet = [] then notices
        else notices ++ [.removed removeSet]) := by
  split
  next => exact hfirst
  next =>
    intro before handlers after hsplit
    rcases List.eq_nil_or_concat after with hnil | ⟨rest, last, hlast⟩
    · subst after
      have hinj := List.append_inj' hsplit rfl
      simp only [List.cons.injEq, Notice.removed.injEq, and_true] at hinj
      rw [← hinj.1, ← hinj.2]
      exact hadded
    · subst after
      rw [List.concat_eq_append, ← List.cons_append,
        ← List.append_assoc] at hsplit
      exact hfirst before handlers rest (List.append_inj_left' hsplit rfl)

/-! ## Removals -/

/-- Every removal has been reported, is in flight, or is pending. -/
def RemovalsKept (system : ConnSystem) : Prop :=
  removeNotified system.notices ++ system.updater.removeSet ++
      system.manager.removeHandlerSet =
    removedCalls system.calls

section Removals

variable {fd : HandlerId → Descriptor}

theorem removedCalls_addConn (system : ConnSystem) (ptr : HandlerId) :
    removedCalls (system.addConn ptr).calls =
      removedCalls system.calls := by
  simp [ConnSystem.addConn, removedCalls, ConnCall.removed]

theorem RemovalsKept.addConn
    {system : ConnSystem} (hkept : RemovalsKept system)
    (ptr : HandlerId) : RemovalsKept (system.addConn ptr) := by
  unfold RemovalsKept
  rw [removedCalls_addConn]
  exact hkept

theorem ConnManager.removeConn_removeHandlerSet
    (manager : ConnManager) (ptr : HandlerId) :
    (manager.removeConn fd ptr).removeHandlerSet =
      manager.removeHandlerSet ++ [ptr] := by
  unfold ConnManager.removeConn ConnManager.resetHandler
  split <;> rfl

theorem removedCalls_removeConn (system : ConnSystem) (ptr : HandlerId) :
    removedCalls (system.removeConn fd ptr).calls =
      removedCalls system.calls ++ [ptr] := by
  simp [ConnSystem.removeConn, removedCalls, ConnCall.removed]

theorem RemovalsKept.removeConn
    {system : ConnSystem} (hkept : RemovalsKept system)
    (ptr : HandlerId) : RemovalsKept (system.removeConn fd ptr) := by
  have hremoves :
      (system.removeConn fd ptr).manager.removeHandlerSet =
        system.manager.removeHandlerSet ++ [ptr] :=
    ConnManager.removeConn_removeHandlerSet system.manager ptr
  unfold RemovalsKept
  rw [removedCalls_removeConn, ← hkept, List.append_assoc _ _ [ptr],
    ← hremoves]
  rfl

theorem RemovalsKept.updateStep
    {system next : ConnSystem} (hkept : RemovalsKept system)
    (hstep : system.updateStep fd = some next) :
    RemovalsKept next := by
  unfold RemovalsKept at hkept ⊢
  cases ConnSystem.updateStep_updated hstep with
  | collect hstage happlied =>
      rw [hstage] at hkept
      simpa [UpdateStage.removeSet] using hkept
  | @notifyAdd addSet removeSet hstage =>
      rw [hstage] at hkept
      dsimp only
      rw [removeNotified_send_added]
      exact hkept
  | @notifyRemove removeSet hstage =>
      rw [hstage] at hkept
      dsimp only
      rw [removeNotified_send]
      simpa [UpdateStage.removeSet] using hkept

end Removals

/-! ## Every step keeps the order -/

structure InOrder (system : ConnSystem) : Prop where
  adds :
    addNotified system.notices ++ system.updater.addSet ++
        system.manager.addHandlerSet =
      addedCalls system.calls
  removes :
    removeNotified system.notices ++ system.updater.removeSet ++
        system.manager.removeHandlerSet =
      removedCalls system.calls
  pending_added :
    ∀ ptr ∈ system.manager.removeHandlerSet,
      ptr ∈ addedCalls system.calls
  flight_added :
    ∀ ptr ∈ system.updater.removeSet,
      ptr ∈ addNotified system.notices ++ system.updater.addSet
  addsFirst : AddsFirst system.notices

section Order

variable {fd : HandlerId → Descriptor}

theorem InOrder.new : InOrder ConnSystem.new := by
  constructor
  · rfl
  · rfl
  · simp [ConnSystem.new, ConnManager.new]
  · simp [ConnSystem.new, UpdateStage.removeSet]
  · intro before handlers after hsplit
    simp [ConnSystem.new] at hsplit

theorem InOrder.addConn
    {system : ConnSystem} (horder : InOrder system) (ptr : HandlerId) :
    InOrder (system.addConn ptr) := by
  have hadded :
      addedCalls (system.addConn ptr).calls =
        addedCalls system.calls ++ [ptr] := by
    simp [ConnSystem.addConn, addedCalls, ConnCall.added]
  constructor
  · rw [hadded, ← horder.adds, List.append_assoc _ _ [ptr]]
    rfl
  · exact RemovalsKept.addConn horder.removes ptr
  · intro found hmem
    rw [hadded]
    exact List.mem_append_left _ (horder.pending_added found hmem)
  · exact horder.flight_added
  · exact horder.addsFirst

theorem InOrder.removeConn
    {system : ConnSystem} (horder : InOrder system) {ptr : HandlerId}
    (hcalled : ptr ∈ addedCalls system.calls) :
    InOrder (system.removeConn fd ptr) := by
  have hadded :
      addedCalls (system.removeConn fd ptr).calls =
        addedCalls system.calls := by
    simp [ConnSystem.removeConn, addedCalls, ConnCall.added]
  have hadds :
      (system.removeConn fd ptr).manager.addHandlerSet =
        system.manager.addHandlerSet :=
    ConnManager.removeConn_addHandlerSet system.manager ptr
  have hremoves :
      (system.removeConn fd ptr).manager.removeHandlerSet =
        system.manager.removeHandlerSet ++ [ptr] :=
    ConnManager.removeConn_removeHandlerSet system.manager ptr
  constructor
  · rw [hadded, ← horder.adds, ← hadds]
    rfl
  · exact RemovalsKept.removeConn horder.removes ptr
  · intro found hmem
    rw [hadded]
    have hmem' :
        found ∈ system.manager.removeHandlerSet ++ [ptr] :=
      hremoves ▸ hmem
    rcases List.mem_append.mp hmem' with hold | hnew
    · exact horder.pending_added found hold
    · rw [List.mem_singleton.mp hnew]
      exact hcalled
  · exact horder.flight_added
  · exact horder.addsFirst

theorem InOrder.updateStep
    {system next : ConnSystem} (horder : InOrder system)
    (hstep : system.updateStep fd = some next) :
    InOrder next := by
  have hkept := RemovalsKept.updateStep horder.removes hstep
  cases ConnSystem.updateStep_updated hstep with
  | collect hstage happlied =>
      have hadds := horder.adds
      rw [hstage] at hadds
      constructor
      · simpa [UpdateStage.addSet] using hadds
      · exact hkept
      · simp
      · intro ptr hmem
        have hcalled := horder.pending_added ptr hmem
        rw [← hadds] at hcalled
        simpa [UpdateStage.addSet] using hcalled
      · exact horder.addsFirst
  | @notifyAdd addSet removeSet hstage =>
      have hadds := horder.adds
      have hflight := horder.flight_added
      rw [hstage] at hadds hflight
      constructor
      · dsimp only
        rw [addNotified_send]
        simpa [UpdateStage.addSet] using hadds
      · exact hkept
      · exact horder.pending_added
      · intro ptr hmem
        dsimp only
        rw [addNotified_send]
        exact List.mem_append_left _ (hflight ptr hmem)
      · exact horder.addsFirst.send_added addSet
  | @notifyRemove removeSet hstage =>
      have hadds := horder.adds
      have hflight := horder.flight_added
      rw [hstage] at hadds hflight
      constructor
      · dsimp only
        rw [addNotified_send_removed]
        exact hadds
      · exact hkept
      · exact horder.pending_added
      · simp [UpdateStage.removeSet]
      · apply horder.addsFirst.send_removed
        intro ptr hmem
        simpa [UpdateStage.addSet] using hflight ptr hmem

theorem InOrder.step
    {system next : ConnSystem} {label : ConnLabel}
    (horder : InOrder system) (hallowed : RemovedAfterAdded system label)
    (hstep : system.step fd label = some next) :
    InOrder next := by
  cases label with
  | addConn ptr =>
      simp only [ConnSystem.step, Option.some.injEq] at hstep
      exact hstep ▸ horder.addConn ptr
  | removeConn ptr =>
      simp only [ConnSystem.step, Option.some.injEq] at hstep
      exact hstep ▸ horder.removeConn hallowed
  | update => exact horder.updateStep hstep

/-! ## Whole runs -/

theorem ConnSystem.updateStep_calls
    {system next : ConnSystem}
    (hstep : system.updateStep fd = some next) :
    next.calls = system.calls := by
  cases ConnSystem.updateStep_updated hstep with
  | collect hidle happlied => rfl
  | notifyAdd hstage => rfl
  | notifyRemove hstage => rfl

/-- The calls a system remembers are those that the run consists of. -/
theorem ConnSystem.run_calls
    {labels : List ConnLabel} {system final : ConnSystem}
    (hrun : run (ConnSystem.step fd) system labels = some final) :
    final.calls = system.calls ++ labels.filterMap ConnLabel.call := by
  induction labels generalizing system with
  | nil =>
      simp only [run, Option.some.injEq] at hrun
      simp [hrun]
  | cons label labels ih =>
      rcases (run_cons_eq_some_iff _).mp hrun with ⟨next, hstep, hrest⟩
      rw [ih hrest]
      cases label with
      | addConn ptr =>
          simp only [ConnSystem.step, Option.some.injEq] at hstep
          simp [← hstep, ConnSystem.addConn, ConnLabel.call]
      | removeConn ptr =>
          simp only [ConnSystem.step, Option.some.injEq] at hstep
          simp [← hstep, ConnSystem.removeConn, ConnLabel.call]
      | update =>
          rw [ConnSystem.updateStep_calls hstep,
            List.filterMap_cons_none rfl]

/-- Every call is notified exactly once and in the order of the calls, what is
not yet notified is pending or, while an `Update` is under way, in its hands;
and nobody is reported as removed before being reported as added. -/
theorem connManager_notifies_in_order
    {labels : List ConnLabel} {system : ConnSystem}
    (hrun :
      run (ConnSystem.step fd) ConnSystem.new labels = some system)
    (hcalls :
      EachStep (ConnSystem.step fd) RemovedAfterAdded ConnSystem.new
        labels) :
    addNotified system.notices ++ system.updater.addSet ++
          system.manager.addHandlerSet =
        addedCalls (labels.filterMap ConnLabel.call) ∧
      removeNotified system.notices ++ system.updater.removeSet ++
          system.manager.removeHandlerSet =
        removedCalls (labels.filterMap ConnLabel.call) ∧
      (system.updater = .idle →
        addNotified system.notices ++ system.manager.addHandlerSet =
            addedCalls (labels.filterMap ConnLabel.call) ∧
          removeNotified system.notices ++
              system.manager.removeHandlerSet =
            removedCalls (labels.filterMap ConnLabel.call)) ∧
      AddsFirst system.notices := by
  have horder : InOrder system :=
    run_preserves (ConnSystem.step fd) InOrder RemovedAfterAdded
      (fun _ _ _ hinv hlabel hstep => hinv.step hlabel hstep)
      InOrder.new hrun hcalls
  have hhistory : system.calls = labels.filterMap ConnLabel.call :=
    ConnSystem.run_calls hrun
  have hadds := horder.adds
  have hremoves := horder.removes
  rw [hhistory] at hadds hremoves
  refine ⟨hadds, hremoves, ?_, horder.addsFirst⟩
  intro hidle
  rw [hidle] at hadds hremoves
  constructor
  · simpa [UpdateStage.addSet] using hadds
  · simpa [UpdateStage.removeSet] using hremoves

/-- A handler is removed while the `Update` that reports its addition is under
way; its removal waits for the next one. -/
theorem connManager_notifies_in_order_interleaved :
    ∃ system,
      run (ConnSystem.step smallDescriptor) ConnSystem.new
          [.addConn 3, .update, .removeConn 3, .addConn 4, .update, .update,
            .update, .update, .update] =
        some system ∧
      EachStep (ConnSystem.step smallDescriptor) RemovedAfterAdded
        ConnSystem.new
        [.addConn 3, .update, .removeConn 3, .addConn 4, .update, .update,
          .update, .update, .update] ∧
      system.notices = [.added [3], .added [4], .removed [3]] ∧
      AddsFirst system.notices := by
  have hrun :
      ∃ system,
        run (ConnSystem.step smallDescriptor) ConnSystem.new
            [.addConn 3, .update, .removeConn 3, .addConn 4, .update,
              .update, .update, .update, .update] =
          some system ∧
        system.notices = [.added [3], .added [4], .removed [3]] :=
    ⟨_, rfl, rfl⟩
  rcases hrun with ⟨system, hrun, hnotices⟩
  have hcalls :
      EachStep (ConnSystem.step smallDescriptor) RemovedAfterAdded
        ConnSystem.new
        [.addConn 3, .update, .removeConn 3, .addConn 4, .update, .update,
          .update, .update, .update] := by
    decide
  exact ⟨system, hrun, hcalls, hnotices,
    (connManager_notifies_in_order hrun hcalls).2.2.2⟩

end Order

end GreenTurtle.Connections
