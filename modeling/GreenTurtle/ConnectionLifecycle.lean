import GreenTurtle.ConnRelease
import GreenTurtle.EventLoopAccounts
import Mathlib.Tactic

/-!
# The end of a connection

A connection that an acceptor has announced to the connection manager ends with
`BufferedSocket::OnError`, which takes it out of its poller.  By then
`RemoveConn` should have been called for it, exactly once.  That is so when a
write has failed, and only then: after a failed read and after an idle minute
the handler is dropped without telling the manager.  The third way to keep a
dead connection in the table is a write that fails before the manager has
applied the addition.
-/

namespace GreenTurtle.EventLoops

open Connections
open Execution
open Tally

/-! ## The invariant -/

/-- One as long as the handler has not been constructed. -/
def EventLoop.unborn (ptr : HandlerId) (system : EventLoop) : ℕ :=
  if ptr ∈ system.created then 0 else 1

def EventLoop.removals (ptr : HandlerId) (system : EventLoop) : ℕ :=
  (removedCalls system.conns.calls).count ptr

/-- Of a connection there is one token: it is unborn, on its way through the
loops, or has failed. -/
structure Tracked
    (fd : HandlerId → Descriptor) (ptr : HandlerId)
    (system : EventLoop) : Prop where
  once :
    tally (IoLoop.weight ptr) system.loops + system.errors.count ptr +
        system.unborn ptr ≤ 1
  removed :
    system.removals ptr =
      system.errors.count ptr + tally (IoLoop.departures ptr) system.loops
  home :
    ∀ (i : ℕ) loop, system.loops[i]? = some loop →
      0 < loop.presence ptr → (system.handlers ptr).eventLoop = some i
  spared :
    ∀ (i : ℕ) loop, system.loops[i]? = some loop → loop.condemned ptr = 0
  forgotten :
    0 < system.removals ptr ∨ 0 < system.unborn ptr →
      Forgotten ptr system.conns
  indexed : Indexed fd system.conns
  kept : RemovalsKept system.conns

section Lifecycle

variable {fd : HandlerId → Descriptor} {kind : HandlerId → HandlerKind}
variable {ptr : HandlerId} {system final : EventLoop}

theorem IoLoop.presence_le_weight (ptr : HandlerId) (loop : IoLoop) :
    loop.presence ptr ≤ loop.weight ptr :=
  Nat.le_add_left _ _

theorem IoLoop.requests_le_weight (ptr : HandlerId) (loop : IoLoop) :
    loop.requests.count (true, ptr) ≤ loop.weight ptr := by
  unfold IoLoop.weight
  omega

theorem IoLoop.departures_le_weight (ptr : HandlerId) (loop : IoLoop) :
    loop.departures ptr ≤ loop.weight ptr := by
  have hfiring :
      loop.departures ptr ≤ loop.stage.firing.count ptr := by
    unfold IoLoop.departures
    cases loop.stage <;>
      simp [LoopStage.leaving, LoopStage.firing, List.count_cons]
  have hpresence : loop.stage.firing.count ptr ≤ loop.presence ptr :=
    Nat.le_max_right _ _
  exact hfiring.trans (hpresence.trans (loop.presence_le_weight ptr))

theorem Tracked.weight_le
    (htracked : Tracked fd ptr system) {i : ℕ} {loop : IoLoop}
    (hloop : system.loops[i]? = some loop) :
    loop.weight ptr + system.errors.count ptr + system.unborn ptr ≤ 1 := by
  have hle := le_tally (IoLoop.weight ptr) hloop
  have honce := htracked.once
  omega

/-- A handler is not known to a loop while another loop has it. -/
theorem Tracked.weight_eq_zero
    (htracked : Tracked fd ptr system) {i j : ℕ} {loop other : IoLoop}
    (hloop : system.loops[i]? = some loop)
    (hother : system.loops[j]? = some other) (hne : i ≠ j)
    (hpos : 0 < loop.weight ptr) : other.weight ptr = 0 := by
  have hle := add_le_tally (IoLoop.weight ptr) hloop hother hne
  have honce := htracked.once
  omega

theorem LoopCall.removed_of_constructed
    {call : LoopCall} (hnew : ptr ∈ call.constructed) :
    call.removed = [] ∧ call.adopted = [] := by
  cases call with
  | addConn newHandler => exact ⟨rfl, rfl⟩
  | _ => simp [LoopCall.constructed] at hnew

theorem EventLoop.Performed.unborn
    {i : ℕ} {call : LoopCall} {before after : EventLoop}
    (hperformed : EventLoop.Performed fd ptr i call before after) :
    after.unborn ptr + call.constructed.count ptr = before.unborn ptr := by
  unfold EventLoop.unborn
  rw [hperformed.created]
  by_cases hnew : ptr ∈ call.constructed
  · have hfresh := hperformed.fresh ptr hnew
    have hone : call.constructed.count ptr = 1 := by
      cases call <;> simp_all [LoopCall.constructed]
    simp [hnew, hfresh, hone]
  · simp [hnew, List.count_eq_zero_of_not_mem hnew]

theorem EventLoop.Performed.removals
    {i : ℕ} {call : LoopCall} {before after : EventLoop}
    (hperformed : EventLoop.Performed fd ptr i call before after) :
    after.removals ptr = before.removals ptr + call.removed.count ptr := by
  unfold EventLoop.removals
  rw [hperformed.conns]
  cases call with
  | removeConn other =>
      simp only [LoopCall.onConns, LoopCall.removed,
        removedCalls_removeConn, List.count_append]
  | addConn newHandler =>
      simp [LoopCall.onConns, LoopCall.removed, removedCalls_addConn]
  | _ => simp [LoopCall.onConns, LoopCall.removed]

/-! ## A step of a loop -/

/-- What remains to be said about a call on the connection manager. -/
theorem EventLoop.Performed.conns_tracked
    {i : ℕ} {call : LoopCall} {before after : EventLoop}
    (hperformed : EventLoop.Performed fd ptr i call before after)
    (hindexed : Indexed fd before.conns) (hkept : RemovalsKept before.conns)
    (hpositive :
      ∀ newHandler ∈ call.constructed, 0 < (fd newHandler).1) :
    Indexed fd after.conns ∧ RemovalsKept after.conns := by
  rw [hperformed.conns]
  cases call with
  | addConn newHandler =>
      have hpos : 0 < (fd newHandler).1 :=
        hpositive newHandler (by simp [LoopCall.constructed])
      exact ⟨hindexed.addConn hpos, hkept.addConn newHandler⟩
  | removeConn other =>
      exact ⟨hindexed.removeConn other, hkept.removeConn other⟩
  | _ => exact ⟨hindexed, hkept⟩

theorem EventLoop.Performed.forgotten
    {i : ℕ} {call : LoopCall} {before after : EventLoop}
    (hperformed : EventLoop.Performed fd ptr i call before after)
    (hindexed : Indexed fd before.conns)
    (hother : ptr ∉ call.constructed)
    (hold : ptr ∉ call.removed → Forgotten ptr before.conns)
    (happlied :
      ptr ∈ call.removed → ptr ∉ before.conns.manager.addHandlerSet) :
    Forgotten ptr after.conns := by
  rw [hperformed.conns]
  cases call with
  | addConn newHandler =>
      have hne : ptr ≠ newHandler := by
        simpa [LoopCall.constructed] using hother
      exact (hold (by simp [LoopCall.removed])).addConn hne
  | removeConn other =>
      by_cases heq : ptr = other
      · subst other
        exact hindexed.removeConn_forgotten
          (happlied (by simp [LoopCall.removed]))
      · exact (hold (by simpa [LoopCall.removed] using heq)).removeConn
          other
  | _ => exact hold (by simp [LoopCall.removed])

section Perform

variable {i : ℕ} {loop next : IoLoop} {call : LoopCall}

/-- A handler that a loop has is not constructed a second time. -/
theorem Tracked.not_constructed
    (htracked : Tracked fd ptr system)
    (hperformed :
      EventLoop.Performed fd ptr i call
        { system with loops := system.loops.set i next } final)
    {j : ℕ} {other : IoLoop} (hother : system.loops[j]? = some other)
    (hpos : 0 < other.weight ptr) : ptr ∉ call.constructed := by
  intro hnew
  have hcount := List.count_pos_iff.mpr hnew
  have hle := htracked.weight_le hother
  have hunborn :
      final.unborn ptr + call.constructed.count ptr = system.unborn ptr :=
    hperformed.unborn
  omega

theorem Tracked.perform_home
    (htracked : Tracked fd ptr system)
    (hloop : system.loops[i]? = some loop)
    (hmoves : IoLoop.Moves ptr loop next call)
    (hperformed :
      EventLoop.Performed fd ptr i call
        { system with loops := system.loops.set i next } final)
    {j : ℕ} {found : IoLoop} (hfound : final.loops[j]? = some found)
    (hpresent : 0 < found.presence ptr) :
    (final.handlers ptr).eventLoop = some j := by
  rcases hperformed.loops.kept j found hfound with ⟨old, hold, hkept⟩
  have hpresence := hkept.presence
  rcases getElem?_set_eq_some hold with ⟨heq, hnext⟩ | ⟨hne, hother⟩
  · subst j
    subst old
    by_cases hadopted : ptr ∈ call.adopted
    · have hnew : ptr ∉ call.constructed := by
        intro hmem
        simp [(LoopCall.removed_of_constructed hmem).2] at hadopted
      rw [hperformed.eventLoop hnew, if_pos hadopted]
    · have hmovedPresence := hmoves.presence
      rw [List.count_eq_zero_of_not_mem hadopted] at hmovedPresence
      have hhome := htracked.home i loop hloop (by omega)
      have hheld := loop.presence_le_weight ptr
      have hnew := htracked.not_constructed hperformed hloop (by omega)
      rw [hperformed.eventLoop hnew, if_neg hadopted]
      exact hhome
  -- the handler cannot wait in the queue of one loop and be known to another
  · have hhome := htracked.home j old hother (by omega)
    have hheld := old.presence_le_weight ptr
    have hadopted : ptr ∉ call.adopted := by
      intro hmem
      have hqueued := hmoves.adopted
      have hcount := List.count_pos_iff.mpr hmem
      have hwaits := loop.requests_le_weight ptr
      have hempty := htracked.weight_eq_zero hloop hother hne (by omega)
      omega
    have hnew := htracked.not_constructed hperformed hother (by omega)
    rw [hperformed.eventLoop hnew, if_neg hadopted]
    exact hhome

theorem Tracked.perform_forgotten
    (htracked : Tracked fd ptr system)
    (happlied :
      ptr ∈ call.removed →
        ptr ∉ system.conns.manager.addHandlerSet)
    (hperformed :
      EventLoop.Performed fd ptr i call
        { system with loops := system.loops.set i next } final)
    (hgone : 0 < final.removals ptr ∨ 0 < final.unborn ptr) :
    Forgotten ptr final.conns := by
  have hunborn :
      final.unborn ptr + call.constructed.count ptr = system.unborn ptr :=
    hperformed.unborn
  have hremovals :
      final.removals ptr = system.removals ptr + call.removed.count ptr :=
    hperformed.removals
  by_cases hnew : ptr ∈ call.constructed
  · have hcount := List.count_pos_iff.mpr hnew
    have honce := htracked.once
    have hremoved := htracked.removed
    have hleaving :=
      tally_le_tally (IoLoop.departures_le_weight ptr) system.loops
    rw [(LoopCall.removed_of_constructed hnew).1,
      List.count_nil] at hremovals
    omega
  · apply hperformed.forgotten htracked.indexed hnew
    · intro hkept
      apply htracked.forgotten
      rw [List.count_eq_zero_of_not_mem hkept] at hremovals
      rw [List.count_eq_zero_of_not_mem hnew] at hunborn
      omega
    · exact happlied

/-- A step that does not end with the failure of the connection itself. -/
theorem Tracked.perform
    (htracked : Tracked fd ptr system)
    (hloop : system.loops[i]? = some loop)
    (hmoves : IoLoop.Moves ptr loop next call)
    (hspared : next.condemned ptr ≤ loop.condemned ptr)
    (hpositive :
      ∀ newHandler ∈ call.constructed, 0 < (fd newHandler).1)
    (happlied :
      ptr ∈ call.removed →
        ptr ∉ system.conns.manager.addHandlerSet)
    (hnotFailed : ptr ∉ call.failed)
    (hperformed :
      EventLoop.Performed fd ptr i call
        { system with loops := system.loops.set i next } final) :
    Tracked fd ptr final := by
  have hcondemned := htracked.spared i loop hloop
  have herrors : final.errors.count ptr = system.errors.count ptr := by
    rw [hperformed.errors, List.count_append,
      List.count_eq_zero_of_not_mem hnotFailed, Nat.add_zero]
  have hconns :=
    hperformed.conns_tracked htracked.indexed htracked.kept hpositive
  constructor
  · have hold := htracked.once
    have hset := tally_set (IoLoop.weight ptr) hloop next
    have hmoved := hmoves.weight
    have hkept :
        tally (IoLoop.weight ptr) final.loops ≤
          tally (IoLoop.weight ptr) (system.loops.set i next) +
            call.posted.count ptr :=
      hperformed.loops.weight
    have hunborn :
        final.unborn ptr + call.constructed.count ptr =
          system.unborn ptr :=
      hperformed.unborn
    omega
  · have hold := htracked.removed
    have hset := tally_set (IoLoop.departures ptr) hloop next
    have hmoved := hmoves.departures hcondemned
    have hkept :
        tally (IoLoop.departures ptr) final.loops =
          tally (IoLoop.departures ptr) (system.loops.set i next) :=
      hperformed.loops.departures
    have hremovals :
        final.removals ptr =
          system.removals ptr + call.removed.count ptr :=
      hperformed.removals
    have hfailed : call.failed.count ptr = 0 :=
      List.count_eq_zero_of_not_mem hnotFailed
    omega
  · intro j found hfound hpresent
    exact htracked.perform_home hloop hmoves hperformed hfound hpresent
  · intro j found hfound
    rcases hperformed.loops.kept j found hfound with ⟨old, hold, hkept⟩
    rw [hkept.condemned]
    rcases getElem?_set_eq_some hold with ⟨_, hnext⟩ | ⟨_, hother⟩
    · subst old
      omega
    · exact htracked.spared j old hother
  · exact htracked.perform_forgotten happlied hperformed
  · exact hconns.1
  · exact hconns.2

end Perform

/-- The loop after the `OnError` of a connection that was removed before. -/
def IoLoop.withoutRemoved
    (fd : HandlerId → Descriptor) (ptr : HandlerId)
    (fired : List HandlerId) (loop : IoLoop) : IoLoop :=
  { loop with
    poller := eraseHandler fd ptr loop.poller
    stage := .shuttingDown ptr fired }

/-- The loop had the only token of the connection. -/
theorem IoLoop.weight_withoutRemoved
    {loop : IoLoop} {fired : List HandlerId}
    (hstage : loop.stage = .removed ptr fired)
    (hheld : loop.weight ptr ≤ 1) :
    (loop.withoutRemoved fd ptr fired).weight ptr = 0 := by
  have hfiring : loop.stage.firing.count ptr = fired.count ptr + 1 := by
    simp [hstage, LoopStage.firing]
  have hpresence : loop.stage.firing.count ptr ≤ loop.presence ptr :=
    Nat.le_max_right _ _
  have hcarried := loop.presence_le_weight ptr
  have hlast : fired.count ptr = 0 := by omega
  have hqueued : loop.requests.count (true, ptr) = 0 := by
    unfold IoLoop.weight at hheld
    omega
  simp only [IoLoop.requests, hstage, LoopStage.tempQueue,
    List.append_nil] at hqueued
  simp [IoLoop.withoutRemoved, IoLoop.weight, IoLoop.requests,
    IoLoop.presence, LoopStage.arriving, LoopStage.tempQueue,
    LoopStage.firing, hqueued, hlast]

theorem IoLoop.condemned_withoutRemoved
    {loop : IoLoop} {fired : List HandlerId}
    (hstage : loop.stage = .removed ptr fired) :
    (loop.withoutRemoved fd ptr fired).condemned ptr =
      loop.condemned ptr := by
  simp [IoLoop.withoutRemoved, IoLoop.condemned, IoLoop.requests, hstage,
    LoopStage.doomed, LoopStage.tempQueue]

/-- `OnError` finds the connection in the loop whose thread calls it. -/
theorem Tracked.onError_eq
    (htracked : Tracked fd ptr system) (hkind : kind ptr = .connection)
    {i : ℕ} {loop : IoLoop} (hloop : system.loops[i]? = some loop)
    {fired : List HandlerId} (hstage : loop.stage = .removed ptr fired) :
    { system with
      loops :=
        system.loops.set i
          { loop with stage := .shuttingDown ptr fired } }.onError fd kind
            ptr =
      some
        { system with
          errors := system.errors ++ [ptr]
          loops :=
            system.loops.set i (loop.withoutRemoved fd ptr fired) } := by
  have hfiring : loop.stage.firing.count ptr = fired.count ptr + 1 := by
    simp [hstage, LoopStage.firing]
  have hpresence : loop.stage.firing.count ptr ≤ loop.presence ptr :=
    Nat.le_max_right _ _
  have hhome := htracked.home i loop hloop (by omega)
  have hlength : i < system.loops.length :=
    (List.getElem?_eq_some_iff.mp hloop).1
  simp [EventLoop.onError, hkind, hhome, EventLoop.modifyLoop,
    List.modify_eq_set_getElem?, hlength, IoLoop.withoutRemoved]

theorem Tracked.onError
    (htracked : Tracked fd ptr system) {i : ℕ} {loop : IoLoop}
    (hloop : system.loops[i]? = some loop) {fired : List HandlerId}
    (hstage : loop.stage = .removed ptr fired) :
    Tracked fd ptr
      { system with
        errors := system.errors ++ [ptr]
        loops :=
          system.loops.set i (loop.withoutRemoved fd ptr fired) } := by
  have hheld := htracked.weight_le hloop
  have hempty :
      (loop.withoutRemoved fd ptr fired).weight ptr = 0 :=
    IoLoop.weight_withoutRemoved hstage (by omega)
  have hdeparts : loop.departures ptr = 1 := by
    simp [IoLoop.departures, hstage, LoopStage.leaving]
  have hdeparted :
      (loop.withoutRemoved fd ptr fired).departures ptr = 0 := rfl
  have hcarried := loop.departures_le_weight ptr
  have hsingle : [ptr].count ptr = 1 := by simp
  constructor
  · have honce := htracked.once
    have hset :=
      tally_set (IoLoop.weight ptr) hloop
        (loop.withoutRemoved fd ptr fired)
    dsimp only [EventLoop.unborn] at honce ⊢
    rw [List.count_append]
    omega
  · have hremoved := htracked.removed
    have hset :=
      tally_set (IoLoop.departures ptr) hloop
        (loop.withoutRemoved fd ptr fired)
    dsimp only [EventLoop.removals] at hremoved ⊢
    rw [List.count_append]
    omega
  · intro j found hfound hpresent
    rcases getElem?_set_eq_some hfound with ⟨_, heq⟩ | ⟨_, hother⟩
    · subst found
      have hle :=
        (loop.withoutRemoved fd ptr fired).presence_le_weight ptr
      omega
    · exact htracked.home j found hother hpresent
  · intro j found hfound
    rcases getElem?_set_eq_some hfound with ⟨_, heq⟩ | ⟨_, hother⟩
    · rw [heq, IoLoop.condemned_withoutRemoved hstage]
      exact htracked.spared i loop hloop
    · exact htracked.spared j found hother
  · exact htracked.forgotten
  · exact htracked.indexed
  · exact htracked.kept

/-! ## Every step -/

/-- The manager is not told to remove a connection whose addition still
waits. -/
def IoLoop.RemovesApplied
    (ptr : HandlerId) (conns : ConnSystem) (loop : IoLoop) : Prop :=
  match loop.stage with
  | .writeFailed writer _ =>
      writer = ptr → ptr ∉ conns.manager.addHandlerSet
  | _ => True

instance (ptr : HandlerId) (conns : ConnSystem) (loop : IoLoop) :
    Decidable (loop.RemovesApplied ptr conns) := by
  unfold IoLoop.RemovesApplied
  exact
    match loop.stage with
    | .writeFailed _ _ => inferInstance
    | .top | .handling _ | .reading _ _ | .accepted _ _ _ | .readFailed _ _
    | .writing _ _ | .removed _ _ | .shuttingDown _ _ | .sweepDue
    | .sweeping _ _ | .posting _ | .waiting | .changing _ | .stopped =>
        instDecidableTrue

/-- The step does not let a read of the connection fail, does not find the
connection idle, and does not remove it before its addition is applied. -/
def EndsCleanly (ptr : HandlerId) (system : EventLoop) : EventLabel → Prop
  | .loop i answer =>
      ∀ loop ∈ system.loops[i]?,
        loop.Spares ptr system.handlers system.milliSeconds answer ∧
          loop.RemovesApplied ptr system.conns
  | _ => True

instance (ptr : HandlerId) (system : EventLoop) (label : EventLabel) :
    Decidable (EndsCleanly ptr system label) := by
  unfold EndsCleanly
  split <;> infer_instance

theorem Tracked.loopStep
    (htracked : Tracked fd ptr system) (hkind : kind ptr = .connection)
    {i : ℕ} {answer : Answer}
    (hclean : EndsCleanly ptr system (.loop i answer))
    (hstep : system.loopStep fd kind i answer = some final) :
    Tracked fd ptr final := by
  rcases EventLoop.loopStep_eq_some hstep with
    ⟨loop, next, call, hloop, hnext, hperform⟩
  have hsparing := hclean loop hloop
  have hcondemned := htracked.spared i loop hloop
  by_cases hfailed : ptr ∈ call.failed
  · cases call with
    | onError other =>
        have heq : other = ptr := by
          simpa [LoopCall.failed, eq_comm] using hfailed
        subst other
        rcases IoLoop.next_onError hnext hcondemned with
          ⟨fired, hstage, hshut⟩
        subst next
        have hfinal :=
          (htracked.onError_eq hkind hloop hstage).symm.trans hperform
        simp only [Option.some.injEq] at hfinal
        exact hfinal ▸ htracked.onError hloop hstage
    | _ => simp [LoopCall.failed] at hfailed
  · apply htracked.perform hloop (IoLoop.next_moves hnext ptr)
      (IoLoop.next_spared hnext hsparing.1).condemned _ _ hfailed
      (EventLoop.perform_performed hperform ptr)
    · intro newHandler hnew
      cases call with
      | addConn other =>
          have heq : newHandler = other := by
            simpa [LoopCall.constructed] using hnew
          subst other
          exact IoLoop.next_origin hnext
      | _ => simp [LoopCall.constructed] at hnew
    · intro hremoved
      cases call with
      | removeConn other =>
          have heq : ptr = other := by
            simpa [LoopCall.removed] using hremoved
          subst other
          rcases IoLoop.next_origin hnext with ⟨fired, hstage⟩
          simpa [IoLoop.RemovesApplied, hstage] using hsparing.2
      | _ => simp [LoopCall.removed] at hremoved

theorem Tracked.of_loopsKept
    (htracked : Tracked fd ptr system) {loops : List IoLoop}
    (hkept : LoopsKept ptr 0 system.loops loops) :
    Tracked fd ptr { system with loops := loops } := by
  have honce :
      tally (IoLoop.weight ptr) loops + system.errors.count ptr +
          system.unborn ptr ≤ 1 := by
    have hweight := hkept.weight
    have holdOnce := htracked.once
    omega
  have hremoved :
      system.removals ptr =
        system.errors.count ptr +
          tally (IoLoop.departures ptr) loops := by
    rw [hkept.departures]
    exact htracked.removed
  refine
    { htracked with
      once := honce
      removed := hremoved
      home := ?_
      spared := ?_ }
  · intro i loop hloop hpresent
    rcases hkept.kept i loop hloop with ⟨old, hold, hsame⟩
    exact htracked.home i old hold (hpresent.trans_le hsame.presence)
  · intro i loop hloop
    rcases hkept.kept i loop hloop with ⟨old, hold, hsame⟩
    rw [hsame.condemned]
    exact htracked.spared i old hold

theorem Tracked.step
    (htracked : Tracked fd ptr system) (hkind : kind ptr = .connection)
    {label : EventLabel} (hclean : EndsCleanly ptr system label)
    (hstep : system.step fd kind label = some final) :
    Tracked fd ptr final := by
  cases label with
  | clock milliSeconds seconds =>
      simp only [EventLoop.step, Option.some.injEq] at hstep
      subst final
      exact { htracked with }
  | loop i answer => exact htracked.loopStep hkind hclean hstep
  | update =>
      rcases EventLoop.step_update hstep with ⟨conns, hupdate, heq⟩
      subst final
      have hcalls := ConnSystem.updateStep_calls hupdate
      have hremovals :
          EventLoop.removals ptr { system with conns := conns } =
            system.removals ptr := by
        unfold EventLoop.removals
        dsimp only
        rw [hcalls]
      exact
        { htracked with
          removed := hremovals.trans htracked.removed
          forgotten := by
            rw [hremovals]
            intro hgone
            exact (htracked.forgotten hgone).updateStep htracked.indexed
              hupdate
          indexed := htracked.indexed.updateStep hupdate
          kept := htracked.kept.updateStep hupdate }
  | terminal =>
      simp only [EventLoop.step, Option.some.injEq] at hstep
      subst final
      exact
        { htracked.of_loopsKept (LoopsKept.terminal ptr system.loops) with }

/-! ## Whole runs -/

theorem Tracked.start
    {registered : List HandlerId}
    (hfresh : EventLoop.Fresh registered system)
    (hnew : ptr ∉ registered) : Tracked fd ptr system := by
  have hunborn : system.unborn ptr = 1 := by
    simp [EventLoop.unborn, hfresh.created, hnew]
  have hremovals : system.removals ptr = 0 := by
    simp [EventLoop.removals, hfresh.conns, ConnSystem.new, removedCalls]
  have hloops :
      ∀ loop ∈ system.loops,
        loop.weight ptr = 0 ∧ loop.condemned ptr = 0 := by
    intro loop hloop
    rcases hfresh.idle loop hloop with ⟨hstage, hqueue, _⟩
    have hpoller : loop.poller.count ptr = 0 :=
      List.count_eq_zero_of_not_mem
        (fun hmem => hnew (hfresh.polled loop hloop ptr hmem))
    simp [IoLoop.weight, IoLoop.condemned, IoLoop.requests,
      IoLoop.presence, hstage, hqueue, hpoller, LoopStage.arriving,
      LoopStage.firing, LoopStage.doomed, LoopStage.tempQueue]
  have hweight : tally (IoLoop.weight ptr) system.loops = 0 :=
    tally_eq_zero _ fun loop hloop => (hloops loop hloop).1
  have hdepartures :=
    tally_le_tally (IoLoop.departures_le_weight ptr) system.loops
  constructor
  · rw [hweight, hunborn, hfresh.errors]
    simp
  · rw [hremovals, hfresh.errors]
    simp only [List.count_nil]
    omega
  · intro i loop hloop hpresent
    have hzero := (hloops loop (List.mem_of_getElem? hloop)).1
    have hle := loop.presence_le_weight ptr
    omega
  · intro i loop hloop
    exact (hloops loop (List.mem_of_getElem? hloop)).2
  · intro _
    rw [hfresh.conns]
    exact Forgotten.new ptr
  · rw [hfresh.conns]
    exact Indexed.new
  · rw [hfresh.conns]
    rfl

theorem Tracked.run
    (htracked : Tracked fd ptr system) (hkind : kind ptr = .connection)
    {labels : List EventLabel}
    (hrun : Execution.run (EventLoop.step fd kind) system labels = some final)
    (hclean :
      EachStep (EventLoop.step fd kind) (EndsCleanly ptr) system labels) :
    Tracked fd ptr final :=
  run_preserves (EventLoop.step fd kind) (Tracked fd ptr) (EndsCleanly ptr)
    (fun _ _ _ hinv hlabel hstep => hinv.step hkind hlabel hstep) htracked
    hrun hclean

/-- After its `OnError` the connection has been removed exactly once. -/
theorem Tracked.removals_eq_one
    (htracked : Tracked fd ptr system) (hdropped : ptr ∈ system.errors) :
    system.removals ptr = 1 := by
  have hcount := List.count_pos_iff.mpr hdropped
  have honce := htracked.once
  have hremoved := htracked.removed
  have hdepartures :=
    tally_le_tally (IoLoop.departures_le_weight ptr) system.loops
  omega

theorem EventLoop.step_errors
    {label : EventLabel}
    (hstep : system.step fd kind label = some final)
    (hdropped : ptr ∈ system.errors) : ptr ∈ final.errors := by
  cases label with
  | clock milliSeconds seconds =>
      simp only [EventLoop.step, Option.some.injEq] at hstep
      exact hstep ▸ hdropped
  | loop i answer =>
      rcases EventLoop.loopStep_eq_some hstep with
        ⟨loop, next, call, _, _, hperform⟩
      rw [(EventLoop.perform_performed hperform ptr).errors]
      exact List.mem_append_left _ hdropped
  | update =>
      rcases EventLoop.step_update hstep with ⟨conns, _, heq⟩
      exact heq ▸ hdropped
  | terminal =>
      simp only [EventLoop.step, Option.some.injEq] at hstep
      exact hstep ▸ hdropped

theorem EventLoop.step_reportedWithin
    {label : EventLabel} {steps : ℕ}
    (hreported :
      ReportedWithin (steps + if label = .update then 1 else 0) ptr
        system.conns)
    (hstep : system.step fd kind label = some final) :
    ReportedWithin steps ptr final.conns := by
  cases label with
  | clock milliSeconds seconds =>
      simp only [EventLoop.step, Option.some.injEq] at hstep
      exact hstep ▸ hreported
  | loop i answer =>
      rcases EventLoop.loopStep_eq_some hstep with
        ⟨loop, next, call, _, _, hperform⟩
      rw [(EventLoop.perform_performed hperform ptr).conns]
      cases call <;> exact hreported
  | update =>
      rcases EventLoop.step_update hstep with ⟨conns, hupdate, heq⟩
      subst final
      exact ReportedWithin.updateStep hreported hupdate
  | terminal =>
      simp only [EventLoop.step, Option.some.injEq] at hstep
      exact hstep ▸ hreported

theorem EventLoop.run_reported
    {labels : List EventLabel} {steps : ℕ}
    (hreported : ReportedWithin steps ptr system.conns)
    (hcount : steps ≤ labels.count .update)
    (hrun :
      Execution.run (EventLoop.step fd kind) system labels = some final) :
    ptr ∈ removeNotified final.conns.notices := by
  induction labels generalizing system steps with
  | nil =>
      simp only [Execution.run, Option.some.injEq] at hrun
      subst final
      exact (hreported.mono hcount).reported
  | cons label labels ih =>
      rcases (run_cons_eq_some_iff _).mp hrun with ⟨next, hstep, hrest⟩
      rw [List.count_cons] at hcount
      simp only [beq_iff_eq] at hcount
      have hnext :
          ReportedWithin (labels.count .update) ptr next.conns :=
        EventLoop.step_reportedWithin (hreported.mono hcount) hstep
      exact ih hnext le_rfl hrest

/-- `Update` is called once from beginning to end. -/
def UpdateCompleted
    (fd : HandlerId → Descriptor) (kind : HandlerId → HandlerKind)
    (system : EventLoop) (labels : List EventLabel) : Prop :=
  ∃ (before after : List EventLabel) (middle : EventLoop),
    labels = before ++ .update :: after ∧
      Execution.run (EventLoop.step fd kind) system before = some middle ∧
        middle.conns.updater = .idle ∧ 2 ≤ after.count .update

theorem Tracked.reported
    (htracked : Tracked fd ptr system) (hkind : kind ptr = .connection)
    (hdropped : ptr ∈ system.errors) {labels : List EventLabel}
    (hrun :
      Execution.run (EventLoop.step fd kind) system labels = some final)
    (hclean :
      EachStep (EventLoop.step fd kind) (EndsCleanly ptr) system labels)
    (hcompleted : UpdateCompleted fd kind system labels) :
    ptr ∈ removeNotified final.conns.notices := by
  rcases hcompleted with
    ⟨before, after, middle, hlabels, hbefore, hidle, hcount⟩
  rw [hlabels] at hrun hclean
  rw [run_append _ hbefore] at hrun
  rcases (run_cons_eq_some_iff _).mp hrun with ⟨next, hstep, hrest⟩
  have hmiddle := htracked.run hkind hbefore (hclean.of_append _ hbefore).1
  have hdroppedMiddle : ptr ∈ middle.errors :=
    run_invariant (EventLoop.step fd kind) (fun state => ptr ∈ state.errors)
      (fun _ _ _ hinv hnext => EventLoop.step_errors hnext hinv) hdropped
      hbefore
  have hremoved : ptr ∈ removedCalls middle.conns.calls := by
    have hone := hmiddle.removals_eq_one hdroppedMiddle
    unfold EventLoop.removals at hone
    exact List.count_pos_iff.mp (by omega)
  have hnext : ReportedWithin 2 ptr next.conns := by
    rcases EventLoop.step_update hstep with ⟨conns, hupdate, heq⟩
    subst next
    exact hmiddle.kept.reportedWithin hidle hremoved hupdate
  exact EventLoop.run_reported hnext hcount hrest

/-- Whenever the connection has been taken out of its poller, it has been
removed from the manager exactly once, and after the following `Update` it has
been reported and the table does not hold it. -/
def ReleasedOnce
    (fd : HandlerId → Descriptor) (kind : HandlerId → HandlerKind)
    (ptr : HandlerId) (system : EventLoop) (labels : List EventLabel) :
    Prop :=
  ∀ (first rest : List EventLabel) (middle final : EventLoop),
    labels = first ++ rest →
      Execution.run (EventLoop.step fd kind) system first = some middle →
        Execution.run (EventLoop.step fd kind) middle rest = some final →
          ptr ∈ middle.errors →
            middle.removals ptr = 1 ∧
              (UpdateCompleted fd kind middle rest →
                ptr ∈ removeNotified final.conns.notices ∧
                  ∀ i, cellAt final.conns.manager.handlers i ≠ some ptr)

/-- In every run in which no read of an accepted connection fails, no sweep
finds it idle, and no write of it fails before its addition has been applied,
the connection is released once. -/
theorem accepted_connection_released_once
    {threadCount milliSeconds : ℕ} {seconds : ℤ}
    {constructedAt : HandlerId → ℕ} {registered : List HandlerId}
    {labels : List EventLabel}
    (hstart :
      EventLoop.start fd kind threadCount milliSeconds seconds
        constructedAt registered = some system)
    (hkind : kind ptr = .connection) (hnew : ptr ∉ registered)
    (hclean :
      EachStep (EventLoop.step fd kind) (EndsCleanly ptr) system labels) :
    ReleasedOnce fd kind ptr system labels := by
  intro first rest middle final hlabels hfirst hrest hdropped
  subst labels
  have hparts := hclean.of_append _ hfirst
  have hmiddle : Tracked fd ptr middle :=
    (Tracked.start (EventLoop.start_fresh hstart) hnew).run hkind hfirst
      hparts.1
  refine ⟨hmiddle.removals_eq_one hdropped, ?_⟩
  intro hcompleted
  have hfinal := hmiddle.run hkind hrest hparts.2
  have hdroppedFinal : ptr ∈ final.errors :=
    run_invariant (EventLoop.step fd kind) (fun state => ptr ∈ state.errors)
      (fun _ _ _ hinv hnext => EventLoop.step_errors hnext hinv) hdropped
      hrest
  have hone := hfinal.removals_eq_one hdroppedFinal
  exact ⟨hmiddle.reported hkind hdropped hrest hparts.2 hcompleted,
    (hfinal.forgotten (.inl (by omega))).2⟩

end Lifecycle

/-! ## Runs of a small program -/

/-- Handler number three is an acceptor, all others are connections. -/
def oneAcceptor (ptr : HandlerId) : HandlerKind :=
  if ptr = 3 then .acceptor else .connection

/-- The acceptor accepts connection number five and its loop adopts it. -/
def acceptOne : List EventLabel :=
  [.loop 0 (.ready [(smallDescriptor 3, kEventReadable)]), .loop 0 .none,
    .loop 0 (.accept 5 .other 5), .loop 0 .none,
    .loop 0 (.accept (-1) .eagain 0), .loop 0 .none, .loop 0 .none,
    .loop 0 .none, .loop 0 (.registered true), .loop 0 .none]

/-- A write of connection number five fails. -/
def failWrite : List EventLabel :=
  [.loop 0 (.ready [(smallDescriptor 5, ⟨false, true⟩)]), .loop 0 .none,
    .loop 0 (.write (-1) .other), .loop 0 .none, .loop 0 .none,
    .loop 0 .none]

def updateOnce : List EventLabel :=
  [.update, .update, .update]

theorem accepted_connection_released_once_after_write :
    ∃ system final,
      EventLoop.start smallDescriptor oneAcceptor 1 1000 1 (fun _ => 1000)
          [3] = some system ∧
        Execution.run (EventLoop.step smallDescriptor oneAcceptor) system
            (acceptOne ++ updateOnce ++ failWrite ++ updateOnce) =
          some final ∧
        5 ∈ final.errors ∧
        ReleasedOnce smallDescriptor oneAcceptor 5 system
          (acceptOne ++ updateOnce ++ failWrite ++ updateOnce) := by
  have hrun :
      ∃ system final,
        EventLoop.start smallDescriptor oneAcceptor 1 1000 1
            (fun _ => 1000) [3] = some system ∧
          Execution.run (EventLoop.step smallDescriptor oneAcceptor) system
              (acceptOne ++ updateOnce ++ failWrite ++ updateOnce) =
            some final ∧
          5 ∈ final.errors ∧
          EachStep (EventLoop.step smallDescriptor oneAcceptor)
            (EndsCleanly 5) system
            (acceptOne ++ updateOnce ++ failWrite ++ updateOnce) :=
    ⟨_, _, rfl, rfl, by decide, by decide +kernel⟩
  rcases hrun with ⟨system, final, hstart, hrun, hdropped, hclean⟩
  exact ⟨system, final, hstart, hrun, hdropped,
    accepted_connection_released_once hstart rfl (by decide) hclean⟩

/-- A read of connection number five fails. -/
def failRead : List EventLabel :=
  [.loop 0 (.ready [(smallDescriptor 5, kEventReadable)]), .loop 0 .none,
    .loop 0 (.readv (-1) .other), .loop 0 .none]

/-- Nothing happens for a minute, and then the loop sweeps its handlers. -/
def sweepIdle : List EventLabel :=
  [.clock 62000 62, .loop 0 (.ready []), .loop 0 .none,
    .loop 0 (.order [5, 3]), .loop 0 .none, .loop 0 .none, .loop 0 .none,
    .loop 0 .none, .loop 0 .none, .loop 0 .none, .loop 0 .none,
    .loop 0 .none]

theorem ReleasedOnce.removals
    {fd : HandlerId → Descriptor} {kind : HandlerId → HandlerKind}
    {ptr : HandlerId} {system final : EventLoop}
    {labels : List EventLabel}
    (hreleased : ReleasedOnce fd kind ptr system labels)
    (hrun :
      Execution.run (EventLoop.step fd kind) system labels = some final)
    (hdropped : ptr ∈ final.errors) : final.removals ptr = 1 :=
  (hreleased labels [] final final (List.append_nil _).symm hrun rfl
    hdropped).1

/-- A failed read and an idle minute drop the connection without a call of
`RemoveConn`.  If a write fails before the addition has been applied, the
connection stays in the table. -/
theorem accepted_connection_not_released :
    ∃ system,
      EventLoop.start smallDescriptor oneAcceptor 1 1000 1 (fun _ => 1000)
          [3] = some system ∧
        ¬ ReleasedOnce smallDescriptor oneAcceptor 5 system
          (acceptOne ++ updateOnce ++ failRead) ∧
        ¬ ReleasedOnce smallDescriptor oneAcceptor 5 system
          (acceptOne ++ updateOnce ++ sweepIdle) ∧
        ¬ ReleasedOnce smallDescriptor oneAcceptor 5 system
          ((acceptOne ++ failWrite) ++ updateOnce) := by
  have hruns :
      ∃ system,
        EventLoop.start smallDescriptor oneAcceptor 1 1000 1
            (fun _ => 1000) [3] = some system ∧
          (∃ final,
            Execution.run (EventLoop.step smallDescriptor oneAcceptor)
                system (acceptOne ++ updateOnce ++ failRead) =
              some final ∧
            5 ∈ final.errors ∧ final.removals 5 = 0) ∧
          (∃ final,
            Execution.run (EventLoop.step smallDescriptor oneAcceptor)
                system (acceptOne ++ updateOnce ++ sweepIdle) =
              some final ∧
            5 ∈ final.errors ∧ final.removals 5 = 0) ∧
          ∃ middle final,
            Execution.run (EventLoop.step smallDescriptor oneAcceptor)
                system (acceptOne ++ failWrite) = some middle ∧
            Execution.run (EventLoop.step smallDescriptor oneAcceptor)
                middle updateOnce = some final ∧
            5 ∈ middle.errors ∧ middle.conns.updater = .idle ∧
            cellAt final.conns.manager.handlers 5 = some 5 :=
    ⟨_, rfl, ⟨_, rfl, by decide, rfl⟩, ⟨_, rfl, by decide, rfl⟩,
      _, _, rfl, rfl, by decide, rfl, rfl⟩
  rcases hruns with ⟨system, hstart, hread, hidle, hwrite⟩
  refine ⟨system, hstart, ?_, ?_, ?_⟩
  · intro hreleased
    rcases hread with ⟨final, hrun, hdropped, hremovals⟩
    have hone := hreleased.removals hrun hdropped
    omega
  · intro hreleased
    rcases hidle with ⟨final, hrun, hdropped, hremovals⟩
    have hone := hreleased.removals hrun hdropped
    omega
  · intro hreleased
    rcases hwrite with
      ⟨middle, final, hfirst, hrest, hdropped, hupdater, hcell⟩
    have hcompleted :
        UpdateCompleted smallDescriptor oneAcceptor middle updateOnce :=
      ⟨[], [.update, .update], middle, rfl, rfl, hupdater, by decide⟩
    have hafter :=
      (hreleased _ _ middle final rfl hfirst hrest hdropped).2 hcompleted
    exact hafter.2 5 hcell

end GreenTurtle.EventLoops
