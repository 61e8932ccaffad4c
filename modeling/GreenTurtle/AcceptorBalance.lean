import GreenTurtle.ConnectionLifecycle
import GreenTurtle.RoundRobin
import Mathlib.Tactic

/-!
# How connections are spread

`TcpAcceptor::OnRead` passes each new connection to the loop at `idx_` and
moves on to the next one, from the last loop to the first.  Whatever the other
threads do in the meantime, the acceptor hands out in turn, and it never looks
for a loop that does not exist.
-/

namespace GreenTurtle.EventLoops

open Connections
open Execution
open RoundRobin

/-! ## Who gets a connection -/

def EventLoop.queued (k : ℕ) (system : EventLoop) : ℕ :=
  (system.loops[k]?.map fun loop => loop.changedHandler.length).getD 0

/-- The step is the end of the loop body of the acceptor's `OnRead`. -/
def EventLoop.passesOn (acceptor : HandlerId) (system : EventLoop) :
    EventLabel → Bool
  | .loop i _ =>
      match system.loops[i]?.map IoLoop.stage with
      | some (.accepted ptr _ _) => ptr = acceptor
      | _ => false
  | _ => false

/-- The loop whose queue has become longer. -/
def EventLoop.receiver (before after : EventLoop) : Option ℕ :=
  (List.range before.loops.length).find? fun k =>
    before.queued k < after.queued k

section Balance

variable (fd : HandlerId → Descriptor) (kind : HandlerId → HandlerKind)

def handedTo
    (acceptor : HandlerId) (system : EventLoop) (label : EventLabel) :
    Option ℕ :=
  if system.passesOn acceptor label then
    (system.step fd kind label).bind system.receiver
  else none

/-- The loops that get the connections of an acceptor, in the course of a
run. -/
def receivers
    (acceptor : HandlerId) (first : EventLoop) (labels : List EventLabel) :
    List ℕ :=
  (translated (EventLoop.step fd kind) (handedTo fd kind acceptor) first
    labels).reduceOption

variable {fd kind} {acceptor : HandlerId}

/-! ## The index of an acceptor -/

theorem EventLoop.modifyHandler_idx
    {f : EventHandler → EventHandler}
    (hsame : ∀ handler, (f handler).idx = handler.idx)
    (other ptr : HandlerId) (system : EventLoop) :
    ((system.modifyHandler other f).handlers ptr).idx =
      (system.handlers ptr).idx := by
  unfold EventLoop.modifyHandler
  by_cases heq : ptr = other
  · subst other
    simp [hsame]
  · simp [heq]

theorem EventLoop.setRevents_idx
    (found : List (HandlerId × Events)) (ptr : HandlerId)
    (system : EventLoop) :
    ((system.setRevents found).handlers ptr).idx =
      (system.handlers ptr).idx := by
  induction found generalizing system with
  | nil => rfl
  | cons entry rest ih =>
      refine (ih _).trans ?_
      apply EventLoop.modifyHandler_idx
      intro handler
      rfl

theorem EventLoop.onError_idx
    {before after : EventLoop} {other : HandlerId}
    (honError : before.onError fd kind other = some after) :
    after.loops.length = before.loops.length ∧
      after.handlers = before.handlers := by
  unfold EventLoop.onError at honError
  split at honError
  next =>
    obtain rfl := Option.some.inj honError
    exact ⟨List.length_map _, rfl⟩
  next =>
    obtain rfl := Option.some.inj honError
    exact ⟨List.length_modify _ _ _, rfl⟩
  next =>
    obtain rfl := Option.some.inj honError
    exact ⟨List.length_modify _ _ _, rfl⟩
  next => cases honError

/-- No other call changes the index, and none changes the number of loops. -/
theorem EventLoop.perform_idx
    {before after : EventLoop} {i : ℕ} {call : LoopCall}
    (hperform : before.perform fd kind i call = some after)
    (hcreated : acceptor ∈ before.created)
    (hother :
      ∀ newHandler, call ≠ .addHandlerLater acceptor newHandler) :
    after.loops.length = before.loops.length ∧
      (after.handlers acceptor).idx = (before.handlers acceptor).idx := by
  cases call with
  | none =>
      obtain rfl := Option.some.inj hperform
      exact ⟨rfl, rfl⟩
  | setRevents found =>
      obtain rfl := Option.some.inj hperform
      obtain ⟨handlers, heq, -⟩ := EventLoop.setRevents_eq found before
      exact ⟨by rw [heq], EventLoop.setRevents_idx found acceptor before⟩
  | setLastActive ptr =>
      obtain rfl := Option.some.inj hperform
      refine ⟨rfl, ?_⟩
      apply EventLoop.modifyHandler_idx
      intro handler
      rfl
  | clearRevents ptr =>
      obtain rfl := Option.some.inj hperform
      refine ⟨rfl, ?_⟩
      apply EventLoop.modifyHandler_idx
      intro handler
      rfl
  | setEventLoop ptr =>
      obtain rfl := Option.some.inj hperform
      refine ⟨rfl, ?_⟩
      apply EventLoop.modifyHandler_idx
      intro handler
      rfl
  | addConn newHandler =>
      simp only [EventLoop.perform] at hperform
      split at hperform
      next => cases hperform
      next hfresh =>
        obtain rfl := Option.some.inj hperform
        have hne : acceptor ≠ newHandler := by
          rintro rfl
          exact hfresh hcreated
        simp [EventLoop.modifyHandler, hne]
  | addHandlerLater other newHandler =>
      have hne : acceptor ≠ other := by
        rintro rfl
        exact hother newHandler rfl
      simp only [EventLoop.perform, EventLoop.addHandlerLater] at hperform
      split at hperform
      next =>
        obtain rfl := Option.some.inj hperform
        refine ⟨List.length_modify _ _ _, ?_⟩
        rw [EventLoop.modifyHandler]
        simp only [Function.update_of_ne hne, EventLoop.modifyLoop]
        apply EventLoop.modifyHandler_idx
        intro handler
        rfl
      next => cases hperform
  | removeConn ptr =>
      obtain rfl := Option.some.inj hperform
      exact ⟨rfl, rfl⟩
  | onError ptr =>
      obtain ⟨hlength, hhandlers⟩ := EventLoop.onError_idx hperform
      exact ⟨hlength, by rw [hhandlers]⟩

/-- The loop at the index gets the connection, and the index moves on. -/
theorem EventLoop.addHandlerLater_turn
    {before after : EventLoop} {newHandler : HandlerId}
    (hadd : before.addHandlerLater acceptor newHandler = some after) :
    (before.handlers acceptor).idx < before.loops.length ∧
      after.loops.length = before.loops.length ∧
      (after.handlers acceptor).idx =
        (if (before.handlers acceptor).idx + 1 ≥ before.loops.length then 0
          else (before.handlers acceptor).idx + 1) ∧
      ∀ k < before.loops.length,
        after.queued k =
          before.queued k +
            if k = (before.handlers acceptor).idx then 1 else 0 := by
  unfold EventLoop.addHandlerLater at hadd
  dsimp only at hadd
  split at hadd
  next hidx =>
    obtain rfl := Option.some.inj hadd
    refine ⟨hidx, List.length_modify _ _ _, ?_, ?_⟩
    · simp [EventLoop.modifyHandler]
    · intro k hk
      simp only [EventLoop.queued, EventLoop.modifyHandler,
        EventLoop.modifyLoop, List.getElem?_modify]
      by_cases heq : k = (before.handlers acceptor).idx
      · subst k
        simp [hidx]
      · simp [heq, Ne.symm heq]
  next => cases hadd

/-! ## Turns -/

/-- The acceptor has handed out so many connections, and it is the turn of the
loop at its index. -/
structure InTurn
    (threadCount : ℕ) (acceptor : HandlerId) (system : EventLoop)
    (handed : ℕ) : Prop where
  loops : system.loops.length = threadCount
  idx : (system.handlers acceptor).idx = handed % threadCount
  created : acceptor ∈ system.created

theorem EventLoop.passesOn_iff
    (acceptor : HandlerId) {system : EventLoop} {i : ℕ} {answer : Answer}
    {loop next : IoLoop} {call : LoopCall}
    (hloop : system.loops[i]? = some loop)
    (hnext :
      loop.next fd kind system.handlers system.milliSeconds system.seconds
        answer = some (next, call)) :
    system.passesOn acceptor (.loop i answer) = true ↔
      ∃ newHandler, call = .addHandlerLater acceptor newHandler := by
  cases IoLoop.next_transition hnext <;>
    simp [EventLoop.passesOn, *]

/-- The thread of the acceptor leaves the queue of its own loop alone. -/
theorem IoLoop.next_passes
    {handlers : HandlerId → EventHandler} {milliSeconds : ℕ} {seconds : ℤ}
    {loop next : IoLoop} {answer : Answer} {newHandler : HandlerId}
    (hnext :
      loop.next fd kind handlers milliSeconds seconds answer =
        some (next, .addHandlerLater acceptor newHandler)) :
    next.changedHandler = loop.changedHandler := by
  cases IoLoop.next_transition hnext with
  | passOn fired hstage => rfl

theorem EventLoop.queued_set
    {system : EventLoop} {i : ℕ} {loop next : IoLoop}
    (hloop : system.loops[i]? = some loop)
    (hsame : next.changedHandler = loop.changedHandler) (k : ℕ) :
    { system with loops := system.loops.set i next }.queued k =
      system.queued k := by
  simp only [EventLoop.queued, List.getElem?_set]
  by_cases heq : i = k
  · subst heq
    have hlt := (List.getElem?_eq_some_iff.mp hloop).1
    simp only [hlt, if_true, hloop, Option.map_some, hsame]
  · simp [heq]

/-- The queue that has grown is the one at the index. -/
theorem EventLoop.receiver_eq
    {before after : EventLoop} {idx : ℕ}
    (hidx : idx < before.loops.length)
    (hqueued :
      ∀ k < before.loops.length,
        after.queued k = before.queued k + if k = idx then 1 else 0) :
    before.receiver after = some idx := by
  rw [EventLoop.receiver, List.find?_range_eq_some]
  refine ⟨?_, List.mem_range.mpr hidx, ?_⟩
  · simp [hqueued idx hidx]
  · intro k hk
    simp [hqueued k (hk.trans hidx), hk.ne]

theorem InTurn.loopStep
    {threadCount handed i : ℕ} {system next : EventLoop} {answer : Answer}
    (hturn : InTurn threadCount acceptor system handed)
    (hstep : system.loopStep fd kind i answer = some next) :
    ∃ after,
      dispatch threadCount handed
          (handedTo fd kind acceptor system (.loop i answer)) =
        some after ∧
      InTurn threadCount acceptor next after := by
  obtain ⟨loop, nextLoop, call, hloop, hnext, hperform⟩ :=
    EventLoop.loopStep_eq_some hstep
  have hcreated : acceptor ∈ next.created := by
    rw [(EventLoop.perform_performed hperform acceptor).created]
    exact List.mem_append_right _ hturn.created
  have hpasses := EventLoop.passesOn_iff acceptor hloop hnext
  have hlength : (system.loops.set i nextLoop).length = threadCount := by
    rw [List.length_set, hturn.loops]
  by_cases hmine : system.passesOn acceptor (.loop i answer) = true
  · obtain ⟨newHandler, rfl⟩ := hpasses.mp hmine
    obtain ⟨hidx, hloops, hmoved, hqueued⟩ :=
      EventLoop.addHandlerLater_turn hperform
    have hsame :=
      EventLoop.queued_set hloop (IoLoop.next_passes hnext)
    simp only [hlength, hturn.idx] at hidx hloops hmoved hqueued
    have hreceiver : system.receiver next = some (handed % threadCount) := by
      apply EventLoop.receiver_eq
      · rwa [hturn.loops]
      · intro k hk
        rw [hqueued k (hturn.loops ▸ hk), hsame]
    refine ⟨handed + 1, ?_, hloops, ?_, hcreated⟩
    · rw [handedTo, if_pos hmine, EventLoop.step, hstep, Option.bind_some,
        hreceiver, dispatch, if_pos rfl]
    · rw [hmoved, ← Nat.mod_add_mod]
      split
      next hlast =>
        rw [show handed % threadCount + 1 = threadCount by omega,
          Nat.mod_self]
      next hmore => exact (Nat.mod_eq_of_lt (by omega)).symm
  · have hother :
        ∀ newHandler, call ≠ .addHandlerLater acceptor newHandler := by
      rintro newHandler rfl
      exact hmine (hpasses.mpr ⟨newHandler, rfl⟩)
    obtain ⟨hloops, hidx⟩ :=
      EventLoop.perform_idx hperform hturn.created hother
    refine ⟨handed, ?_, hloops.trans hlength, hidx.trans hturn.idx,
      hcreated⟩
    rw [handedTo, if_neg hmine]
    rfl

theorem InTurn.step
    {threadCount handed : ℕ} {system next : EventLoop} {label : EventLabel}
    (hturn : InTurn threadCount acceptor system handed)
    (hstep : system.step fd kind label = some next) :
    ∃ after,
      dispatch threadCount handed (handedTo fd kind acceptor system label) =
        some after ∧
      InTurn threadCount acceptor next after := by
  cases label with
  | clock milliSeconds seconds =>
      obtain rfl := Option.some.inj hstep
      exact ⟨handed, rfl, hturn.loops, hturn.idx, hturn.created⟩
  | loop i answer => exact hturn.loopStep hstep
  | update =>
      obtain ⟨conns, -, rfl⟩ := EventLoop.step_update hstep
      exact ⟨handed, rfl, hturn.loops, hturn.idx, hturn.created⟩
  | terminal =>
      obtain rfl := Option.some.inj hstep
      refine ⟨handed, rfl, ?_, hturn.idx, hturn.created⟩
      rw [← hturn.loops]
      exact List.length_map _

/-- The index is that of a loop. -/
theorem InTurn.canPassOn
    {threadCount handed i : ℕ} {system : EventLoop} {loop : IoLoop}
    {newHandler : HandlerId} {fired : List HandlerId}
    (hturn : InTurn threadCount acceptor system handed)
    (hloop : system.loops[i]? = some loop)
    (hstage : loop.stage = .accepted acceptor newHandler fired) :
    ∃ next, system.step fd kind (.loop i .none) = some next := by
  have hlength := hturn.loops
  have hi := (List.getElem?_eq_some_iff.mp hloop).1
  have hidx : (system.handlers acceptor).idx < system.loops.length := by
    rw [hturn.idx, hlength]
    exact Nat.mod_lt _ (by omega)
  simp only [EventLoop.step, EventLoop.loopStep, hloop, IoLoop.next, hstage,
    EventLoop.perform, EventLoop.addHandlerLater, List.length_set]
  rw [if_pos hidx]
  exact ⟨_, rfl⟩

/-! ## The start -/

/-- `InitEventLoop` changes neither the number of loops nor an index. -/
theorem EventLoop.distribute_idx
    {rest : List HandlerId} {i : ℕ} {system final : EventLoop}
    (hdistributed : EventLoop.distribute fd rest i system = some final)
    (ptr : HandlerId) :
    final.loops.length = system.loops.length ∧
      (final.handlers ptr).idx = (system.handlers ptr).idx := by
  induction rest generalizing system i with
  | nil =>
      obtain rfl := Option.some.inj hdistributed
      exact ⟨rfl, rfl⟩
  | cons other rest ih =>
      simp only [EventLoop.distribute] at hdistributed
      split at hdistributed
      next =>
        obtain ⟨hlength, hidx⟩ := ih hdistributed
        refine ⟨hlength.trans (List.length_modify _ _ _), hidx.trans ?_⟩
        apply EventLoop.modifyHandler_idx
        intro handler
        rfl
      next => cases hdistributed

theorem InTurn.start
    {threadCount milliSeconds : ℕ} {seconds : ℤ}
    {constructedAt : HandlerId → ℕ} {registered : List HandlerId}
    {first : EventLoop}
    (hstart :
      EventLoop.start fd kind threadCount milliSeconds seconds
        constructedAt registered = some first)
    (hregistered : acceptor ∈ registered) :
    InTurn threadCount acceptor first 0 := by
  have hfresh := EventLoop.start_fresh hstart
  unfold EventLoop.start at hstart
  split at hstart
  next => cases hstart
  next =>
    obtain ⟨hlength, hidx⟩ := EventLoop.distribute_idx hstart acceptor
    refine ⟨?_, ?_, ?_⟩
    · rw [hlength]
      exact List.length_replicate
    · rw [hidx, Nat.zero_mod]
      rfl
    · rwa [hfresh.created]

/-- In every run, each acceptor passes its connections to the loops in turn,
beginning with the first loop, so that the loops get equal shares up to one
connection, and a connection that has been accepted can always be passed on. -/
theorem acceptor_spreads_connections
    {threadCount milliSeconds : ℕ} {seconds : ℤ}
    {constructedAt : HandlerId → ℕ} {registered : List HandlerId}
    {first final : EventLoop} {labels : List EventLabel}
    (hstart :
      EventLoop.start fd kind threadCount milliSeconds seconds
        constructedAt registered = some first)
    (hregistered : acceptor ∈ registered)
    (hrun : run (EventLoop.step fd kind) first labels = some final) :
    receivers fd kind acceptor first labels =
        (List.range (receivers fd kind acceptor first labels).length).map
          (· % threadCount) ∧
      (∀ k < threadCount,
        (receivers fd kind acceptor first labels).count k =
          (receivers fd kind acceptor first labels).length / threadCount +
            if k < (receivers fd kind acceptor first labels).length %
                threadCount then 1 else 0) ∧
      ∀ i loop newHandler fired, final.loops[i]? = some loop →
        loop.stage = .accepted acceptor newHandler fired →
          ∃ next, final.step fd kind (.loop i .none) = some next := by
  have hadmissible :
      EachStep (EventLoop.step fd kind) (fun _ _ => True) first labels :=
    EachStep.of_forall _ (fun _ _ _ => trivial) first
  obtain ⟨handed, hturns, hlast⟩ :=
    run_simulates (EventLoop.step fd kind) (dispatch threadCount)
      (handedTo fd kind acceptor) (InTurn threadCount acceptor)
      (fun _ _ => True)
      (fun _ _ _ _ hturn _ hstep => hturn.step hstep)
      (InTurn.start hstart hregistered) hrun hadmissible
  have hreceivers :
      receivers fd kind acceptor first labels =
        (List.range (receivers fd kind acceptor first labels).length).map
          (· % threadCount) := by
    rw [List.range_eq_range']
    exact run_dispatch hturns
  refine ⟨hreceivers, ?_, ?_⟩
  · intro k hk
    have hcount :=
      count_turns hk (receivers fd kind acceptor first labels).length
    rwa [← hreceivers] at hcount
  · intro i loop newHandler fired hloop hstage
    exact hlast.canPassOn hloop hstage

end Balance

/-- Three connections arrive at once, and there are two loops. -/
def acceptThree : List EventLabel :=
  [.loop 0 (.ready [(smallDescriptor 3, kEventReadable)]), .loop 0 .none,
    .loop 0 (.accept 5 .other 5), .loop 0 .none, .update,
    .loop 0 (.accept 6 .other 6), .loop 0 .none,
    .loop 1 (.ready []), .loop 0 (.accept 7 .other 7), .loop 0 .none]

theorem acceptor_spreads_three_connections :
    ∃ first final,
      EventLoop.start smallDescriptor oneAcceptor 2 1000 1 (fun _ => 1000)
          [3] = some first ∧
        run (EventLoop.step smallDescriptor oneAcceptor) first
            acceptThree = some final ∧
        receivers smallDescriptor oneAcceptor 3 first acceptThree =
          [0, 1, 0] ∧
        ∀ k < 2,
          (receivers smallDescriptor oneAcceptor 3 first
              acceptThree).count k =
            (receivers smallDescriptor oneAcceptor 3 first
                acceptThree).length / 2 +
              if k < (receivers smallDescriptor oneAcceptor 3 first
                acceptThree).length % 2 then 1 else 0 := by
  have hrun :
      ∃ first final,
        EventLoop.start smallDescriptor oneAcceptor 2 1000 1
            (fun _ => 1000) [3] = some first ∧
          run (EventLoop.step smallDescriptor oneAcceptor) first
              acceptThree = some final ∧
          receivers smallDescriptor oneAcceptor 3 first acceptThree =
            [0, 1, 0] :=
    ⟨_, _, rfl, rfl, by decide +kernel⟩
  obtain ⟨first, final, hstart, hrun, hreceivers⟩ := hrun
  exact ⟨first, final, hstart, hrun, hreceivers,
    (acceptor_spreads_connections hstart (by decide) hrun).2.1⟩

end GreenTurtle.EventLoops
