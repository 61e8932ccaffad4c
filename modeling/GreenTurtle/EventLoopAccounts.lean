import GreenTurtle.EventLoopModel
import GreenTurtle.Tally
import Mathlib.Tactic

/-!
# Where a loop keeps a handler

A handler waits in the queue of a loop, is known to its poller, or has fired
and will be handled.  This file counts these places and says how one step of
the thread of a loop moves a handler between them.
-/

namespace GreenTurtle.EventLoops

open Connections
open SocketOption (Errno)
open Tally

/-! ## Places -/

/-- The handlers that the thread is still going to handle. -/
def LoopStage.firing : LoopStage → List HandlerId
  | .handling fired => fired
  | .reading ptr fired => ptr :: fired
  | .accepted ptr _ fired => ptr :: fired
  | .readFailed ptr fired => ptr :: fired
  | .writing ptr fired => ptr :: fired
  | .writeFailed ptr fired => ptr :: fired
  | .removed ptr fired => ptr :: fired
  | .shuttingDown _ fired => fired
  | _ => []

/-- The connection an acceptor has constructed and not yet passed on. -/
def LoopStage.arriving : LoopStage → List HandlerId
  | .accepted _ newHandler _ => [newHandler]
  | _ => []

/-- The connection that has been removed from the connection manager and not
yet from its poller. -/
def LoopStage.leaving : LoopStage → List HandlerId
  | .removed ptr _ => [ptr]
  | _ => []

/-- The handler whose write has failed. -/
def LoopStage.broken : LoopStage → List HandlerId
  | .writeFailed ptr _ => [ptr]
  | .removed ptr _ => [ptr]
  | _ => []

/-- The handlers that an error or a timeout has condemned. -/
def LoopStage.doomed : LoopStage → List HandlerId
  | .readFailed ptr _ => [ptr]
  | .sweeping _ fired => fired
  | .posting fired => fired
  | _ => []

def LoopStage.tempQueue : LoopStage → List (Bool × HandlerId)
  | .changing tempQueue => tempQueue
  | _ => []

namespace IoLoop

def requests (loop : IoLoop) : List (Bool × HandlerId) :=
  loop.changedHandler ++ loop.stage.tempQueue

def presence (ptr : HandlerId) (loop : IoLoop) : ℕ :=
  max (loop.poller.count ptr) (loop.stage.firing.count ptr)

def weight (ptr : HandlerId) (loop : IoLoop) : ℕ :=
  loop.stage.arriving.count ptr + loop.requests.count (true, ptr) +
    loop.presence ptr

def departures (ptr : HandlerId) (loop : IoLoop) : ℕ :=
  loop.stage.leaving.count ptr

/-- How often a failed read or a timeout will lead to `OnError`. -/
def condemned (ptr : HandlerId) (loop : IoLoop) : ℕ :=
  loop.stage.doomed.count ptr + loop.requests.count (false, ptr)

end IoLoop

/-! ## What a call does to a handler -/

namespace LoopCall

def constructed : LoopCall → List HandlerId
  | .addConn newHandler => [newHandler]
  | _ => []

def posted : LoopCall → List HandlerId
  | .addHandlerLater _ newHandler => [newHandler]
  | _ => []

def removed : LoopCall → List HandlerId
  | .removeConn ptr => [ptr]
  | _ => []

def failed : LoopCall → List HandlerId
  | .onError ptr => [ptr]
  | _ => []

def adopted : LoopCall → List HandlerId
  | .setEventLoop ptr => [ptr]
  | _ => []

end LoopCall

/-! ## Pollers -/

section Pollers

variable (fd : HandlerId → Descriptor)

theorem count_eraseHandler_le
    (ptr other : HandlerId) (poller : List HandlerId) :
    (eraseHandler fd other poller).count ptr ≤ poller.count ptr :=
  List.Sublist.count_le ptr List.filter_sublist

@[simp] theorem count_eraseHandler_self
    (ptr : HandlerId) (poller : List HandlerId) :
    (eraseHandler fd ptr poller).count ptr = 0 := by
  rw [List.count_eq_zero]
  simp [eraseHandler]

theorem count_insertHandler_le
    (ptr other : HandlerId) (poller : List HandlerId) :
    (insertHandler fd other poller).count ptr ≤
      if other = ptr then 1 else poller.count ptr := by
  unfold insertHandler
  rw [List.count_append]
  split
  next heq =>
    subst other
    simp
  next hne =>
    have hother : [other].count ptr = 0 :=
      List.count_eq_zero_of_not_mem (by simpa using Ne.symm hne)
    rw [hother]
    exact count_eraseHandler_le fd ptr other poller

/-- Registering a handler, whether or not it succeeds. -/
theorem count_register_le
    (ptr other : HandlerId) (success : Bool) (poller : List HandlerId) :
    (if success then insertHandler fd other poller
        else eraseHandler fd other poller).count ptr ≤
      poller.count ptr + if other = ptr then 1 else 0 := by
  cases success with
  | true =>
      have hinserted := count_insertHandler_le fd ptr other poller
      change (insertHandler fd other poller).count ptr ≤ _
      split at hinserted
      next heq =>
        rw [if_pos heq]
        omega
      next hne =>
        rw [if_neg hne]
        exact hinserted
  | false =>
      exact Nat.le_add_right_of_le
        (count_eraseHandler_le fd ptr other poller)

theorem pollOnce_sublist
    (poller : List HandlerId) (descriptors : List (Descriptor × Events)) :
    List.Sublist
      (((pollOnce fd poller descriptors).map Prod.fst).map fd)
      (descriptors.map Prod.fst) := by
  induction descriptors with
  | nil => exact List.nil_sublist _
  | cons entry rest ih =>
      unfold pollOnce at ih ⊢
      rw [List.filterMap_cons]
      split
      next => exact ih.cons _
      next found hfound =>
        simp only [Option.map_eq_some_iff] at hfound
        rcases hfound with ⟨ptr, hptr, heq⟩
        have hfd : fd ptr = entry.1 := by
          simpa using List.find?_some hptr
        rw [← heq]
        simp only [List.map_cons, hfd]
        exact ih.cons_cons _

/-- A poller reports a handler at most once, and only if it knows it. -/
theorem count_pollOnce_le
    (ptr : HandlerId) (poller : List HandlerId)
    {descriptors : List (Descriptor × Events)}
    (hnodup : (descriptors.map Prod.fst).Nodup) :
    ((pollOnce fd poller descriptors).map Prod.fst).count ptr ≤
      poller.count ptr := by
  have honce : ((pollOnce fd poller descriptors).map Prod.fst).Nodup :=
    ((pollOnce_sublist fd poller descriptors).nodup hnodup).of_map
  by_cases hmem : ptr ∈ (pollOnce fd poller descriptors).map Prod.fst
  · have hknown : ptr ∈ poller := by
      simp only [pollOnce, List.mem_map, List.mem_filterMap,
        Option.map_eq_some_iff] at hmem
      rcases hmem with ⟨_, ⟨_, _, found, hfound, heq⟩, hptr⟩
      subst heq
      exact hptr ▸ List.mem_of_find?_eq_some hfound
    rw [List.count_eq_one_of_mem honce hmem]
    exact List.one_le_count_iff.mpr hknown
  · rw [List.count_eq_zero_of_not_mem hmem]
    exact Nat.zero_le _

end Pollers

/-! ## One step of a thread -/

/-- The answer makes `OnRead` return an error. -/
def Answer.failsRead : Answer → Bool
  | .accept returned errno _ => SocketOption.accept returned errno = kErr
  | .readv returned errno => SocketOption.readv returned errno < 0
  | _ => false

/-- The step does not condemn the handler: its `OnRead` does not fail, and no
sweep finds it idle. -/
def IoLoop.Spares
    (ptr : HandlerId) (handlers : HandlerId → EventHandler)
    (milliSeconds : ℕ) (loop : IoLoop) (answer : Answer) : Prop :=
  match loop.stage with
  | .reading reader _ => reader = ptr → answer.failsRead = false
  | .sweeping (candidate :: _) _ =>
      candidate = ptr → (handlers ptr).isTimeout milliSeconds = false
  | _ => True

instance (ptr : HandlerId) (handlers : HandlerId → EventHandler)
    (milliSeconds : ℕ) (loop : IoLoop) (answer : Answer) :
    Decidable (loop.Spares ptr handlers milliSeconds answer) := by
  unfold IoLoop.Spares
  split <;> infer_instance

section Next

variable {fd : HandlerId → Descriptor} {kind : HandlerId → HandlerKind}
variable {handlers : HandlerId → EventHandler}
variable {milliSeconds : ℕ} {seconds : ℤ}
variable {loop next : IoLoop} {answer : Answer} {call : LoopCall}

section Transitions

variable (fd kind handlers milliSeconds seconds loop)

/-- The steps of a thread, each with the conditions under which it is taken. -/
inductive IoLoop.Transition : Answer → IoLoop → LoopCall → Prop where
  | stop (hstage : loop.stage = .top) (hterminal : loop.terminal = true) :
      Transition .none { loop with stage := .stopped } .none
  | poll (descriptors : List (Descriptor × Events))
      (hstage : loop.stage = .top)
      (hready :
        loop.terminal = false ∧ (descriptors.map Prod.fst).Nodup) :
      Transition (.ready descriptors)
        { loop with
          stage :=
            .handling ((pollOnce fd loop.poller descriptors).map Prod.fst) }
        (.setRevents (pollOnce fd loop.poller descriptors))
  | beginRead (ptr : HandlerId) (fired : List HandlerId)
      (hstage : loop.stage = .handling (ptr :: fired))
      (hreadable :
        (handlers ptr).events.readable ∧ (handlers ptr).revents.readable) :
      Transition .none { loop with stage := .reading ptr fired }
        (.setLastActive ptr)
  | skipRead (ptr : HandlerId) (fired : List HandlerId)
      (hstage : loop.stage = .handling (ptr :: fired))
      (hreadable :
        ¬ ((handlers ptr).events.readable ∧
          (handlers ptr).revents.readable)) :
      Transition .none { loop with stage := .writing ptr fired } .none
  | acceptFails (ptr : HandlerId) (fired : List HandlerId)
      (returned : ℤ) (errno : Errno) (newHandler : HandlerId)
      (hstage : loop.stage = .reading ptr fired)
      (hkind : kind ptr = .acceptor)
      (hfails : SocketOption.accept returned errno = kErr) :
      Transition (.accept returned errno newHandler)
        { loop with stage := .readFailed ptr fired } .none
  | acceptEnds (ptr : HandlerId) (fired : List HandlerId)
      (returned : ℤ) (errno : Errno) (newHandler : HandlerId)
      (hstage : loop.stage = .reading ptr fired)
      (hkind : kind ptr = .acceptor)
      (hfails : SocketOption.accept returned errno ≠ kErr)
      (hends : SocketOption.accept returned errno ≤ 0) :
      Transition (.accept returned errno newHandler)
        { loop with stage := .writing ptr fired } .none
  | accept (ptr : HandlerId) (fired : List HandlerId)
      (returned : ℤ) (errno : Errno) (newHandler : HandlerId)
      (hstage : loop.stage = .reading ptr fired)
      (hkind : kind ptr = .acceptor)
      (hpos : ¬ SocketOption.accept returned errno ≤ 0)
      (hnew :
        kind newHandler = .connection ∧
          (fd newHandler).1 = SocketOption.accept returned errno) :
      Transition (.accept returned errno newHandler)
        { loop with stage := .accepted ptr newHandler fired }
        (.addConn newHandler)
  | readFails (ptr : HandlerId) (fired : List HandlerId)
      (returned : ℤ) (errno : Errno)
      (hstage : loop.stage = .reading ptr fired)
      (hkind : kind ptr ≠ .acceptor)
      (hfails : SocketOption.readv returned errno < 0) :
      Transition (.readv returned errno)
        { loop with stage := .readFailed ptr fired } .none
  | read (ptr : HandlerId) (fired : List HandlerId)
      (returned : ℤ) (errno : Errno)
      (hstage : loop.stage = .reading ptr fired)
      (hkind : kind ptr ≠ .acceptor)
      (hfails : ¬ SocketOption.readv returned errno < 0) :
      Transition (.readv returned errno)
        { loop with stage := .writing ptr fired } .none
  | passOn (ptr newHandler : HandlerId) (fired : List HandlerId)
      (hstage : loop.stage = .accepted ptr newHandler fired) :
      Transition .none { loop with stage := .reading ptr fired }
        (.addHandlerLater ptr newHandler)
  | reportRead (ptr : HandlerId) (fired : List HandlerId)
      (hstage : loop.stage = .readFailed ptr fired) :
      Transition .none { loop with stage := .handling fired } (.onError ptr)
  | skipWrite (ptr : HandlerId) (fired : List HandlerId)
      (hstage : loop.stage = .writing ptr fired) :
      Transition .none { loop with stage := .handling fired }
        (.clearRevents ptr)
  | writeFails (ptr : HandlerId) (fired : List HandlerId)
      (returned : ℤ) (errno : Errno)
      (hstage : loop.stage = .writing ptr fired)
      (hwriteable :
        kind ptr ≠ .acceptor ∧ (handlers ptr).events.writeable ∧
          (handlers ptr).revents.writeable)
      (hfails : SocketOption.write returned errno < 0) :
      Transition (.write returned errno)
        { loop with stage := .writeFailed ptr fired } .none
  | write (ptr : HandlerId) (fired : List HandlerId)
      (returned : ℤ) (errno : Errno)
      (hstage : loop.stage = .writing ptr fired)
      (hwriteable :
        kind ptr ≠ .acceptor ∧ (handlers ptr).events.writeable ∧
          (handlers ptr).revents.writeable)
      (hfails : ¬ SocketOption.write returned errno < 0) :
      Transition (.write returned errno)
        { loop with stage := .handling fired } (.clearRevents ptr)
  | removeConn (ptr : HandlerId) (fired : List HandlerId)
      (hstage : loop.stage = .writeFailed ptr fired) :
      Transition .none { loop with stage := .removed ptr fired }
        (.removeConn ptr)
  | reportWrite (ptr : HandlerId) (fired : List HandlerId)
      (hstage : loop.stage = .removed ptr fired) :
      Transition .none { loop with stage := .shuttingDown ptr fired }
        (.onError ptr)
  | shutdown (ptr : HandlerId) (fired : List HandlerId) (answer : Answer)
      (hstage : loop.stage = .shuttingDown ptr fired) :
      Transition answer { loop with stage := .handling fired } .none
  | sweepDue (hstage : loop.stage = .handling [])
      (hdue : loop.checkTimeout < seconds) :
      Transition .none { loop with stage := .sweepDue } .none
  | skipSweep (hstage : loop.stage = .handling [])
      (hdue : ¬ loop.checkTimeout < seconds) :
      Transition .none { loop with stage := .waiting } .none
  | beginSweep (walk : List HandlerId) (hstage : loop.stage = .sweepDue)
      (hwalk : walk.Perm loop.poller) :
      Transition (.order walk)
        { loop with checkTimeout := seconds, stage := .sweeping walk [] }
        .none
  | findIdle (ptr : HandlerId) (walk fired : List HandlerId)
      (hstage : loop.stage = .sweeping (ptr :: walk) fired)
      (hidle : (handlers ptr).isTimeout milliSeconds = true) :
      Transition .none
        { loop with stage := .sweeping walk (fired ++ [ptr]) } .none
  | passBy (ptr : HandlerId) (walk fired : List HandlerId)
      (hstage : loop.stage = .sweeping (ptr :: walk) fired)
      (hidle : ¬ (handlers ptr).isTimeout milliSeconds = true) :
      Transition .none { loop with stage := .sweeping walk fired } .none
  | endSweep (fired : List HandlerId)
      (hstage : loop.stage = .sweeping [] fired) :
      Transition .none { loop with stage := .posting fired } .none
  | post (ptr : HandlerId) (fired : List HandlerId)
      (hstage : loop.stage = .posting (ptr :: fired)) :
      Transition .none
        { loop with
          changedHandler := loop.changedHandler ++ [(false, ptr)]
          stage := .posting fired }
        .none
  | endPosting (hstage : loop.stage = .posting []) :
      Transition .none { loop with stage := .waiting } .none
  | swapQueue (hstage : loop.stage = .waiting) :
      Transition .none
        { loop with
          changedHandler := []
          stage := .changing loop.changedHandler }
        .none
  | register (ptr : HandlerId) (tempQueue : List (Bool × HandlerId))
      (success : Bool)
      (hstage : loop.stage = .changing ((true, ptr) :: tempQueue))
      (hfd : 0 < (fd ptr).1) :
      Transition (.registered success)
        { loop with
          poller :=
            if success then insertHandler fd ptr loop.poller
            else eraseHandler fd ptr loop.poller
          stage := .changing tempQueue }
        (.setEventLoop ptr)
  | reportPosted (ptr : HandlerId) (tempQueue : List (Bool × HandlerId))
      (hstage : loop.stage = .changing ((false, ptr) :: tempQueue)) :
      Transition .none { loop with stage := .changing tempQueue }
        (.onError ptr)
  | endChanges (hstage : loop.stage = .changing []) :
      Transition .none { loop with stage := .top } .none

end Transitions

theorem IoLoop.next_transition
    (hnext :
      loop.next fd kind handlers milliSeconds seconds answer =
        some (next, call)) :
    loop.Transition fd kind handlers milliSeconds seconds answer next
      call := by
  unfold IoLoop.next at hnext
  split at hnext
  case h_21 ptr tempQueue success hstage =>
    split at hnext
    next hfd =>
      obtain ⟨rfl, rfl⟩ := Prod.mk.inj (Option.some.inj hnext)
      exact .register ptr tempQueue success hstage hfd
    next => cases hnext
  all_goals repeat' split at hnext
  all_goals
    simp only [Option.some.injEq, Prod.mk.injEq, reduceCtorEq] at hnext
  all_goals obtain ⟨rfl, rfl⟩ := hnext
  case h_1.isTrue hstage hterminal => exact .stop hstage hterminal
  case h_2.isTrue hstage hready => exact .poll _ hstage hready
  case h_3.isTrue hstage hread => exact .beginRead _ _ hstage hread
  case h_3.isFalse hstage hread => exact .skipRead _ _ hstage hread
  case h_4.isTrue.isTrue hstage hkind hfails =>
    exact .acceptFails _ _ _ _ _ hstage hkind hfails
  case h_4.isTrue.isFalse.isTrue hstage hkind hfails hends =>
    exact .acceptEnds _ _ _ _ _ hstage hkind hfails hends
  case h_4.isTrue.isFalse.isFalse.isTrue hstage hkind _ hpos hnew =>
    exact .accept _ _ _ _ _ hstage hkind hpos hnew
  case h_5.isFalse.isTrue hstage hkind hfails =>
    exact .readFails _ _ _ _ hstage hkind hfails
  case h_5.isFalse.isFalse hstage hkind hfails =>
    exact .read _ _ _ _ hstage hkind hfails
  case h_6 hstage => exact .passOn _ _ _ hstage
  case h_7 hstage => exact .reportRead _ _ hstage
  case h_8 hstage => exact .skipWrite _ _ hstage
  case h_9.isTrue.isTrue hstage hwriteable hfails =>
    exact .writeFails _ _ _ _ hstage hwriteable hfails
  case h_9.isTrue.isFalse hstage hwriteable hfails =>
    exact .write _ _ _ _ hstage hwriteable hfails
  case h_10 hstage => exact .removeConn _ _ hstage
  case h_11 hstage => exact .reportWrite _ _ hstage
  case h_12 hstage => exact .shutdown _ _ _ hstage
  case h_13 hstage => exact .shutdown _ _ _ hstage
  case h_14.isTrue hstage hdue => exact .sweepDue hstage hdue
  case h_14.isFalse hstage hdue => exact .skipSweep hstage hdue
  case h_15.isTrue hstage hwalk => exact .beginSweep _ hstage hwalk
  case h_16.isTrue hstage hidle => exact .findIdle _ _ _ hstage hidle
  case h_16.isFalse hstage hidle => exact .passBy _ _ _ hstage hidle
  case h_17 hstage => exact .endSweep _ hstage
  case h_18 hstage => exact .post _ _ hstage
  case h_19 hstage => exact .endPosting hstage
  case h_20 hstage => exact .swapQueue hstage
  case h_22 hstage => exact .reportPosted _ _ hstage
  case h_23 hstage => exact .endChanges hstage

/-- How a step moves a handler: it does not multiply it, a loop comes to know
it only by adopting it from its queue, and without a failed read or a timeout
only a removed connection reaches `OnError`. -/
structure IoLoop.Moves
    (ptr : HandlerId) (loop next : IoLoop) (call : LoopCall) : Prop where
  weight :
    next.weight ptr + call.posted.count ptr ≤
      loop.weight ptr + call.constructed.count ptr
  presence :
    next.presence ptr ≤ loop.presence ptr + call.adopted.count ptr
  adopted : call.adopted.count ptr ≤ loop.requests.count (true, ptr)
  departures :
    loop.condemned ptr = 0 →
      next.departures ptr + call.failed.count ptr =
        loop.departures ptr + call.removed.count ptr

theorem IoLoop.next_moves
    (hnext :
      loop.next fd kind handlers milliSeconds seconds answer =
        some (next, call))
    (ptr : HandlerId) :
    IoLoop.Moves ptr loop next call := by
  cases IoLoop.next_transition hnext
  all_goals constructor
  all_goals
    simp only [IoLoop.weight, IoLoop.requests, IoLoop.presence,
      IoLoop.departures, IoLoop.condemned, LoopStage.arriving,
      LoopStage.tempQueue, LoopStage.firing, LoopStage.leaving,
      LoopStage.doomed, LoopCall.posted, LoopCall.constructed,
      LoopCall.adopted, LoopCall.removed, LoopCall.failed,
      List.count_append, List.count_cons, List.count_nil, beq_iff_eq,
      Prod.mk.injEq, true_and, reduceCtorEq, false_and, if_false,
      implies_true, *]
    try omega
  -- what is left changes the poller or reads it
  case poll.weight hready =>
    have hpolled := count_pollOnce_le fd ptr loop.poller hready.2
    omega
  case poll.presence hready =>
    have hpolled := count_pollOnce_le fd ptr loop.poller hready.2
    omega
  case register.weight other _ success _ _ =>
    have hregistered := count_register_le fd ptr other success loop.poller
    omega
  case register.presence other _ success _ _ =>
    have hregistered := count_register_le fd ptr other success loop.poller
    omega

/-- What a step does not do unless the handler is to blame. -/
structure IoLoop.Spared
    (kind : HandlerId → HandlerKind) (ptr : HandlerId)
    (loop next : IoLoop) : Prop where
  condemned : next.condemned ptr ≤ loop.condemned ptr
  broken :
    kind ptr = .acceptor →
      next.stage.broken.count ptr ≤ loop.stage.broken.count ptr
  terminal : next.terminal = loop.terminal

theorem IoLoop.next_spared
    (hnext :
      loop.next fd kind handlers milliSeconds seconds answer =
        some (next, call))
    {ptr : HandlerId} (hspares : loop.Spares ptr handlers milliSeconds answer) :
    IoLoop.Spared kind ptr loop next := by
  unfold IoLoop.Spares at hspares
  cases IoLoop.next_transition hnext
  all_goals constructor
  all_goals
    simp only [IoLoop.requests, IoLoop.condemned, LoopStage.tempQueue,
      LoopStage.doomed, LoopStage.broken,
      List.count_append, List.count_cons, List.count_nil, beq_iff_eq,
      Prod.mk.injEq, true_and, reduceCtorEq, false_and, if_false, *]
    try omega
  case acceptFails.condemned hstage _ hfails =>
    simp only [hstage, Answer.failsRead, hfails, decide_true,
      reduceCtorEq, imp_false] at hspares
    rw [if_neg hspares]
  case readFails.condemned hstage _ hfails =>
    simp only [hstage, Answer.failsRead, hfails, decide_true,
      reduceCtorEq, imp_false] at hspares
    rw [if_neg hspares]
  case writeFails.broken hwriteable _ =>
    intro hkind
    rw [if_neg]
    intro heq
    exact hwriteable.1 (heq ▸ hkind)
  case findIdle.condemned candidate _ _ hstage hidle =>
    simp only [hstage] at hspares
    have hother : candidate ≠ ptr := by
      intro heq
      subst candidate
      simp [hspares rfl] at hidle
    rw [if_neg hother]
    omega

/-- Where the calls come from that matter for the end of a connection. -/
def LoopCall.Origin
    (fd : HandlerId → Descriptor) (loop next : IoLoop) : LoopCall → Prop
  | .addConn newHandler => 0 < (fd newHandler).1
  | .removeConn ptr => ∃ fired, loop.stage = .writeFailed ptr fired
  | .onError ptr =>
      (∃ fired, loop.stage = .readFailed ptr fired) ∨
        (∃ fired,
          loop.stage = .removed ptr fired ∧
            next = { loop with stage := .shuttingDown ptr fired }) ∨
          ∃ tempQueue, loop.stage = .changing ((false, ptr) :: tempQueue)
  | _ => True

theorem IoLoop.next_origin
    (hnext :
      loop.next fd kind handlers milliSeconds seconds answer =
        some (next, call)) :
    call.Origin fd loop next := by
  cases IoLoop.next_transition hnext with
  | accept ptr fired returned errno newHandler _ _ hpos hnew =>
      change 0 < (fd newHandler).1
      rw [hnew.2]
      exact not_le.mp hpos
  | removeConn ptr fired hstage => exact ⟨fired, hstage⟩
  | reportRead ptr fired hstage => exact .inl ⟨fired, hstage⟩
  | reportWrite ptr fired hstage => exact .inr (.inl ⟨fired, hstage, rfl⟩)
  | reportPosted ptr tempQueue hstage =>
      exact .inr (.inr ⟨tempQueue, hstage⟩)
  | _ => trivial

/-- Without a failed read and a timeout it is a removed connection that reaches
its `OnError`. -/
theorem IoLoop.next_onError
    {ptr : HandlerId}
    (hnext :
      loop.next fd kind handlers milliSeconds seconds answer =
        some (next, .onError ptr))
    (hcondemned : loop.condemned ptr = 0) :
    ∃ fired,
      loop.stage = .removed ptr fired ∧
        next = { loop with stage := .shuttingDown ptr fired } := by
  unfold IoLoop.condemned IoLoop.requests at hcondemned
  rcases IoLoop.next_origin hnext with
    ⟨fired, hstage⟩ | hremoved | ⟨tempQueue, hstage⟩
  · simp [hstage, LoopStage.doomed] at hcondemned
  · exact hremoved
  · simp [hstage, LoopStage.tempQueue] at hcondemned

end Next

/-! ## The call at the end of a step -/

def LoopCall.onConns (fd : HandlerId → Descriptor) :
    LoopCall → ConnSystem → ConnSystem
  | .addConn newHandler => ConnSystem.addConn newHandler
  | .removeConn ptr => ConnSystem.removeConn fd ptr
  | _ => id

/-- A loop as another thread may leave it: its own thread stays where it is,
and no handler is added to its poller. -/
structure IoLoop.Kept (ptr : HandlerId) (loop next : IoLoop) : Prop where
  presence : next.presence ptr ≤ loop.presence ptr
  condemned : next.condemned ptr = loop.condemned ptr
  stage : next.stage = loop.stage

/-- The same for all loops, where the handler may join their queues. -/
structure LoopsKept
    (ptr : HandlerId) (gain : ℕ) (loops next : List IoLoop) : Prop where
  weight :
    tally (IoLoop.weight ptr) next ≤ tally (IoLoop.weight ptr) loops + gain
  departures :
    tally (IoLoop.departures ptr) next =
      tally (IoLoop.departures ptr) loops
  kept :
    ∀ (j : ℕ) loop, next[j]? = some loop →
      ∃ old, loops[j]? = some old ∧ IoLoop.Kept ptr old loop

/-- The effect of a call, as far as one handler is concerned. -/
structure EventLoop.Performed
    (fd : HandlerId → Descriptor) (ptr : HandlerId) (i : ℕ)
    (call : LoopCall) (before after : EventLoop) : Prop where
  loops : LoopsKept ptr (call.posted.count ptr) before.loops after.loops
  errors : after.errors = before.errors ++ call.failed
  created : after.created = call.constructed ++ before.created
  fresh : ∀ newHandler ∈ call.constructed, newHandler ∉ before.created
  conns : after.conns = call.onConns fd before.conns
  eventLoop :
    ptr ∉ call.constructed →
      (after.handlers ptr).eventLoop =
        if ptr ∈ call.adopted then some i
        else (before.handlers ptr).eventLoop

section Perform

variable {fd : HandlerId → Descriptor} {kind : HandlerId → HandlerKind}

theorem LoopsKept.refl
    (ptr : HandlerId) (gain : ℕ) (loops : List IoLoop) :
    LoopsKept ptr gain loops loops :=
  ⟨Nat.le_add_right _ _, rfl,
    fun _ loop hloop => ⟨loop, hloop, le_rfl, rfl, rfl⟩⟩

theorem IoLoop.Kept.departures
    {ptr : HandlerId} {loop next : IoLoop}
    (hkept : IoLoop.Kept ptr loop next) :
    next.departures ptr = loop.departures ptr := by
  unfold IoLoop.departures
  rw [hkept.stage]

theorem LoopsKept.modify
    {ptr : HandlerId} {gain : ℕ} {f : IoLoop → IoLoop}
    (hgain : ∀ loop, (f loop).weight ptr ≤ loop.weight ptr + gain)
    (hkept : ∀ loop, IoLoop.Kept ptr loop (f loop))
    (loops : List IoLoop) (i : ℕ) :
    LoopsKept ptr gain loops (loops.modify i f) := by
  constructor
  · exact tally_modify_le _ hgain loops i
  · exact tally_modify_of_eq _ (fun loop => (hkept loop).departures) loops i
  · intro j loop hloop
    rw [List.getElem?_modify] at hloop
    simp only [Option.map_eq_map, Option.map_eq_some_iff] at hloop
    rcases hloop with ⟨old, hold, heq⟩
    refine ⟨old, hold, ?_⟩
    split at heq
    next => exact heq ▸ hkept old
    next => exact heq ▸ ⟨le_rfl, rfl, rfl⟩

/-- `Ternimal` does not touch what the loops know about handlers. -/
theorem LoopsKept.terminal (ptr : HandlerId) (loops : List IoLoop) :
    LoopsKept ptr 0 loops
      (loops.map fun loop => { loop with terminal := true }) := by
  constructor
  · apply le_of_eq
    apply tally_map_of_eq
    intro loop
    rfl
  · apply tally_map_of_eq
    intro loop
    rfl
  · intro j loop hloop
    rw [List.getElem?_map, Option.map_eq_some_iff] at hloop
    rcases hloop with ⟨old, hold, heq⟩
    exact ⟨old, hold, heq ▸ ⟨le_rfl, rfl, rfl⟩⟩

theorem LoopsKept.terminal_one
    (ptr : HandlerId) (loops : List IoLoop) (i : ℕ) :
    LoopsKept ptr 0 loops
      (loops.modify i fun loop => { loop with terminal := true }) := by
  apply LoopsKept.modify
  · intro loop
    exact le_rfl
  · intro loop
    exact ⟨le_rfl, rfl, rfl⟩

theorem LoopsKept.erase
    (ptr other : HandlerId) (loops : List IoLoop) (i : ℕ) :
    LoopsKept ptr 0 loops
      (loops.modify i fun loop =>
        { loop with poller := eraseHandler fd other loop.poller }) := by
  have hpresence :
      ∀ loop : IoLoop,
        IoLoop.presence ptr
            { loop with poller := eraseHandler fd other loop.poller } ≤
          loop.presence ptr := by
    intro loop
    exact max_le_max_right _ (count_eraseHandler_le fd ptr other _)
  apply LoopsKept.modify
  · intro loop
    exact Nat.add_le_add_left (hpresence loop) _
  · intro loop
    exact ⟨hpresence loop, rfl, rfl⟩

theorem LoopsKept.post
    (ptr newHandler : HandlerId) (loops : List IoLoop) (i : ℕ) :
    LoopsKept ptr ([newHandler].count ptr) loops
      (loops.modify i fun loop =>
        { loop with
          changedHandler :=
            loop.changedHandler ++ [(true, newHandler)] }) := by
  apply LoopsKept.modify
  · intro loop
    simp only [IoLoop.weight, IoLoop.requests, IoLoop.presence,
      List.count_append, List.count_cons, List.count_nil, beq_iff_eq,
      Prod.mk.injEq, true_and]
    omega
  · intro loop
    refine ⟨le_rfl, ?_, rfl⟩
    simp [IoLoop.condemned, IoLoop.requests]

theorem EventLoop.modifyHandler_eventLoop
    {f : EventHandler → EventHandler}
    (hsame : ∀ handler, (f handler).eventLoop = handler.eventLoop)
    (other ptr : HandlerId) (system : EventLoop) :
    ((system.modifyHandler other f).handlers ptr).eventLoop =
      (system.handlers ptr).eventLoop := by
  unfold EventLoop.modifyHandler
  by_cases heq : ptr = other
  · subst other
    simp [hsame]
  · simp [heq]

theorem EventLoop.setRevents_eq
    (found : List (HandlerId × Events)) (system : EventLoop) :
    ∃ handlers,
      system.setRevents found = { system with handlers := handlers } ∧
        ∀ ptr, (handlers ptr).eventLoop =
          (system.handlers ptr).eventLoop := by
  induction found generalizing system with
  | nil => exact ⟨system.handlers, rfl, fun _ => rfl⟩
  | cons entry rest ih =>
      rcases ih (system.modifyHandler entry.1 fun handler =>
          { handler with revents := entry.2 }) with
        ⟨handlers, hrest, hsame⟩
      refine ⟨handlers, hrest, ?_⟩
      intro ptr
      rw [hsame ptr, EventLoop.modifyHandler_eventLoop]
      intro handler
      rfl

theorem EventLoop.onError_performed
    {before after : EventLoop} {other : HandlerId}
    (honError : before.onError fd kind other = some after)
    (ptr : HandlerId) (i : ℕ) :
    EventLoop.Performed fd ptr i (.onError other) before after := by
  unfold EventLoop.onError at honError
  split at honError
  next =>
    simp only [Option.some.injEq] at honError
    subst after
    exact ⟨LoopsKept.terminal ptr _, rfl, rfl,
      by simp [LoopCall.constructed], rfl, fun _ => rfl⟩
  next j _ _ =>
    simp only [Option.some.injEq] at honError
    subst after
    exact ⟨LoopsKept.erase ptr other _ j, rfl, rfl,
      by simp [LoopCall.constructed], rfl, fun _ => rfl⟩
  next j _ _ =>
    simp only [Option.some.injEq] at honError
    subst after
    exact ⟨LoopsKept.terminal_one ptr _ j, rfl, rfl,
      by simp [LoopCall.constructed], rfl, fun _ => rfl⟩
  next => simp at honError

/-- A call that writes nothing but fields of handlers. -/
theorem EventLoop.Performed.of_handlers
    {before after : EventLoop} {ptr : HandlerId} {i : ℕ} {call : LoopCall}
    (hafter : after = { before with handlers := after.handlers })
    (hfailed : call.failed = []) (hconstructed : call.constructed = [])
    (hconns : call.onConns fd = id)
    (heventLoop :
      (after.handlers ptr).eventLoop =
        if ptr ∈ call.adopted then some i
        else (before.handlers ptr).eventLoop) :
    EventLoop.Performed fd ptr i call before after := by
  rw [hafter]
  constructor
  · exact LoopsKept.refl ptr _ _
  · simp [hfailed]
  · simp [hconstructed]
  · simp [hconstructed]
  · rw [hconns]
    rfl
  · intro _
    exact heventLoop

theorem EventLoop.perform_performed
    {before after : EventLoop} {i : ℕ} {call : LoopCall}
    (hperform : before.perform fd kind i call = some after)
    (ptr : HandlerId) :
    EventLoop.Performed fd ptr i call before after := by
  cases call with
  | none =>
      simp only [EventLoop.perform, Option.some.injEq] at hperform
      subst after
      exact .of_handlers rfl rfl rfl rfl rfl
  | setRevents found =>
      simp only [EventLoop.perform, Option.some.injEq] at hperform
      rcases EventLoop.setRevents_eq found before with
        ⟨handlers, heq, hsame⟩
      rw [← hperform, heq]
      exact .of_handlers rfl rfl rfl rfl (hsame ptr)
  | setLastActive other =>
      simp only [EventLoop.perform, Option.some.injEq] at hperform
      subst after
      apply EventLoop.Performed.of_handlers rfl rfl rfl rfl
      apply EventLoop.modifyHandler_eventLoop
      intro handler
      rfl
  | clearRevents other =>
      simp only [EventLoop.perform, Option.some.injEq] at hperform
      subst after
      apply EventLoop.Performed.of_handlers rfl rfl rfl rfl
      apply EventLoop.modifyHandler_eventLoop
      intro handler
      rfl
  | setEventLoop other =>
      simp only [EventLoop.perform, Option.some.injEq] at hperform
      subst after
      apply EventLoop.Performed.of_handlers rfl rfl rfl rfl
      by_cases heq : ptr = other
      · subst other
        simp [LoopCall.adopted, EventLoop.modifyHandler]
      · simp [LoopCall.adopted, EventLoop.modifyHandler, heq]
  | addConn newHandler =>
      simp only [EventLoop.perform] at hperform
      split at hperform
      next => simp at hperform
      next hfresh =>
        simp only [Option.some.injEq] at hperform
        subst after
        refine ⟨LoopsKept.refl ptr _ _, (List.append_nil _).symm, rfl,
          by simpa [LoopCall.constructed] using hfresh, rfl, ?_⟩
        intro hother
        have hne : ptr ≠ newHandler := by
          simpa [LoopCall.constructed] using hother
        simp [LoopCall.adopted, EventLoop.modifyHandler, hne]
  | addHandlerLater acceptor newHandler =>
      simp only [EventLoop.perform, EventLoop.addHandlerLater] at hperform
      split at hperform
      next =>
        simp only [Option.some.injEq] at hperform
        subst after
        refine ⟨LoopsKept.post ptr newHandler _ _,
          (List.append_nil _).symm, rfl, by simp [LoopCall.constructed],
          rfl, ?_⟩
        intro _
        have hconstructed :
            ((before.modifyHandler newHandler fun handler =>
              { handler with events := kEventReadWrite }).handlers
                ptr).eventLoop =
              (before.handlers ptr).eventLoop := by
          apply EventLoop.modifyHandler_eventLoop
          intro handler
          rfl
        refine Eq.trans ?_ hconstructed
        apply EventLoop.modifyHandler_eventLoop
        intro handler
        rfl
      next => simp at hperform
  | removeConn other =>
      simp only [EventLoop.perform, Option.some.injEq] at hperform
      subst after
      exact ⟨LoopsKept.refl ptr _ _, (List.append_nil _).symm, rfl,
        by simp [LoopCall.constructed], rfl, fun _ => rfl⟩
  | onError other => exact EventLoop.onError_performed hperform ptr i

theorem EventLoop.loopStep_eq_some
    {system final : EventLoop} {i : ℕ} {answer : Answer}
    (hstep : system.loopStep fd kind i answer = some final) :
    ∃ loop next call,
      system.loops[i]? = some loop ∧
        loop.next fd kind system.handlers system.milliSeconds
            system.seconds answer =
          some (next, call) ∧
        { system with loops := system.loops.set i next }.perform fd kind i
          call = some final := by
  unfold EventLoop.loopStep at hstep
  split at hstep
  next => simp at hstep
  next loop hloop =>
    split at hstep
    next => simp at hstep
    next next call hnext => exact ⟨loop, next, call, hloop, hnext, hstep⟩

theorem EventLoop.step_update
    {system final : EventLoop}
    (hstep : system.step fd kind .update = some final) :
    ∃ conns,
      system.conns.updateStep fd = some conns ∧
        final = { system with conns := conns } := by
  simp only [EventLoop.step] at hstep
  split at hstep
  next => simp at hstep
  next =>
    rw [Option.map_eq_some_iff] at hstep
    rcases hstep with ⟨conns, hupdate, heq⟩
    exact ⟨conns, hupdate, heq.symm⟩

/-! ## The start -/

/-- The program before the first step of a thread. -/
structure EventLoop.Fresh
    (registered : List HandlerId) (system : EventLoop) : Prop where
  conns : system.conns = ConnSystem.new
  errors : system.errors = []
  created : system.created = registered
  idle :
    ∀ loop ∈ system.loops,
      loop.stage = .top ∧ loop.changedHandler = [] ∧ loop.terminal = false
  polled :
    ∀ loop ∈ system.loops, ∀ ptr ∈ loop.poller, ptr ∈ registered

theorem EventLoop.Fresh.distribute
    {registered rest : List HandlerId} {system final : EventLoop} {i : ℕ}
    (hfresh : EventLoop.Fresh registered system)
    (hrest : ∀ ptr ∈ rest, ptr ∈ registered)
    (hdistributed :
      EventLoop.distribute fd rest i system = some final) :
    EventLoop.Fresh registered final := by
  induction rest generalizing system i with
  | nil =>
      simp only [EventLoop.distribute, Option.some.injEq] at hdistributed
      exact hdistributed ▸ hfresh
  | cons ptr rest ih =>
      simp only [EventLoop.distribute] at hdistributed
      split at hdistributed
      next =>
        refine ih ?_ (fun other hmem =>
          hrest other (List.mem_cons_of_mem _ hmem)) hdistributed
        constructor
        · exact hfresh.conns
        · exact hfresh.errors
        · exact hfresh.created
        · intro loop hmem
          rcases mem_modify hmem with ⟨old, hold, heq | heq⟩
          · exact heq ▸ hfresh.idle old hold
          · exact heq ▸ hfresh.idle old hold
        · intro loop hmem other hother
          rcases mem_modify hmem with ⟨old, hold, heq | heq⟩
          · exact hfresh.polled old hold other (heq ▸ hother)
          · subst loop
            rcases List.mem_append.mp hother with hkept | hadded
            · exact hfresh.polled old hold other
                (List.mem_of_mem_filter hkept)
            · rw [List.mem_singleton.mp hadded]
              exact hrest ptr (by simp)
      next => simp at hdistributed

theorem EventLoop.start_fresh
    {threadCount milliSeconds : ℕ} {seconds : ℤ}
    {constructedAt : HandlerId → ℕ} {registered : List HandlerId}
    {system : EventLoop}
    (hstart :
      EventLoop.start fd kind threadCount milliSeconds seconds
        constructedAt registered = some system) :
    EventLoop.Fresh registered system := by
  unfold EventLoop.start at hstart
  split at hstart
  next => simp at hstart
  next =>
    refine EventLoop.Fresh.distribute ?_ (fun _ hmem => hmem) hstart
    constructor
    · rfl
    · rfl
    · rfl
    · intro loop hmem
      rw [List.eq_of_mem_replicate hmem]
      exact ⟨rfl, rfl, rfl⟩
    · intro loop hmem
      rw [List.eq_of_mem_replicate hmem]
      simp [IoLoop.new]

end Perform

end GreenTurtle.EventLoops
