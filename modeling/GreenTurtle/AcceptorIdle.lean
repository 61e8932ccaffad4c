import GreenTurtle.ConnectionLifecycle
import Mathlib.Tactic

/-!
# An idle acceptor

The sweep of a loop treats an acceptor like a connection: if no connection has
arrived for a minute, the acceptor is posted for removal, its `OnError` is
called, and that sets the flag `terminal_` of every loop.  As long as no sweep
comes that late, and `accept` reports no error, the acceptor stops nothing.
-/

namespace GreenTurtle.EventLoops

open Connections
open Execution

/-! ## Undisturbed runs -/

/-- `accept` does not report an error, and `EventLoop::Terminal` is not
called. -/
def Undisturbed : EventLabel → Prop
  | .loop _ (.accept returned errno _) =>
      SocketOption.accept returned errno ≠ kErr
  | .terminal => False
  | _ => True

/-- A sweep that looks at the handler does so before its timeout. -/
def IoLoop.SweptInTime
    (ptr : HandlerId) (system : EventLoop) (loop : IoLoop) : Prop :=
  match loop.stage with
  | .sweeping (candidate :: _) _ =>
      candidate = ptr →
        (system.handlers ptr).isTimeout system.milliSeconds = false
  | _ => True

def SweptInTime (ptr : HandlerId) (system : EventLoop) :
    EventLabel → Prop
  | .loop i _ => ∀ loop ∈ system.loops[i]?, loop.SweptInTime ptr system
  | _ => True

instance (label : EventLabel) : Decidable (Undisturbed label) := by
  unfold Undisturbed
  split <;> infer_instance

instance (ptr : HandlerId) (system : EventLoop) (loop : IoLoop) :
    Decidable (loop.SweptInTime ptr system) := by
  unfold IoLoop.SweptInTime
  exact
    match loop.stage with
    | .sweeping (_ :: _) _ => inferInstance
    | .top | .handling _ | .reading _ _ | .accepted _ _ _ | .readFailed _ _
    | .writing _ _ | .writeFailed _ _ | .removed _ _ | .shuttingDown _ _
    | .sweepDue | .sweeping [] _ | .posting _ | .waiting | .changing _
    | .stopped => instDecidableTrue

instance (ptr : HandlerId) (system : EventLoop) (label : EventLabel) :
    Decidable (SweptInTime ptr system label) :=
  match label with
  | .loop i _ =>
      inferInstanceAs
        (Decidable (∀ loop ∈ system.loops[i]?, loop.SweptInTime ptr system))
  | .clock _ _ | .update | .terminal => instDecidableTrue

/-! ## The invariant -/

/-- Nothing leads to the `OnError` of the acceptor, and the flags that are set
have been set by another handler. -/
structure Listening
    (kind : HandlerId → HandlerKind) (ptr : HandlerId)
    (system : EventLoop) : Prop where
  spared :
    ∀ (i : ℕ) loop, system.loops[i]? = some loop →
      loop.condemned ptr = 0 ∧ loop.stage.broken.count ptr = 0
  errors : ptr ∉ system.errors
  terminal :
    ∀ loop ∈ system.loops, loop.terminal = true →
      ∃ other ∈ system.errors, kind other ≠ .connection

section Idle

variable {fd : HandlerId → Descriptor} {kind : HandlerId → HandlerKind}
variable {ptr : HandlerId} {system final : EventLoop}

/-- A reading acceptor only ever calls `accept`. -/
theorem IoLoop.spares_acceptor
    {loop next : IoLoop} {call : LoopCall} {i : ℕ} {answer : Answer}
    (hkind : kind ptr = .acceptor)
    (hnext :
      loop.next fd kind system.handlers system.milliSeconds system.seconds
        answer = some (next, call))
    (hundisturbed : Undisturbed (.loop i answer))
    (hswept : loop.SweptInTime ptr system) :
    loop.Spares ptr system.handlers system.milliSeconds answer := by
  unfold IoLoop.Spares
  split
  next reader fired hstage =>
    intro hreader
    subst reader
    cases answer with
    | accept returned errno newHandler =>
        simpa [Answer.failsRead, Undisturbed] using hundisturbed
    | readv returned errno =>
        -- an acceptor does not call readv
        have hother :
            ∀ other fired, loop.stage = .reading other fired →
              kind other = .acceptor := by
          intro other fired hreading
          rw [hstage] at hreading
          cases hreading
          exact hkind
        cases IoLoop.next_transition hnext with
        | readFails other fired _ _ hreading hreader _ =>
            exact absurd (hother other fired hreading) hreader
        | read other fired _ _ hreading hreader _ =>
            exact absurd (hother other fired hreading) hreader
        | shutdown other fired _ hshutting =>
            rw [hstage] at hshutting
            cases hshutting
    | _ => rfl
  next candidate walk fired hstage =>
    simpa [IoLoop.SweptInTime, hstage] using hswept
  next => trivial

/-- Only `OnError` sets a flag, and never that of a connection. -/
theorem EventLoop.perform_terminal
    {before after : EventLoop} {i : ℕ} {call : LoopCall}
    (hperform : before.perform fd kind i call = some after)
    {loop : IoLoop} (hloop : loop ∈ after.loops)
    (hterminal : loop.terminal = true) :
    (∃ old ∈ before.loops, old.terminal = true) ∨
      ∃ other ∈ call.failed, kind other ≠ .connection := by
  cases call with
  | setRevents found =>
      simp only [EventLoop.perform, Option.some.injEq] at hperform
      rcases EventLoop.setRevents_eq found before with ⟨handlers, heq, _⟩
      rw [← hperform, heq] at hloop
      exact .inl ⟨loop, hloop, hterminal⟩
  | addConn newHandler =>
      simp only [EventLoop.perform] at hperform
      split at hperform
      next => simp at hperform
      next =>
        simp only [Option.some.injEq] at hperform
        subst after
        exact .inl ⟨loop, hloop, hterminal⟩
  | addHandlerLater acceptor newHandler =>
      simp only [EventLoop.perform, EventLoop.addHandlerLater] at hperform
      split at hperform
      next =>
        simp only [Option.some.injEq] at hperform
        subst after
        rcases Tally.mem_modify hloop with ⟨old, hold, heq | heq⟩
        · exact .inl ⟨old, hold, heq ▸ hterminal⟩
        · subst loop
          exact .inl ⟨old, hold, hterminal⟩
      next => simp at hperform
  | onError other =>
      simp only [EventLoop.perform, EventLoop.onError] at hperform
      split at hperform
      next hkind =>
        exact .inr ⟨other, by simp [LoopCall.failed], by simp [hkind]⟩
      next j _ _ =>
        simp only [Option.some.injEq] at hperform
        subst after
        rcases Tally.mem_modify hloop with ⟨old, hold, heq | heq⟩
        · exact .inl ⟨old, hold, heq ▸ hterminal⟩
        · subst loop
          exact .inl ⟨old, hold, hterminal⟩
      next j hkind _ =>
        exact .inr ⟨other, by simp [LoopCall.failed], by simp [hkind]⟩
      next => simp at hperform
  | _ =>
      simp only [EventLoop.perform, Option.some.injEq] at hperform
      subst after
      exact .inl ⟨loop, hloop, hterminal⟩

theorem Listening.loopStep
    (hlistening : Listening kind ptr system)
    (hkind : kind ptr = .acceptor) {i : ℕ} {answer : Answer}
    (hundisturbed : Undisturbed (.loop i answer))
    (hswept : SweptInTime ptr system (.loop i answer))
    (hstep : system.loopStep fd kind i answer = some final) :
    Listening kind ptr final := by
  rcases EventLoop.loopStep_eq_some hstep with
    ⟨loop, next, call, hloop, hnext, hperform⟩
  have hquiet := hlistening.spared i loop hloop
  have hspared :=
    IoLoop.next_spared hnext
      (IoLoop.spares_acceptor hkind hnext hundisturbed (hswept loop hloop))
  have hperformed := EventLoop.perform_performed hperform ptr
  have hcondemned := hspared.condemned
  have hbroken := hspared.broken hkind
  constructor
  · intro j found hfound
    rcases hperformed.loops.kept j found hfound with ⟨old, hold, hkept⟩
    rw [hkept.condemned, hkept.stage]
    rcases Tally.getElem?_set_eq_some hold with ⟨_, heq⟩ | ⟨_, hother⟩
    · subst old
      exact ⟨by omega, by omega⟩
    · exact hlistening.spared j old hother
  · rw [hperformed.errors, List.mem_append]
    intro hmem
    rcases hmem with hold | hfailed
    · exact hlistening.errors hold
    · cases call with
      | onError other =>
          have heq : ptr = other := by
            simpa [LoopCall.failed] using hfailed
          subst other
          rcases IoLoop.next_onError hnext hquiet.1 with ⟨fired, hstage, _⟩
          simp [hstage, LoopStage.broken] at hquiet
      | _ => simp [LoopCall.failed] at hfailed
  · intro found hfound hterminal
    rw [hperformed.errors]
    rcases EventLoop.perform_terminal hperform hfound hterminal with
      ⟨old, hold, hset⟩ | ⟨other, hother, hnotConnection⟩
    · rcases List.mem_or_eq_of_mem_set hold with hmem | heq
      · rcases hlistening.terminal old hmem hset with
          ⟨other, hother, hnotConnection⟩
        exact ⟨other, List.mem_append_left _ hother, hnotConnection⟩
      · subst old
        rw [hspared.terminal] at hset
        rcases hlistening.terminal loop (List.mem_of_getElem? hloop) hset
          with ⟨other, hother, hnotConnection⟩
        exact ⟨other, List.mem_append_left _ hother, hnotConnection⟩
    · exact ⟨other, List.mem_append_right _ hother, hnotConnection⟩

theorem Listening.step
    (hlistening : Listening kind ptr system)
    (hkind : kind ptr = .acceptor) {label : EventLabel}
    (hallowed : Undisturbed label ∧ SweptInTime ptr system label)
    (hstep : system.step fd kind label = some final) :
    Listening kind ptr final := by
  cases label with
  | clock milliSeconds seconds =>
      simp only [EventLoop.step, Option.some.injEq] at hstep
      subst final
      exact { hlistening with }
  | loop i answer =>
      exact hlistening.loopStep hkind hallowed.1 hallowed.2 hstep
  | update =>
      rcases EventLoop.step_update hstep with ⟨conns, _, heq⟩
      subst final
      exact { hlistening with }
  | terminal => exact hallowed.1.elim

theorem Listening.start
    {registered : List HandlerId}
    (hfresh : EventLoop.Fresh registered system) :
    Listening kind ptr system := by
  constructor
  · intro i loop hloop
    rcases hfresh.idle loop (List.mem_of_getElem? hloop) with
      ⟨hstage, hqueue, _⟩
    simp [IoLoop.condemned, IoLoop.requests, hstage, hqueue,
      LoopStage.doomed, LoopStage.tempQueue, LoopStage.broken]
  · simp [hfresh.errors]
  · intro loop hloop hterminal
    simp [(hfresh.idle loop hloop).2.2] at hterminal

/-! ## Whole runs -/

/-- In every undisturbed run in which no sweep finds the acceptor idle, its
`OnError` is not called, and a loop is stopped only on account of another
acceptor or a client. -/
theorem acceptor_keeps_listening
    {threadCount milliSeconds : ℕ} {seconds : ℤ}
    {constructedAt : HandlerId → ℕ} {registered : List HandlerId}
    {labels : List EventLabel}
    (hstart :
      EventLoop.start fd kind threadCount milliSeconds seconds
        constructedAt registered = some system)
    (hkind : kind ptr = .acceptor)
    (hrun : run (EventLoop.step fd kind) system labels = some final)
    (hsteps :
      EachStep (EventLoop.step fd kind)
        (fun state label =>
          Undisturbed label ∧ SweptInTime ptr state label)
        system labels) :
    ptr ∉ final.errors ∧
      ∀ loop ∈ final.loops, loop.terminal = true →
        ∃ other ∈ final.errors,
          other ≠ ptr ∧ kind other ≠ .connection := by
  have hlistening : Listening kind ptr final :=
    run_preserves (EventLoop.step fd kind) (Listening kind ptr) _
      (fun _ _ _ hinv hlabel hstep => hinv.step hkind hlabel hstep)
      (Listening.start (EventLoop.start_fresh hstart)) hrun hsteps
  refine ⟨hlistening.errors, ?_⟩
  intro loop hloop hterminal
  rcases hlistening.terminal loop hloop hterminal with
    ⟨other, hother, hnotConnection⟩
  refine ⟨other, hother, ?_, hnotConnection⟩
  intro heq
  exact hlistening.errors (heq ▸ hother)

end Idle

/-- A sweep after half a minute finds no idle handler. -/
def sweepEarly : List EventLabel :=
  [.clock 31000 31, .loop 0 (.ready []), .loop 0 .none,
    .loop 0 (.order [5, 3]), .loop 0 .none, .loop 0 .none, .loop 0 .none,
    .loop 0 .none, .loop 0 .none, .loop 0 .none]

theorem acceptor_keeps_listening_half_minute :
    ∃ system final,
      EventLoop.start smallDescriptor oneAcceptor 1 1000 1 (fun _ => 1000)
          [3] = some system ∧
        run (EventLoop.step smallDescriptor oneAcceptor) system
            (acceptOne ++ sweepEarly) = some final ∧
        final.errors = [] ∧
        ∀ loop ∈ final.loops, loop.terminal = true →
          ∃ other ∈ final.errors,
            other ≠ 3 ∧ oneAcceptor other ≠ .connection := by
  have hrun :
      ∃ system,
        EventLoop.start smallDescriptor oneAcceptor 1 1000 1
            (fun _ => 1000) [3] = some system ∧
          (run (EventLoop.step smallDescriptor oneAcceptor) system
              (acceptOne ++ sweepEarly)).map EventLoop.errors =
            some [] ∧
          EachStep (EventLoop.step smallDescriptor oneAcceptor)
            (fun state label =>
              Undisturbed label ∧ SweptInTime 3 state label)
            system (acceptOne ++ sweepEarly) :=
    ⟨_, rfl, by decide +kernel, by decide +kernel⟩
  rcases hrun with ⟨system, hstart, hran, hsteps⟩
  rcases Option.map_eq_some_iff.mp hran with ⟨final, hrun, herrors⟩
  exact ⟨system, final, hstart, hrun, herrors,
    (acceptor_keeps_listening hstart rfl hrun hsteps).2⟩

/-- A minute passes without a connection, the loop sweeps, and then it finds
its flag set. -/
def sweepLonely : List EventLabel :=
  [.clock 62000 62, .loop 0 (.ready []), .loop 0 .none,
    .loop 0 (.order [3]), .loop 0 .none, .loop 0 .none, .loop 0 .none,
    .loop 0 .none, .loop 0 .none, .loop 0 .none, .loop 0 .none,
    .loop 0 .none]

/-- Nobody connects for a minute, and the server stops. -/
theorem acceptor_stops_when_idle :
    ∃ system final,
      EventLoop.start smallDescriptor oneAcceptor 1 1000 1 (fun _ => 1000)
          [3] = some system ∧
        run (EventLoop.step smallDescriptor oneAcceptor) system
            sweepLonely = some final ∧
        (∀ label ∈ sweepLonely, Undisturbed label) ∧
        final.errors = [3] ∧
        final.loops.map (fun loop => (loop.terminal, loop.stage)) =
          [(true, .stopped)] := by
  have hrun :
      ∃ system,
        EventLoop.start smallDescriptor oneAcceptor 1 1000 1
            (fun _ => 1000) [3] = some system ∧
          (run (EventLoop.step smallDescriptor oneAcceptor) system
              sweepLonely).map
              (fun final =>
                (final.errors,
                  final.loops.map fun loop =>
                    (loop.terminal, loop.stage))) =
            some ([3], [(true, .stopped)]) :=
    ⟨_, rfl, by decide +kernel⟩
  rcases hrun with ⟨system, hstart, hran⟩
  rcases Option.map_eq_some_iff.mp hran with ⟨final, hrun, hstopped⟩
  rw [Prod.mk.injEq] at hstopped
  exact ⟨system, final, hstart, hrun, by decide, hstopped.1, hstopped.2⟩

end GreenTurtle.EventLoops
