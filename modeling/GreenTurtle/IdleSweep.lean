import GreenTurtle.AcceptorIdle
import Mathlib.Tactic

/-!
# What the sweep takes for idle

Once a second a loop walks over its handlers and posts those for removal whose
last activity is a minute old.  The age is a difference of two unsigned
readings of the wall clock.  If the clock has been set back since the activity,
the difference wraps, and a handler that has just been active counts as idle.
-/

namespace GreenTurtle.EventLoops

open Connections
open Execution
open FixedWidth
open SocketConfig

/-! ## The comparison -/

/-- The age of the handler is not below zero, or wraps to a small number. -/
def EventHandler.AgeKnown (now : ℕ) (handler : EventHandler) : Prop :=
  handler.lastActiveTime ≤ now ∨
    toUInt64 (now - handler.lastActiveTime) < kSocketRecvTimeOut

instance (now : ℕ) (handler : EventHandler) :
    Decidable (handler.AgeKnown now) :=
  inferInstanceAs (Decidable (_ ∨ _))

/-- The comparison says what it means exactly for such readings. -/
theorem EventHandler.isTimeout_exact_iff (now : ℕ) (handler : EventHandler) :
    (handler.isTimeout now = true →
        handler.lastActiveTime + kSocketRecvTimeOut ≤ now) ↔
      handler.AgeKnown now := by
  unfold EventHandler.isTimeout EventHandler.AgeKnown kSocketRecvTimeOut
    toUInt64
  rw [decide_eq_true_eq]
  omega

/-! ## Where the posted handlers come from -/

/-- The handlers that the current sweep has found idle and not yet posted. -/
def LoopStage.found : LoopStage → List HandlerId
  | .sweeping _ fired => fired
  | .posting fired => fired
  | _ => []

/-- The handler that the sweep looks at next. -/
def LoopStage.candidate : LoopStage → Option HandlerId
  | .sweeping (ptr :: _) _ => some ptr
  | _ => none

def LoopStage.inSweep : LoopStage → Bool
  | .sweeping _ _ => true
  | .posting _ => true
  | _ => false

def EventLoop.stageOf (i : ℕ) (system : EventLoop) : Option LoopStage :=
  (system.loops[i]?).map IoLoop.stage

/-- The next step of the loop finds the handler idle. -/
def EventLoop.FindsIdle
    (i : ℕ) (ptr : HandlerId) (system : EventLoop) : Prop :=
  (system.stageOf i).bind LoopStage.candidate = some ptr ∧
    (system.handlers ptr).isTimeout system.milliSeconds = true

def EventLoop.InSweep (i : ℕ) (system : EventLoop) : Prop :=
  ∃ stage, system.stageOf i = some stage ∧ stage.inSweep = true

/-- The state in which the sweep that is still going on has found the handler
idle. -/
def FoundIdle
    (fd : HandlerId → Descriptor) (kind : HandlerId → HandlerKind)
    (system : EventLoop) (labels : List EventLabel) (i : ℕ)
    (ptr : HandlerId) (found : EventLoop) : Prop :=
  ∃ before after,
    labels = before ++ .loop i .none :: after ∧
      run (EventLoop.step fd kind) system before = some found ∧
      found.FindsIdle i ptr ∧
      ∀ middle rest later, after = middle ++ rest →
        run (EventLoop.step fd kind) system
            (before ++ .loop i .none :: middle) = some later →
          later.InSweep i

section Sweep

variable {fd : HandlerId → Descriptor} {kind : HandlerId → HandlerKind}
variable {system final : EventLoop} {labels : List EventLabel}
variable {i : ℕ} {ptr : HandlerId}

theorem LoopStage.inSweep_of_found
    {stage : LoopStage} (hptr : ptr ∈ stage.found) :
    stage.inSweep = true := by
  cases stage with
  | sweeping walk fired => rfl
  | posting fired => rfl
  | _ => simp [LoopStage.found] at hptr

/-- A step of the thread adds to the list only what it finds idle. -/
theorem IoLoop.next_found
    {loop next : IoLoop} {call : LoopCall} {answer : Answer}
    {handlers : HandlerId → EventHandler} {milliSeconds : ℕ} {seconds : ℤ}
    (hnext :
      loop.next fd kind handlers milliSeconds seconds answer =
        some (next, call))
    (hptr : ptr ∈ next.stage.found) :
    ptr ∈ loop.stage.found ∨
      answer = .none ∧ loop.stage.candidate = some ptr ∧
        (handlers ptr).isTimeout milliSeconds = true := by
  cases IoLoop.next_transition hnext with
  | findIdle other walk fired hstage hidle =>
      rw [hstage]
      rcases List.mem_append.mp hptr with hold | hnew
      · exact .inl hold
      · obtain rfl := List.mem_singleton.mp hnew
        exact .inr ⟨rfl, rfl, hidle⟩
  | passBy other walk fired hstage _ =>
      rw [hstage]
      exact .inl hptr
  | endSweep fired hstage =>
      rw [hstage]
      exact .inl hptr
  | post other fired hstage =>
      rw [hstage]
      exact .inl (List.mem_cons_of_mem other hptr)
  -- every other stage a step leads to has an empty list
  | _ => simp [LoopStage.found] at hptr

/-- A stage after a step is the stage before it, or where a step of the loop's
own thread has led. -/
theorem EventLoop.step_stage
    {next : EventLoop} {label : EventLabel} {stage : LoopStage}
    (hstep : system.step fd kind label = some next)
    (hstage : next.stageOf i = some stage) :
    system.stageOf i = some stage ∨
      ∃ answer loop moved call,
        label = .loop i answer ∧ system.loops[i]? = some loop ∧
          loop.next fd kind system.handlers system.milliSeconds
              system.seconds answer = some (moved, call) ∧
          moved.stage = stage := by
  cases label with
  | clock milliSeconds seconds =>
      simp only [EventLoop.step, Option.some.injEq] at hstep
      subst next
      exact .inl hstage
  | update =>
      obtain ⟨conns, -, rfl⟩ := EventLoop.step_update hstep
      exact .inl hstage
  | terminal =>
      simp only [EventLoop.step, Option.some.injEq] at hstep
      subst next
      left
      simpa [EventLoop.stageOf, EventLoop.terminalLoops,
        Function.comp_def] using hstage
  | loop j answer =>
      obtain ⟨loop, moved, call, hloop, hnext, hperform⟩ :=
        EventLoop.loopStep_eq_some hstep
      obtain ⟨after, hafter, rfl⟩ := Option.map_eq_some_iff.mp hstage
      obtain ⟨old, hold, hkept⟩ :=
        (EventLoop.perform_performed hperform 0).loops.kept i after hafter
      rw [hkept.stage]
      by_cases hji : j = i
      · subst j
        rw [List.getElem?_set_self
          (List.getElem?_eq_some_iff.mp hloop).1] at hold
        obtain rfl := Option.some.inj hold
        exact .inr ⟨answer, loop, _, call, rfl, hloop, hnext, rfl⟩
      · rw [List.getElem?_set_ne hji] at hold
        exact .inl (Option.map_eq_some_iff.mpr ⟨old, hold, rfl⟩)

theorem FoundIdle.extend
    {found state next : EventLoop} {label : EventLabel}
    (hfound : FoundIdle fd kind system labels i ptr found)
    (hrun : run (EventLoop.step fd kind) system labels = some state)
    (hstep : state.step fd kind label = some next)
    (hsweep : next.InSweep i) :
    FoundIdle fd kind system (labels ++ [label]) i ptr found := by
  obtain ⟨before, after, rfl, hbefore, hidle, hgoing⟩ := hfound
  refine ⟨before, after ++ [label], by simp, hbefore, hidle, ?_⟩
  intro middle rest later hsplit hlater
  rcases List.eq_nil_or_concat rest with rfl | ⟨rest, last, rfl⟩
  · rw [List.append_nil] at hsplit
    subst middle
    have hwhole :
        run (EventLoop.step fd kind) system
            (before ++ .loop i .none :: (after ++ [label])) = some next := by
      rw [← List.cons_append, ← List.append_assoc, run_append _ hrun]
      simp only [run, hstep]
    rw [hwhole] at hlater
    obtain rfl := Option.some.inj hlater
    exact hsweep
  · rw [List.concat_eq_append, ← List.append_assoc] at hsplit
    exact hgoing middle rest later (List.append_inj_left' hsplit rfl) hlater

/-- What a sweep has marked, it has found idle. -/
theorem found_of_run
    (hstart :
      ∀ j stage, system.stageOf j = some stage → stage.found = [])
    (hrun : run (EventLoop.step fd kind) system labels = some final)
    {stage : LoopStage} (hstage : final.stageOf i = some stage)
    (hptr : ptr ∈ stage.found) :
    ∃ found, FoundIdle fd kind system labels i ptr found := by
  refine
    run_history (EventLoop.step fd kind)
      (fun past state =>
        ∀ (j : ℕ) stage, state.stageOf j = some stage →
          ∀ ptr ∈ stage.found,
            ∃ found, FoundIdle fd kind system past j ptr found)
      ?_ ?_ hrun i stage hstage ptr hptr
  · intro past state label next hpast hknown hstep j stage hstage ptr hptr
    have hsweep : next.InSweep j :=
      ⟨stage, hstage, LoopStage.inSweep_of_found hptr⟩
    rcases EventLoop.step_stage hstep hstage with
      hsame | ⟨answer, loop, moved, call, rfl, hloop, hnext, rfl⟩
    · obtain ⟨found, hfound⟩ := hknown j stage hsame ptr hptr
      exact ⟨found, hfound.extend hpast hstep hsweep⟩
    · have hold : state.stageOf j = some loop.stage := by
        rw [EventLoop.stageOf, hloop, Option.map_some]
      rcases IoLoop.next_found hnext hptr with
        hmarked | ⟨rfl, hcandidate, hidle⟩
      · obtain ⟨found, hfound⟩ := hknown j loop.stage hold ptr hmarked
        exact ⟨found, hfound.extend hpast hstep hsweep⟩
      · -- this step has found the handler idle
        refine ⟨state, past, [], rfl, hpast, ⟨?_, hidle⟩, ?_⟩
        · rw [hold, Option.bind_some, hcandidate]
        · intro middle rest later hsplit hlater
          obtain ⟨rfl, rfl⟩ := List.append_eq_nil_iff.mp hsplit.symm
          rw [run_append _ hpast] at hlater
          simp only [run, hstep, Option.some.injEq] at hlater
          subst later
          exact hsweep
  · intro j stage hstage ptr hptr
    rw [hstart j stage hstage] at hptr
    simp at hptr

/-! ## The result -/

/-- A sweep looks at a handler only while its age is known. -/
def SweptForward (system : EventLoop) : EventLabel → Prop
  | .loop i _ =>
      ∀ ptr ∈ (system.stageOf i).bind LoopStage.candidate,
        (system.handlers ptr).AgeKnown system.milliSeconds
  | _ => True

/-- As long as every sweep comes at a time that is not before the last activity
of the handlers it looks at, it posts only handlers that have been inactive for
the whole timeout. -/
theorem idle_sweep_exact
    {threadCount milliSeconds : ℕ} {seconds : ℤ}
    {constructedAt : HandlerId → ℕ} {registered fired : List HandlerId}
    (hstart :
      EventLoop.start fd kind threadCount milliSeconds seconds
        constructedAt registered = some system)
    (hrun : run (EventLoop.step fd kind) system labels = some final)
    (hforward : EachStep (EventLoop.step fd kind) SweptForward system labels)
    (hposting : final.stageOf i = some (.posting (ptr :: fired))) :
    ∃ found, FoundIdle fd kind system labels i ptr found ∧
      (found.handlers ptr).lastActiveTime + kSocketRecvTimeOut ≤
        found.milliSeconds := by
  have hfresh := EventLoop.start_fresh hstart
  have hidle :
      ∀ j stage, system.stageOf j = some stage → stage.found = [] := by
    intro j stage hstage
    obtain ⟨loop, hloop, rfl⟩ := Option.map_eq_some_iff.mp hstage
    rw [(hfresh.idle loop (List.mem_of_getElem? hloop)).1]
    rfl
  obtain ⟨found, hfound⟩ :=
    found_of_run hidle hrun hposting List.mem_cons_self
  refine ⟨found, hfound, ?_⟩
  obtain ⟨before, after, rfl, hbefore, ⟨hcandidate, htimeout⟩, -⟩ := hfound
  have hstep := (hforward.of_append _ hbefore).2.1
  have hknown := hstep ptr hcandidate
  exact (EventHandler.isTimeout_exact_iff _ _).mpr hknown htimeout

end Sweep

instance (system : EventLoop) (label : EventLabel) :
    Decidable (SweptForward system label) :=
  match label with
  | .loop i _ =>
      inferInstanceAs
        (Decidable
          (∀ ptr ∈ (system.stageOf i).bind LoopStage.candidate,
            (system.handlers ptr).AgeKnown system.milliSeconds))
  | .clock _ _ | .update | .terminal => instDecidableTrue

/-- A minute after its last connection an acceptor is found idle. -/
def sweepLate : List EventLabel :=
  [.clock 62000 62, .loop 0 (.ready []), .loop 0 .none,
    .loop 0 (.order [3]), .loop 0 .none, .loop 0 .none]

theorem idle_sweep_exact_minute :
    ∃ system final,
      EventLoop.start smallDescriptor oneAcceptor 1 1000 1 (fun _ => 1000)
          [3] = some system ∧
        run (EventLoop.step smallDescriptor oneAcceptor) system sweepLate =
          some final ∧
        EachStep (EventLoop.step smallDescriptor oneAcceptor) SweptForward
          system sweepLate ∧
        final.stageOf 0 = some (.posting [3]) ∧
        ∃ found,
          FoundIdle smallDescriptor oneAcceptor system sweepLate 0 3
              found ∧
            (found.handlers 3).lastActiveTime + kSocketRecvTimeOut ≤
              found.milliSeconds := by
  have hrun :
      ∃ system,
        EventLoop.start smallDescriptor oneAcceptor 1 1000 1
            (fun _ => 1000) [3] = some system ∧
          ((run (EventLoop.step smallDescriptor oneAcceptor) system
              sweepLate).bind (EventLoop.stageOf 0) =
            some (.posting [3])) ∧
          EachStep (EventLoop.step smallDescriptor oneAcceptor) SweptForward
            system sweepLate :=
    ⟨_, rfl, by decide +kernel, by decide +kernel⟩
  obtain ⟨system, hstart, hran, hforward⟩ := hrun
  obtain ⟨final, hrun, hposting⟩ := Option.bind_eq_some_iff.mp hran
  exact ⟨system, final, hstart, hrun, hforward, hposting,
    idle_sweep_exact hstart hrun hforward hposting⟩

/-- The acceptor reads at second 100, the clock is set back by one second, and
the loop sweeps. -/
def sweepBackwards : List EventLabel :=
  [.clock 100000 100,
    .loop 0 (.ready [(smallDescriptor 3, kEventReadable)]), .loop 0 .none,
    .loop 0 (.accept (-1) .eagain 0), .loop 0 .none, .clock 99000 99,
    .loop 0 .none, .loop 0 (.order [3]), .loop 0 .none, .loop 0 .none]

/-- It is posted for removal although it was active at second 100 of a clock
that says 99. -/
theorem idle_sweep_drops_active :
    ∃ system final,
      EventLoop.start smallDescriptor oneAcceptor 1 50000 50
          (fun _ => 50000) [3] = some system ∧
        run (EventLoop.step smallDescriptor oneAcceptor) system
            sweepBackwards = some final ∧
        final.stageOf 0 = some (.posting [3]) ∧
        final.milliSeconds = 99000 ∧
        (final.handlers 3).lastActiveTime = 100000 :=
  ⟨_, _, rfl, rfl, by decide +kernel, by decide +kernel, by decide +kernel⟩

end GreenTurtle.EventLoops
