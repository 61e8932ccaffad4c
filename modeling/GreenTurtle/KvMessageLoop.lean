import GreenTurtle.Execution
import GreenTurtle.Tally
import Mathlib.Data.List.ReduceOption
import Mathlib.Tactic

/-!
# The message loops of the key-value server

`kv/message_loop.h` and `kv/message_loop.cc`, with `blocking_queue.h`.  Requests
are pushed to the loop that their affinity selects; each loop swaps the queue
out and dispatches the requests one by one.  `Init` fills the pool with null
pointers, and `Loop` goes on as long as `terminal_` is set, which is not so
before `terminal` is called.
-/

namespace GreenTurtle.Kv

open Execution

/-! ## The queue -/

namespace BlockingQueue

variable {α : Type}

def push (queue : List α) (v : α) : List α := queue ++ [v]

/-- The queue and the container after `Pop`.  The old contents of the container
are swapped into the queue and cleared there. -/
def pop (queue v : List α) : List α × List α :=
  if queue ≠ [] then ([], queue) else (queue, v)

end BlockingQueue

/-! ## A loop -/

/-- How far `Loop` has come: the test of the condition, `Pop`, an element of the
range, or behind the end. -/
inductive LoopStage where
  | test
  | pop
  | dispatch (index : ℕ)
  | returned
deriving DecidableEq

variable {ρ : Type}

/-- A request that was reset is `none`.  The dispatched ones are remembered. -/
structure MessageLoop (ρ : Type) where
  queue : List (Option ρ)
  processQueue : List (Option ρ)
  terminal : Bool
  stage : LoopStage
  dispatched : List ρ

namespace MessageLoop

def new : MessageLoop ρ where
  queue := []
  processQueue := []
  terminal := false
  stage := .test
  dispatched := []

def pushMessage (request : ρ) (loop : MessageLoop ρ) : MessageLoop ρ :=
  { loop with queue := BlockingQueue.push loop.queue (some request) }

def setTerminal (loop : MessageLoop ρ) : MessageLoop ρ :=
  { loop with terminal := true }

/-- The next step of the thread in `Loop`.  There is none after the end, and
none for a request that was reset. -/
def step (loop : MessageLoop ρ) : Option (MessageLoop ρ) :=
  match loop.stage with
  | .test =>
      some { loop with stage := if loop.terminal then .pop else .returned }
  | .pop =>
      let popped := BlockingQueue.pop loop.queue loop.processQueue
      some
        { loop with
          queue := popped.1
          processQueue := popped.2
          stage := .dispatch 0 }
  | .dispatch index =>
      match loop.processQueue[index]? with
      | none => some { loop with processQueue := [], stage := .test }
      | some none => none
      | some (some request) =>
          some
            { loop with
              processQueue := loop.processQueue.set index none
              dispatched := loop.dispatched ++ [request]
              stage := .dispatch (index + 1) }
  | .returned => none

end MessageLoop

/-! ## The pool -/

/-- The loops, whether a null pointer was followed, and all pushes so far with
their affinities. -/
structure MessageLoopPool (ρ : Type) where
  loops : List (Option (MessageLoop ρ))
  crashed : Bool
  pushes : List (ℕ × ρ)

inductive PoolLabel (ρ : Type) where
  | push (affinity : ℕ) (request : ρ)
  | loop (index : ℕ)
  | terminal (index : ℕ)

namespace MessageLoopPool

/-- `Init` of a pool without loops; the assertion fails when there is nothing
to do. -/
def init (loopCount : ℤ) : Option (MessageLoopPool ρ) :=
  if 0 < loopCount then
    some ⟨List.replicate loopCount.toNat none, false, []⟩
  else none

/-- A call on the object behind a pointer of the pool. -/
def onLoop
    (index : ℕ) (act : MessageLoop ρ → Option (MessageLoop ρ))
    (pool : MessageLoopPool ρ) : Option (MessageLoopPool ρ) :=
  match pool.loops[index]? with
  | none => none
  | some none => some { pool with crashed := true }
  | some (some loop) =>
      (act loop).map fun next =>
        { pool with loops := pool.loops.set index (some next) }

/-- `GetMessageLoop`. -/
def select (affinity : ℕ) (pool : MessageLoopPool ρ) : ℕ :=
  affinity % pool.loops.length

/-- Threads push, run loops and call `terminal`.  The remainder modulo zero
crashes like a null pointer. -/
def step (pool : MessageLoopPool ρ) :
    PoolLabel ρ → Option (MessageLoopPool ρ)
  | label =>
      if pool.crashed then none
      else
        match label with
        | .push affinity request =>
            if pool.loops = [] then some { pool with crashed := true }
            else
              onLoop (pool.select affinity)
                (fun loop => some (loop.pushMessage request))
                { pool with
                  pushes := pool.pushes ++ [(affinity, request)] }
        | .loop index => onLoop index MessageLoop.step pool
        | .terminal index =>
            onLoop index (fun loop => some loop.setTerminal) pool

end MessageLoopPool

/-! ## What must hold -/

/-- The requests pushed to a loop, in the order of the pushes. -/
def MessageLoopPool.routedTo (pool : MessageLoopPool ρ) (index : ℕ) :
    List ρ :=
  (pool.pushes.filter fun push => pool.select push.1 == index).map Prod.snd

/-- Nobody followed a null pointer, every request was pushed to a loop, and a
loop goes on and has each of its requests in one place: dispatched, being
processed or queued, in this order. -/
structure NothingLost (pool : MessageLoopPool ρ) : Prop where
  alive : pool.crashed = false
  routed :
    ∀ push ∈ pool.pushes, ∃ loop,
      pool.loops[pool.select push.1]? = some (some loop)
  accounted :
    ∀ (index : ℕ) (loop : MessageLoop ρ),
      pool.loops[index]? = some (some loop) →
        pool.routedTo index =
          loop.dispatched ++ loop.processQueue.reduceOption ++
            loop.queue.reduceOption
  running :
    ∀ (index : ℕ) (loop : MessageLoop ρ),
      pool.loops[index]? = some (some loop) → loop.stage ≠ .returned

/-- The pointer that is followed is not null, and `Loop` finds `terminal_` set
when it tests it. -/
def StepSafe (pool : MessageLoopPool ρ) : PoolLabel ρ → Prop
  | .push affinity _ =>
      ∃ loop, pool.loops[pool.select affinity]? = some (some loop)
  | .loop index =>
      ∃ loop, pool.loops[index]? = some (some loop) ∧
        (loop.stage = .test → loop.terminal = true)
  | .terminal index => ∃ loop, pool.loops[index]? = some (some loop)

/-- The entries of a pool at the start, null or newly constructed. -/
def poolOf (constructed : List Bool) : MessageLoopPool ρ where
  loops :=
    constructed.map fun present =>
      if present then some MessageLoop.new else none
  crashed := false
  pushes := []

theorem init_eq_poolOf {loopCount : ℤ} (hpositive : 0 < loopCount) :
    MessageLoopPool.init loopCount =
      some (poolOf (List.replicate loopCount.toNat false) :
        MessageLoopPool ρ) := by
  simp [MessageLoopPool.init, poolOf, hpositive]

/-! ## One loop -/

/-- The number of requests of the current batch that are done. -/
def LoopStage.passed : LoopStage → ℕ
  | .dispatch index => index
  | _ => 0

/-- The queues of a loop with `rest` still to be dispatched from the current
batch and `waiting` behind it.  Between two batches there is no rest. -/
structure MessageLoop.Holds
    (loop : MessageLoop ρ) (rest waiting : List ρ) : Prop where
  queue_eq : loop.queue = waiting.map some
  processQueue_eq :
    loop.processQueue =
      List.replicate loop.stage.passed none ++ rest.map some
  between : (∀ index, loop.stage ≠ .dispatch index) → rest = []

/-- The requests routed to a loop are the dispatched ones and the ones it
holds. -/
def MessageLoop.Accounted (loop : MessageLoop ρ) (routed : List ρ) : Prop :=
  ∃ rest waiting, loop.Holds rest waiting ∧
    routed = loop.dispatched ++ rest ++ waiting

namespace MessageLoop

theorem reduceOption_map_some (requests : List ρ) :
    (requests.map some).reduceOption = requests := by
  simp [List.reduceOption]

theorem Accounted.routed_eq
    {loop : MessageLoop ρ} {routed : List ρ}
    (haccounted : loop.Accounted routed) :
    routed =
      loop.dispatched ++ loop.processQueue.reduceOption ++
        loop.queue.reduceOption := by
  obtain ⟨rest, waiting, hholds, hrouted⟩ := haccounted
  rw [hholds.queue_eq, hholds.processQueue_eq, List.reduceOption_append,
    List.reduceOption_replicate_none, reduceOption_map_some,
    reduceOption_map_some, List.nil_append]
  exact hrouted

theorem accounted_new : (new : MessageLoop ρ).Accounted [] :=
  ⟨[], [], ⟨rfl, rfl, fun _ => rfl⟩, rfl⟩

theorem Accounted.pushMessage
    {loop : MessageLoop ρ} {routed : List ρ}
    (haccounted : loop.Accounted routed) (request : ρ) :
    (loop.pushMessage request).Accounted (routed ++ [request]) := by
  obtain ⟨rest, waiting, hholds, hrouted⟩ := haccounted
  refine ⟨rest, waiting ++ [request], ⟨?_, ?_, ?_⟩, ?_⟩
  · simp [MessageLoop.pushMessage, BlockingQueue.push, hholds.queue_eq]
  · exact hholds.processQueue_eq
  · exact hholds.between
  · rw [hrouted, List.append_assoc]
    rfl

theorem Accounted.setTerminal
    {loop : MessageLoop ρ} {routed : List ρ}
    (haccounted : loop.Accounted routed) :
    loop.setTerminal.Accounted routed := by
  obtain ⟨rest, waiting, hholds, hrouted⟩ := haccounted
  exact ⟨rest, waiting,
    ⟨hholds.queue_eq, hholds.processQueue_eq, hholds.between⟩, hrouted⟩

/-- `Pop` takes the whole queue, and the container it fills is empty. -/
theorem Holds.pop
    {loop : MessageLoop ρ} {rest waiting : List ρ}
    (hholds : loop.Holds rest waiting) (hstage : loop.stage = .pop) :
    rest = [] ∧
      BlockingQueue.pop loop.queue loop.processQueue =
        ([], waiting.map some) := by
  have hrest : rest = [] := hholds.between (by simp [hstage])
  subst hrest
  refine ⟨rfl, ?_⟩
  rw [hholds.queue_eq, hholds.processQueue_eq, hstage]
  cases waiting with
  | nil => rfl
  | cons request waiting => simp [BlockingQueue.pop]

theorem Accounted.step
    {loop next : MessageLoop ρ} {routed : List ρ}
    (haccounted : loop.Accounted routed) (hstep : loop.step = some next) :
    next.Accounted routed := by
  obtain ⟨rest, waiting, hholds, hrouted⟩ := haccounted
  cases hstage : loop.stage with
  | test =>
      have hrest : rest = [] := hholds.between (by simp [hstage])
      subst hrest
      simp only [MessageLoop.step, hstage, Option.some.injEq] at hstep
      subst hstep
      have hempty := hholds.processQueue_eq
      rw [hstage] at hempty
      refine ⟨[], waiting, ⟨hholds.queue_eq, ?_, fun _ => rfl⟩, hrouted⟩
      dsimp only
      rw [hempty]
      cases loop.terminal <;> rfl
  | pop =>
      obtain ⟨rfl, hpopped⟩ := hholds.pop hstage
      simp only [MessageLoop.step, hstage, hpopped, Option.some.injEq]
        at hstep
      subst hstep
      refine ⟨waiting, [], ⟨rfl, rfl, ?_⟩, ?_⟩
      · intro hbetween
        exact absurd rfl (hbetween 0)
      · simpa using hrouted
  | dispatch index =>
      have hbatch := hholds.processQueue_eq
      rw [hstage] at hbatch
      cases rest with
      | nil =>
          have hend : loop.processQueue[index]? = none := by
            rw [hbatch]
            simp [LoopStage.passed]
          simp only [MessageLoop.step, hstage, hend, Option.some.injEq]
            at hstep
          subst hstep
          exact ⟨[], waiting, ⟨hholds.queue_eq, rfl, fun _ => rfl⟩,
            hrouted⟩
      | cons request rest =>
          have hnext : loop.processQueue[index]? = some (some request) := by
            rw [hbatch]
            simp [LoopStage.passed]
          simp only [MessageLoop.step, hstage, hnext, Option.some.injEq]
            at hstep
          subst hstep
          refine ⟨rest, waiting, ⟨hholds.queue_eq, ?_, ?_⟩, ?_⟩
          · dsimp only
            rw [hbatch]
            simp [LoopStage.passed, List.replicate_succ']
          · intro hbetween
            exact absurd rfl (hbetween (index + 1))
          · simpa using hrouted
  | returned => simp [MessageLoop.step, hstage] at hstep

/-- Only the test of `terminal_` ends a loop. -/
theorem step_stage_ne_returned
    {loop next : MessageLoop ρ} (hstep : loop.step = some next)
    (htest : loop.stage = .test → loop.terminal = true) :
    next.stage ≠ .returned := by
  cases hstage : loop.stage with
  | test =>
      simp only [MessageLoop.step, hstage, htest hstage, if_true,
        Option.some.injEq] at hstep
      subst hstep
      simp
  | pop =>
      simp only [MessageLoop.step, hstage, Option.some.injEq] at hstep
      subst hstep
      simp
  | dispatch index =>
      simp only [MessageLoop.step, hstage] at hstep
      split at hstep
      next =>
        obtain rfl := Option.some.inj hstep
        simp
      next => simp at hstep
      next =>
        obtain rfl := Option.some.inj hstep
        simp
  | returned => simp [MessageLoop.step, hstage] at hstep

/-- A loop that has not returned can go on: it never meets a request that was
reset. -/
theorem Accounted.step_isSome
    {loop : MessageLoop ρ} {routed : List ρ}
    (haccounted : loop.Accounted routed) (hrunning : loop.stage ≠ .returned) :
    loop.step.isSome := by
  obtain ⟨rest, waiting, hholds, -⟩ := haccounted
  cases hstage : loop.stage with
  | test => simp [MessageLoop.step, hstage]
  | pop => simp [MessageLoop.step, hstage]
  | dispatch index =>
      have hbatch := hholds.processQueue_eq
      rw [hstage] at hbatch
      cases rest <;>
        simp [MessageLoop.step, hstage, hbatch, LoopStage.passed]
  | returned => exact absurd hstage hrunning

end MessageLoop

/-! ## Steps of the pool -/

namespace PoolLabel

/-- The entry of the pool that a step follows. -/
def target (pool : MessageLoopPool ρ) : PoolLabel ρ → ℕ
  | .push affinity _ => pool.select affinity
  | .loop index => index
  | .terminal index => index

def act : PoolLabel ρ → MessageLoop ρ → Option (MessageLoop ρ)
  | .push _ request => fun state => some (state.pushMessage request)
  | .loop _ => MessageLoop.step
  | .terminal _ => fun state => some state.setTerminal

def record (pool : MessageLoopPool ρ) : PoolLabel ρ → List (ℕ × ρ)
  | .push affinity request => pool.pushes ++ [(affinity, request)]
  | _ => pool.pushes

end PoolLabel

theorem MessageLoopPool.onLoop_cases
    {index : ℕ} {act : MessageLoop ρ → Option (MessageLoop ρ)}
    {pool next : MessageLoopPool ρ}
    (hnext : pool.onLoop index act = some next) :
    (next.crashed = true ∧
        ∀ loop, pool.loops[index]? ≠ some (some loop)) ∨
      ∃ loop after, pool.loops[index]? = some (some loop) ∧
        act loop = some after ∧
        next = { pool with loops := pool.loops.set index (some after) } := by
  unfold MessageLoopPool.onLoop at hnext
  split at hnext
  next => simp at hnext
  next hnull =>
    obtain rfl := Option.some.inj hnext
    left
    simp [hnull]
  next loop hloop =>
    obtain ⟨after, hafter, rfl⟩ := Option.map_eq_some_iff.mp hnext
    exact .inr ⟨loop, after, hloop, hafter, rfl⟩

theorem MessageLoopPool.step_eq
    {pool : MessageLoopPool ρ} (hcrashed : pool.crashed = false)
    (hloops : pool.loops ≠ []) (label : PoolLabel ρ) :
    pool.step label =
      onLoop (label.target pool) label.act
        { pool with pushes := label.record pool } := by
  cases label with
  | push affinity request =>
      simp [MessageLoopPool.step, hcrashed, hloops, PoolLabel.target,
        PoolLabel.act, PoolLabel.record]
  | loop index => exact if_neg (by simp [hcrashed])
  | terminal index => exact if_neg (by simp [hcrashed])

/-- A step follows a null pointer, or it acts on the loop behind it. -/
theorem MessageLoopPool.step_cases
    {pool next : MessageLoopPool ρ} {label : PoolLabel ρ}
    (hstep : pool.step label = some next) :
    pool.crashed = false ∧
      ((next.crashed = true ∧
          ∀ loop, pool.loops[label.target pool]? ≠ some (some loop)) ∨
        ∃ loop after, pool.loops[label.target pool]? = some (some loop) ∧
          label.act loop = some after ∧
          next =
            ⟨pool.loops.set (label.target pool) (some after), pool.crashed,
              label.record pool⟩) := by
  cases hcrashed : pool.crashed with
  | true => simp [MessageLoopPool.step, hcrashed] at hstep
  | false =>
      refine ⟨rfl, ?_⟩
      by_cases hloops : pool.loops = []
      · left
        cases label with
        | push affinity request =>
            simp only [MessageLoopPool.step, hcrashed, hloops,
              Bool.false_eq_true, if_false, if_true, Option.some.injEq]
              at hstep
            subst hstep
            simp [hloops]
        | loop index =>
            simp [MessageLoopPool.step, hcrashed, MessageLoopPool.onLoop,
              hloops] at hstep
        | terminal index =>
            simp [MessageLoopPool.step, hcrashed, MessageLoopPool.onLoop,
              hloops] at hstep
      · rw [MessageLoopPool.step_eq hcrashed hloops] at hstep
        cases MessageLoopPool.onLoop_cases hstep with
        | inl hnull => exact .inl hnull
        | inr hacted =>
            obtain ⟨loop, after, hloop, hafter, rfl⟩ := hacted
            exact .inr ⟨loop, after, hloop, hafter,
              by rw [← hcrashed]⟩

/-! ## Steps that keep every request -/

/-- The invariant behind `NothingLost`. -/
structure Sound (pool : MessageLoopPool ρ) : Prop where
  alive : pool.crashed = false
  routed :
    ∀ push ∈ pool.pushes, ∃ loop,
      pool.loops[pool.select push.1]? = some (some loop)
  accounted :
    ∀ (index : ℕ) (loop : MessageLoop ρ),
      pool.loops[index]? = some (some loop) →
        loop.Accounted (pool.routedTo index)
  running :
    ∀ (index : ℕ) (loop : MessageLoop ρ),
      pool.loops[index]? = some (some loop) → loop.stage ≠ .returned

theorem Sound.nothingLost
    {pool : MessageLoopPool ρ} (hsound : Sound pool) :
    NothingLost pool where
  alive := hsound.alive
  routed := hsound.routed
  accounted index loop hloop := (hsound.accounted index loop hloop).routed_eq
  running := hsound.running

theorem sound_poolOf (constructed : List Bool) :
    Sound (poolOf constructed : MessageLoopPool ρ) := by
  have hnew :
      ∀ (index : ℕ) (loop : MessageLoop ρ),
        (poolOf constructed).loops[index]? = some (some loop) →
          loop = MessageLoop.new := by
    intro index loop hloop
    simp only [poolOf, List.getElem?_map, Option.map_eq_some_iff] at hloop
    obtain ⟨present, -, hentry⟩ := hloop
    cases present with
    | true => exact (Option.some.inj hentry).symm
    | false => simp at hentry
  constructor
  · rfl
  · simp [poolOf]
  · intro index loop hloop
    rw [hnew index loop hloop]
    exact MessageLoop.accounted_new
  · intro index loop hloop
    rw [hnew index loop hloop]
    simp [MessageLoop.new]

/-- A push is routed to its loop and to no other one. -/
theorem routedTo_record
    (pool : MessageLoopPool ρ) (label : PoolLabel ρ)
    (loops : List (Option (MessageLoop ρ)))
    (hlength : loops.length = pool.loops.length) (index : ℕ) :
    MessageLoopPool.routedTo ⟨loops, pool.crashed, label.record pool⟩
        index =
      match label with
      | .push affinity request =>
          if pool.select affinity = index then
            pool.routedTo index ++ [request]
          else pool.routedTo index
      | _ => pool.routedTo index := by
  cases label with
  | push affinity request =>
      by_cases hindex : pool.select affinity = index <;>
        simp_all [MessageLoopPool.routedTo, PoolLabel.record,
          MessageLoopPool.select]
  | loop index => simp [MessageLoopPool.routedTo, PoolLabel.record,
      MessageLoopPool.select, hlength]
  | terminal index => simp [MessageLoopPool.routedTo, PoolLabel.record,
      MessageLoopPool.select, hlength]

theorem StepSafe.target
    {pool : MessageLoopPool ρ} {label : PoolLabel ρ}
    (hsafe : StepSafe pool label) :
    ∃ loop, pool.loops[label.target pool]? = some (some loop) ∧
      ∀ after, loop.stage ≠ .returned → label.act loop = some after →
        after.stage ≠ .returned := by
  cases label with
  | push affinity request =>
      obtain ⟨loop, hloop⟩ := hsafe
      refine ⟨loop, hloop, ?_⟩
      intro after hrunning hafter
      obtain rfl := Option.some.inj hafter
      exact hrunning
  | loop index =>
      obtain ⟨loop, hloop, htest⟩ := hsafe
      refine ⟨loop, hloop, ?_⟩
      intro after _ hafter
      exact MessageLoop.step_stage_ne_returned hafter htest
  | terminal index =>
      obtain ⟨loop, hloop⟩ := hsafe
      refine ⟨loop, hloop, ?_⟩
      intro after hrunning hafter
      obtain rfl := Option.some.inj hafter
      exact hrunning

/-- The loop that a step acts on keeps account of its requests, and a pushed
request becomes the last of them. -/
theorem accounted_act
    {pool : MessageLoopPool ρ} {label : PoolLabel ρ}
    {loop after : MessageLoop ρ}
    {loops : List (Option (MessageLoop ρ))}
    (hlength : loops.length = pool.loops.length)
    (haccounted : loop.Accounted (pool.routedTo (label.target pool)))
    (hafter : label.act loop = some after) :
    after.Accounted
      (MessageLoopPool.routedTo ⟨loops, pool.crashed, label.record pool⟩
        (label.target pool)) := by
  rw [routedTo_record pool label loops hlength]
  cases label with
  | push affinity request =>
      obtain rfl := Option.some.inj hafter
      simp only [PoolLabel.target, if_true]
      exact haccounted.pushMessage request
  | loop index => exact haccounted.step hafter
  | terminal index =>
      obtain rfl := Option.some.inj hafter
      exact haccounted.setTerminal

theorem routedTo_record_of_ne
    {pool : MessageLoopPool ρ} {label : PoolLabel ρ}
    {loops : List (Option (MessageLoop ρ))}
    (hlength : loops.length = pool.loops.length) {index : ℕ}
    (hne : label.target pool ≠ index) :
    MessageLoopPool.routedTo ⟨loops, pool.crashed, label.record pool⟩
        index =
      pool.routedTo index := by
  rw [routedTo_record pool label loops hlength]
  cases label with
  | push affinity request => exact if_neg hne
  | loop _ => rfl
  | terminal _ => rfl

theorem mem_pushes_of_mem_record
    {pool : MessageLoopPool ρ} {label : PoolLabel ρ} {push : ℕ × ρ}
    (hpush : push ∈ label.record pool)
    (hne : label.target pool ≠ pool.select push.1) :
    push ∈ pool.pushes := by
  cases label with
  | push affinity request =>
      rw [PoolLabel.record, List.mem_append, List.mem_singleton] at hpush
      cases hpush with
      | inl hbefore => exact hbefore
      | inr hnew => exact absurd rfl (hnew ▸ hne)
  | loop index => exact hpush
  | terminal index => exact hpush

theorem Sound.step
    {pool next : MessageLoopPool ρ} {label : PoolLabel ρ}
    (hsound : Sound pool) (hsafe : StepSafe pool label)
    (hstep : pool.step label = some next) :
    Sound next := by
  obtain ⟨found, hfound, hrunning⟩ := hsafe.target
  cases (MessageLoopPool.step_cases hstep).2 with
  | inl hnull => exact absurd hfound (hnull.2 found)
  | inr hacted =>
      obtain ⟨loop, after, hloop, hafter, rfl⟩ := hacted
      have hsame : found = loop := by
        rw [hfound] at hloop
        exact Option.some.inj (Option.some.inj hloop)
      subst hsame
      have hbound : label.target pool < pool.loops.length :=
        (List.getElem?_eq_some_iff.mp hloop).1
      have hlength :
          (pool.loops.set (label.target pool) (some after)).length =
            pool.loops.length := List.length_set
      have hentry :
          ∀ (index : ℕ) (other : MessageLoop ρ),
            (pool.loops.set (label.target pool) (some after))[index]? =
                some (some other) →
              (index = label.target pool ∧ other = after) ∨
                (label.target pool ≠ index ∧
                  pool.loops[index]? = some (some other)) := by
        intro index other hother
        cases Tally.getElem?_set_eq_some hother with
        | inl hself => exact .inl ⟨hself.1.symm, Option.some.inj hself.2⟩
        | inr helse => exact .inr helse
      constructor
      · exact hsound.alive
      · intro push hpush
        have hselect :
            MessageLoopPool.select push.1
                ⟨pool.loops.set (label.target pool) (some after),
                  pool.crashed, label.record pool⟩ =
              pool.select push.1 := by
          simp only [MessageLoopPool.select, hlength]
        rw [hselect]
        by_cases hindex : label.target pool = pool.select push.1
        · rw [← hindex]
          exact ⟨after, List.getElem?_set_self hbound⟩
        · rw [List.getElem?_set_ne hindex]
          exact hsound.routed push
            (mem_pushes_of_mem_record hpush hindex)
      · intro index other hother
        cases hentry index other hother with
        | inl hself =>
            obtain ⟨rfl, rfl⟩ := hself
            exact accounted_act hlength
              (hsound.accounted _ found hloop) hafter
        | inr helse =>
            rw [routedTo_record_of_ne hlength helse.1]
            exact hsound.accounted index other helse.2
      · intro index other hother
        cases hentry index other hother with
        | inl hself =>
            rw [hself.2]
            exact hrunning after (hsound.running _ found hloop) hafter
        | inr helse => exact hsound.running index other helse.2

/-- Safe steps are never stuck: a running loop does not meet a request that was
reset. -/
theorem Sound.step_possible
    {pool : MessageLoopPool ρ} {label : PoolLabel ρ}
    (hsound : Sound pool) (hsafe : StepSafe pool label) :
    ∃ next, pool.step label = some next ∧ Sound next := by
  obtain ⟨loop, hloop, -⟩ := hsafe.target
  have hact : ∃ after, label.act loop = some after := by
    cases label with
    | push affinity request => exact ⟨_, rfl⟩
    | loop index =>
        exact Option.isSome_iff_exists.mp
          ((hsound.accounted _ loop hloop).step_isSome
            (hsound.running _ loop hloop))
    | terminal index => exact ⟨_, rfl⟩
  obtain ⟨after, hafter⟩ := hact
  have hloops : pool.loops ≠ [] := by
    intro hempty
    simp [hempty] at hloop
  have hstep := MessageLoopPool.step_eq hsound.alive hloops label
  simp only [MessageLoopPool.onLoop, hloop, hafter, Option.map_some] at hstep
  exact ⟨_, hstep, hsound.step hsafe hstep⟩

/-- So every sequence of safe steps is a run. -/
theorem nothingLost_of_safe_steps
    (constructed : List Bool) (labels : List (PoolLabel ρ))
    (hsafe :
      EachStep MessageLoopPool.step StepSafe (poolOf constructed) labels) :
    ∃ final,
      run MessageLoopPool.step (poolOf constructed) labels = some final ∧
        NothingLost final := by
  obtain ⟨final, hrun, hsound⟩ :=
    run_total MessageLoopPool.step Sound StepSafe
      (fun pool label hsound hlabel => hsound.step_possible hlabel)
      (sound_poolOf constructed) hsafe
  exact ⟨final, hrun, hsound.nothingLost⟩

/-! ## Steps that lose requests -/

/-- Somebody followed a null pointer, or a loop has returned. -/
def Spoilt (pool : MessageLoopPool ρ) : Prop :=
  pool.crashed = true ∨
    ∃ (index : ℕ) (loop : MessageLoop ρ),
      pool.loops[index]? = some (some loop) ∧ loop.stage = .returned

theorem NothingLost.not_spoilt
    {pool : MessageLoopPool ρ} (hkept : NothingLost pool) :
    ¬ Spoilt pool := by
  intro hspoilt
  cases hspoilt with
  | inl hcrashed => simp [hkept.alive] at hcrashed
  | inr hreturned =>
      obtain ⟨index, loop, hloop, hstage⟩ := hreturned
      exact hkept.running index loop hloop hstage

/-- A loop that has returned is not entered again. -/
theorem PoolLabel.act_of_returned
    {label : PoolLabel ρ} {loop after : MessageLoop ρ}
    (hstage : loop.stage = .returned)
    (hafter : label.act loop = some after) :
    after.stage = .returned := by
  cases label with
  | push affinity request =>
      obtain rfl := Option.some.inj hafter
      exact hstage
  | loop index => simp [PoolLabel.act, MessageLoop.step, hstage] at hafter
  | terminal index =>
      obtain rfl := Option.some.inj hafter
      exact hstage

theorem Spoilt.step
    {pool next : MessageLoopPool ρ} {label : PoolLabel ρ}
    (hspoilt : Spoilt pool) (hstep : pool.step label = some next) :
    Spoilt next := by
  obtain ⟨halive, hcases⟩ := MessageLoopPool.step_cases hstep
  cases hspoilt with
  | inl hcrashed => simp [halive] at hcrashed
  | inr hreturned =>
      obtain ⟨index, loop, hloop, hstage⟩ := hreturned
      cases hcases with
      | inl hnull => exact .inl hnull.1
      | inr hacted =>
          obtain ⟨found, after, hfound, hafter, rfl⟩ := hacted
          right
          by_cases hindex : label.target pool = index
          · subst hindex
            have hsame : loop = found := by
              rw [hloop] at hfound
              exact Option.some.inj (Option.some.inj hfound)
            subst hsame
            have hbound := (List.getElem?_eq_some_iff.mp hloop).1
            exact ⟨_, after, List.getElem?_set_self hbound,
              PoolLabel.act_of_returned hstage hafter⟩
          · refine ⟨index, loop, ?_, hstage⟩
            exact (List.getElem?_set_ne hindex).trans hloop

/-- A loop that finds `terminal_` not set returns. -/
theorem spoilt_of_not_stepSafe
    {pool next : MessageLoopPool ρ} {label : PoolLabel ρ}
    (hviolated : ¬ StepSafe pool label)
    (hstep : pool.step label = some next) :
    Spoilt next := by
  cases (MessageLoopPool.step_cases hstep).2 with
  | inl hnull => exact .inl hnull.1
  | inr hacted =>
      obtain ⟨loop, after, hloop, hafter, rfl⟩ := hacted
      cases label with
      | push affinity request => exact absurd ⟨loop, hloop⟩ hviolated
      | loop index =>
          have htest : loop.stage = .test ∧ loop.terminal = false := by
            by_contra hother
            refine hviolated ⟨loop, hloop, ?_⟩
            intro hstage
            cases hterminal : loop.terminal with
            | true => rfl
            | false => exact absurd ⟨hstage, hterminal⟩ hother
          simp only [PoolLabel.act, MessageLoop.step, htest.1, htest.2,
            Bool.false_eq_true, if_false, Option.some.injEq] at hafter
          have hbound := (List.getElem?_eq_some_iff.mp hloop).1
          refine .inr ⟨index, after, List.getElem?_set_self hbound, ?_⟩
          rw [← hafter]
      | terminal index => exact absurd ⟨loop, hloop⟩ hviolated

/-! ## The result -/

/-- Requests are kept exactly in the runs that follow no null pointer and in
which `Loop` finds `terminal_` set whenever it tests it. -/
theorem requests_never_lost_iff
    (constructed : List Bool) (labels : List (PoolLabel ρ))
    (final : MessageLoopPool ρ)
    (hrun :
      run MessageLoopPool.step (poolOf constructed) labels = some final) :
    NothingLost final ↔
      EachStep MessageLoopPool.step StepSafe (poolOf constructed)
        labels := by
  constructor
  · intro hkept
    apply EachStep.of_not_spoilt MessageLoopPool.step Spoilt
    · intro pool label next hspoilt hstep
      exact hspoilt.step hstep
    · intro pool label next hviolated hstep
      exact spoilt_of_not_stepSafe hviolated hstep
    · exact hrun
    · exact hkept.not_spoilt
  · intro hsafe
    have hsound :=
      run_preserves MessageLoopPool.step Sound StepSafe
        (fun pool label next hsound hlabel hstep =>
          hsound.step hlabel hstep)
        (sound_poolOf constructed) hrun hsafe
    exact hsound.nothingLost

theorem requests_never_lost_iff_one_batch :
    ∃ final : MessageLoopPool ℕ,
      run MessageLoopPool.step (poolOf [true])
          [.terminal 0, .push 5 7, .loop 0, .loop 0, .loop 0] =
        some final ∧
      NothingLost final := by
  refine ⟨_, rfl, ?_⟩
  apply (requests_never_lost_iff [true]
    [.terminal 0, .push 5 7, .loop 0, .loop 0, .loop 0] _ rfl).mpr
  refine ⟨⟨_, rfl⟩, ⟨_, rfl⟩, ⟨_, rfl, ?_⟩, ⟨_, rfl, ?_⟩, ⟨_, rfl, ?_⟩,
    trivial⟩
  · intro _
    rfl
  · intro htest
    cases htest
  · intro htest
    cases htest

/-- The first request after `Init` follows a null pointer; and a loop that is
constructed returns at once, with a request in its queue. -/
theorem requests_lost :
    (∃ pool final : MessageLoopPool ℕ,
      MessageLoopPool.init 1 = some pool ∧
        run MessageLoopPool.step pool [.push 0 7] = some final ∧
        final.crashed = true ∧ ¬ NothingLost final) ∧
      ∃ final : MessageLoopPool ℕ,
        run MessageLoopPool.step (poolOf [true]) [.push 0 7, .loop 0] =
            some final ∧
          final.loops =
            [some ⟨[some 7], [], false, .returned, []⟩] ∧
          ¬ NothingLost final := by
  constructor
  · refine ⟨_, _, rfl, rfl, rfl, ?_⟩
    intro hkept
    exact hkept.not_spoilt (.inl rfl)
  · refine ⟨_, rfl, rfl, ?_⟩
    intro hkept
    exact hkept.not_spoilt (.inr ⟨0, _, rfl, rfl⟩)

/-- No step at all is safe after `Init`. -/
theorem not_stepSafe_init
    {loopCount : ℤ} (hpositive : 0 < loopCount) (label : PoolLabel ρ) :
    ∃ pool, MessageLoopPool.init loopCount = some pool ∧
      ¬ StepSafe pool label := by
  refine ⟨_, init_eq_poolOf hpositive, ?_⟩
  intro hsafe
  obtain ⟨loop, hloop, -⟩ := hsafe.target
  simp [poolOf, List.getElem?_replicate] at hloop

end GreenTurtle.Kv
