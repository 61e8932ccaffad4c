import GreenTurtle.Execution
import GreenTurtle.FixedWidth
import Mathlib.Tactic

/-!
# The single-producer single-consumer queue

`message_queue.h`.  `Push` and `Pop` are cut at their accesses to shared
memory, and the two threads interleave between them in any way.  Both counters
run freely and wrap at 64 bits; each side works with a copy of the other's
counter that may be stale.  The proof compares the counters with the unbounded
numbers of values pushed and popped so far.
-/

namespace GreenTurtle.MessageQueues

open FixedWidth
open Execution

structure MessageQueue (α : Type) where
  readIdx : ℕ
  writeIdx : ℕ
  size : ℕ
  mask : ℕ
  array : ℕ → α

def MessageQueue.new {α : Type} [Inhabited α] (size : ℕ) :
    MessageQueue α where
  readIdx := 0
  writeIdx := 0
  size := size
  mask := toUInt64 (size - 1)
  array := fun _ => default

/-- How far a call of `Push` has come, with its local variables. -/
inductive PushStage (α : Type) where
  | idle
  | loadedWrite (v : α) (currentWrite : ℕ)
  | loadedRead (v : α) (currentWrite currentRead : ℕ)
  | roomFound (v : α) (currentWrite : ℕ)
  | cellStored (v : α) (currentWrite : ℕ)

/-- How far a call of `Pop` has come, with its local variables. -/
inductive PopStage (α : Type) where
  | idle
  | loadedWrite (currentWrite : ℕ)
  | loadedRead (currentWrite currentRead : ℕ)
  | valueFound (currentRead : ℕ)
  | cellRead (v : α) (currentRead : ℕ)

/-- The queue with its two threads, and the values of the calls that have
returned `true`. -/
structure QueueSystem (α : Type) where
  queue : MessageQueue α
  producer : PushStage α
  consumer : PopStage α
  pushed : List α
  popped : List α

/-- The producer begins a call, or one of the threads makes its next step. -/
inductive QueueLabel (α : Type) where
  | push (v : α)
  | producer
  | consumer

section Model

variable {α : Type}

namespace QueueSystem

def new [Inhabited α] (size : ℕ) : QueueSystem α where
  queue := MessageQueue.new size
  producer := .idle
  consumer := .idle
  pushed := []
  popped := []

def beginPush (v : α) (system : QueueSystem α) : Option (QueueSystem α) :=
  match system.producer with
  | .idle =>
      some
        { system with producer := .loadedWrite v system.queue.writeIdx }
  | _ => none

def producerStep (system : QueueSystem α) : Option (QueueSystem α) :=
  match system.producer with
  | .idle => none
  | .loadedWrite v currentWrite =>
      some
        { system with
          producer := .loadedRead v currentWrite system.queue.readIdx }
  | .loadedRead v currentWrite currentRead =>
      if toUInt64 (currentWrite - currentRead) = system.queue.mask then
        some { system with producer := .idle }
      else some { system with producer := .roomFound v currentWrite }
  | .roomFound v currentWrite =>
      some
        { system with
          queue :=
            { system.queue with
              array :=
                Function.update system.queue.array
                  (currentWrite &&& system.queue.mask) v }
          producer := .cellStored v currentWrite }
  | .cellStored v currentWrite =>
      some
        { system with
          queue :=
            { system.queue with writeIdx := toUInt64 (currentWrite + 1) }
          producer := .idle
          pushed := system.pushed ++ [v] }

def consumerStep (system : QueueSystem α) : QueueSystem α :=
  match system.consumer with
  | .idle =>
      { system with consumer := .loadedWrite system.queue.writeIdx }
  | .loadedWrite currentWrite =>
      { system with
        consumer := .loadedRead currentWrite system.queue.readIdx }
  | .loadedRead currentWrite currentRead =>
      if currentRead = currentWrite then { system with consumer := .idle }
      else { system with consumer := .valueFound currentRead }
  | .valueFound currentRead =>
      { system with
        consumer :=
          .cellRead (system.queue.array (currentRead &&& system.queue.mask))
            currentRead }
  | .cellRead v currentRead =>
      { system with
        queue :=
          { system.queue with readIdx := toUInt64 (currentRead + 1) }
        consumer := .idle
        popped := system.popped ++ [v] }

def step (system : QueueSystem α) :
    QueueLabel α → Option (QueueSystem α)
  | .push v => system.beginPush v
  | .producer => system.producerStep
  | .consumer => some system.consumerStep

end QueueSystem

/-! ## What each thread knows -/

variable {n : ℕ}

/-- The producer owns the write counter.  Its copy of the read counter is a
number of values `seen` popped at some earlier moment. -/
def PushStage.Holds
    (n pushed popped : ℕ) (array : ℕ → α) : PushStage α → Prop
  | .idle => True
  | .loadedWrite _ currentWrite =>
      currentWrite = pushed % 18446744073709551616
  | .loadedRead _ currentWrite currentRead =>
      currentWrite = pushed % 18446744073709551616 ∧
        ∃ seen, seen ≤ popped ∧ pushed < seen + 2 ^ n ∧
          currentRead = seen % 18446744073709551616
  | .roomFound _ currentWrite =>
      currentWrite = pushed % 18446744073709551616 ∧
        pushed + 1 < popped + 2 ^ n
  | .cellStored v currentWrite =>
      currentWrite = pushed % 18446744073709551616 ∧
        pushed + 1 < popped + 2 ^ n ∧ array (pushed % 2 ^ n) = v

/-- The consumer owns the read counter.  Its copy of the write counter is a
number of values `seen` pushed at some earlier moment. -/
def PopStage.Holds (pushed : List α) (popped : ℕ) : PopStage α → Prop
  | .idle => True
  | .loadedWrite currentWrite =>
      ∃ seen, popped ≤ seen ∧ seen ≤ pushed.length ∧
        currentWrite = seen % 18446744073709551616
  | .loadedRead currentWrite currentRead =>
      currentRead = popped % 18446744073709551616 ∧
        ∃ seen, popped ≤ seen ∧ seen ≤ pushed.length ∧
          currentWrite = seen % 18446744073709551616
  | .valueFound currentRead =>
      currentRead = popped % 18446744073709551616 ∧
        popped < pushed.length
  | .cellRead v currentRead =>
      currentRead = popped % 18446744073709551616 ∧
        pushed[popped]? = some v

structure Coherent (n : ℕ) (system : QueueSystem α) : Prop where
  mask : system.queue.mask = 2 ^ n - 1
  writeIdx :
    system.queue.writeIdx = system.pushed.length % 18446744073709551616
  readIdx :
    system.queue.readIdx = system.popped.length % 18446744073709551616
  taken : system.popped <+: system.pushed
  room : system.pushed.length < system.popped.length + 2 ^ n
  cells :
    ∀ i v, system.popped.length ≤ i → system.pushed[i]? = some v →
      system.queue.array (i % 2 ^ n) = v
  producer :
    system.producer.Holds n system.pushed.length system.popped.length
      system.queue.array
  consumer : system.consumer.Holds system.pushed system.popped.length

theorem PushStage.Holds.mono
    {stage : PushStage α} {pushed popped later : ℕ} {array : ℕ → α}
    (hholds : stage.Holds n pushed popped array) (hle : popped ≤ later) :
    stage.Holds n pushed later array := by
  cases stage with
  | idle => trivial
  | loadedWrite v currentWrite => exact hholds
  | loadedRead v currentWrite currentRead =>
      rcases hholds with ⟨hwrite, seen, hseen, hrest⟩
      exact ⟨hwrite, seen, hseen.trans hle, hrest⟩
  | roomFound v currentWrite =>
      rcases hholds with ⟨hwrite, hroom⟩
      exact ⟨hwrite, by omega⟩
  | cellStored v currentWrite =>
      rcases hholds with ⟨hwrite, hroom, hcell⟩
      exact ⟨hwrite, by omega, hcell⟩

theorem PopStage.Holds.mono
    {stage : PopStage α} {pushed later : List α} {popped : ℕ}
    (hholds : stage.Holds pushed popped) (hpart : pushed <+: later) :
    stage.Holds later popped := by
  have hlength := hpart.length_le
  cases stage with
  | idle => trivial
  | loadedWrite currentWrite =>
      rcases hholds with ⟨seen, hpopped, hseen, hwrite⟩
      exact ⟨seen, hpopped, hseen.trans hlength, hwrite⟩
  | loadedRead currentWrite currentRead =>
      rcases hholds with ⟨hread, seen, hpopped, hseen, hwrite⟩
      exact ⟨hread, seen, hpopped, hseen.trans hlength, hwrite⟩
  | valueFound currentRead => exact ⟨hholds.1, hholds.2.trans_le hlength⟩
  | cellRead v currentRead =>
      refine ⟨hholds.1, ?_⟩
      rcases hpart with ⟨rest, heq⟩
      have hlt := (List.getElem?_eq_some_iff.mp hholds.2).1
      rw [← heq, List.getElem?_append_left hlt]
      exact hholds.2

/-! ## Every step keeps the counters and the cells together -/

/-- Masking a counter finds the cell of the value it counts. -/
theorem Coherent.index
    {system : QueueSystem α} (hcoherent : Coherent n system) (hn : n < 64)
    (i : ℕ) :
    i % 18446744073709551616 &&& system.queue.mask = i % 2 ^ n := by
  rw [hcoherent.mask, Nat.and_two_pow_sub_one_eq_mod,
    mod_wrap_mod_two_pow _ hn.le]

/-- Distinct values in the queue have distinct cells. -/
theorem mod_two_pow_ne
    {i j : ℕ} (hlt : i < j) (hnear : j < i + 2 ^ n) :
    j % 2 ^ n ≠ i % 2 ^ n := by
  intro heq
  have hmod : i ≡ j [MOD 2 ^ n] := heq.symm
  have hdvd := (Nat.modEq_iff_dvd' hlt.le).mp hmod
  have hle := Nat.le_of_dvd (by omega) hdvd
  omega

theorem Coherent.popped_le
    {system : QueueSystem α} (hcoherent : Coherent n system) :
    system.popped.length ≤ system.pushed.length :=
  hcoherent.taken.length_le

theorem Coherent.beginPush
    {system next : QueueSystem α} (hcoherent : Coherent n system) {v : α}
    (hstep : system.beginPush v = some next) :
    Coherent n next := by
  unfold QueueSystem.beginPush at hstep
  split at hstep
  next =>
    simp only [Option.some.injEq] at hstep
    subst next
    exact { hcoherent with producer := hcoherent.writeIdx }
  next => simp at hstep

/-- The store of the producer hits a cell that holds no waiting value. -/
theorem Coherent.storeCell
    {system : QueueSystem α} (hcoherent : Coherent n system) (hn : n < 64)
    {v : α} {currentWrite : ℕ}
    (hholds :
      (PushStage.roomFound v currentWrite).Holds n system.pushed.length
        system.popped.length system.queue.array) :
    Coherent n
      { system with
        queue :=
          { system.queue with
            array :=
              Function.update system.queue.array
                (currentWrite &&& system.queue.mask) v }
        producer := .cellStored v currentWrite } := by
  rcases hholds with ⟨hwrite, hfree⟩
  have hindex :
      currentWrite &&& system.queue.mask =
        system.pushed.length % 2 ^ n := by
    rw [hwrite]
    exact hcoherent.index hn _
  constructor
  · exact hcoherent.mask
  · exact hcoherent.writeIdx
  · exact hcoherent.readIdx
  · exact hcoherent.taken
  · exact hcoherent.room
  · intro i u hle hvalue
    dsimp only at hle hvalue ⊢
    have hlt := (List.getElem?_eq_some_iff.mp hvalue).1
    have hne :
        i % 2 ^ n ≠ system.pushed.length % 2 ^ n :=
      (mod_two_pow_ne hlt (by omega)).symm
    rw [hindex, Function.update_of_ne hne]
    exact hcoherent.cells i u hle hvalue
  · refine ⟨hwrite, hfree, ?_⟩
    dsimp only
    rw [hindex, Function.update_self]
  · exact hcoherent.consumer

/-- With the new write index the stored value becomes the last one pushed. -/
theorem Coherent.publish
    {system : QueueSystem α} (hcoherent : Coherent n system)
    {v : α} {currentWrite : ℕ}
    (hholds :
      (PushStage.cellStored v currentWrite).Holds n system.pushed.length
        system.popped.length system.queue.array) :
    Coherent n
      { system with
        queue :=
          { system.queue with writeIdx := toUInt64 (currentWrite + 1) }
        producer := .idle
        pushed := system.pushed ++ [v] } := by
  rcases hholds with ⟨hwrite, hfree, hcell⟩
  have hgrown : system.pushed <+: system.pushed ++ [v] :=
    List.prefix_append _ _
  constructor
  · exact hcoherent.mask
  · simp only [List.length_append, List.length_singleton, hwrite]
    exact toUInt64_counter_succ _
  · exact hcoherent.readIdx
  · exact hcoherent.taken.trans hgrown
  · simp only [List.length_append, List.length_singleton]
    omega
  · intro i u hle hvalue
    by_cases hlast : i = system.pushed.length
    · subst i
      simp only [List.getElem?_concat_length, Option.some.injEq] at hvalue
      exact hcell.trans hvalue
    · have hlt := (List.getElem?_eq_some_iff.mp hvalue).1
      simp only [List.length_append, List.length_singleton] at hlt
      rw [List.getElem?_append_left (by omega)] at hvalue
      exact hcoherent.cells i u hle hvalue
  · trivial
  · exact hcoherent.consumer.mono hgrown

theorem Coherent.producerStep
    {system next : QueueSystem α} (hcoherent : Coherent n system)
    (hn : n < 64) (hstep : system.producerStep = some next) :
    Coherent n next := by
  have hbound := two_pow_lt_wrap hn
  have hpopped := hcoherent.popped_le
  have hroom := hcoherent.room
  have hholds := hcoherent.producer
  unfold QueueSystem.producerStep at hstep
  split at hstep
  next => simp at hstep
  next v currentWrite hstage =>
    rw [hstage] at hholds
    simp only [Option.some.injEq] at hstep
    subst next
    exact
      { hcoherent with
        producer :=
          ⟨hholds, system.popped.length, le_rfl, hroom,
            hcoherent.readIdx⟩ }
  next v currentWrite currentRead hstage =>
    rw [hstage] at hholds
    rcases hholds with ⟨hwrite, seen, hseen, hnear, hread⟩
    have hdistance :
        toUInt64 (currentWrite - currentRead) =
          system.pushed.length - seen := by
      rw [hwrite, hread]
      exact toUInt64_counter_sub (by omega) (by omega)
    split at hstep
    next =>
      simp only [Option.some.injEq] at hstep
      subst next
      exact { hcoherent with producer := trivial }
    next hnotFull =>
      simp only [Option.some.injEq] at hstep
      subst next
      rw [hdistance, hcoherent.mask] at hnotFull
      have hfree :
          system.pushed.length + 1 < system.popped.length + 2 ^ n := by
        omega
      exact { hcoherent with producer := ⟨hwrite, hfree⟩ }
  next v currentWrite hstage =>
    rw [hstage] at hholds
    simp only [Option.some.injEq] at hstep
    subst next
    exact hcoherent.storeCell hn hholds
  next v currentWrite hstage =>
    rw [hstage] at hholds
    simp only [Option.some.injEq] at hstep
    subst next
    exact hcoherent.publish hholds

/-- With the new read index the value that was read counts as popped. -/
theorem Coherent.release
    {system : QueueSystem α} (hcoherent : Coherent n system)
    {v : α} {currentRead : ℕ}
    (hholds :
      (PopStage.cellRead v currentRead).Holds system.pushed
        system.popped.length) :
    Coherent n
      { system with
        queue :=
          { system.queue with readIdx := toUInt64 (currentRead + 1) }
        consumer := .idle
        popped := system.popped ++ [v] } := by
  rcases hholds with ⟨hread, hvalue⟩
  have hroom := hcoherent.room
  constructor
  · exact hcoherent.mask
  · exact hcoherent.writeIdx
  · simp only [List.length_append, List.length_singleton, hread]
    exact toUInt64_counter_succ _
  · have htaken := List.prefix_iff_eq_take.mp hcoherent.taken
    rw [List.prefix_iff_eq_take, List.length_append,
      List.length_singleton, List.take_add_one, hvalue, ← htaken]
    rfl
  · simp only [List.length_append, List.length_singleton]
    omega
  · intro i u hle hold
    simp only [List.length_append, List.length_singleton] at hle
    exact hcoherent.cells i u (by omega) hold
  · apply hcoherent.producer.mono
    simp
  · trivial

theorem Coherent.consumerStep
    {system : QueueSystem α} (hcoherent : Coherent n system)
    (hn : n < 64) :
    Coherent n system.consumerStep := by
  have hpopped := hcoherent.popped_le
  have hholds := hcoherent.consumer
  unfold QueueSystem.consumerStep
  split
  next =>
    exact
      { hcoherent with
        consumer :=
          ⟨system.pushed.length, hpopped, le_rfl, hcoherent.writeIdx⟩ }
  next currentWrite hstage =>
    rw [hstage] at hholds
    exact { hcoherent with consumer := ⟨hcoherent.readIdx, hholds⟩ }
  next currentWrite currentRead hstage =>
    rw [hstage] at hholds
    rcases hholds with ⟨hread, seen, hle, hseen, hwrite⟩
    split
    next => exact { hcoherent with consumer := trivial }
    next hne =>
      have hlt : system.popped.length < system.pushed.length := by
        rcases Nat.eq_or_lt_of_le hle with heq | hlt
        · exact (hne (by rw [hread, hwrite, heq])).elim
        · omega
      exact { hcoherent with consumer := ⟨hread, hlt⟩ }
  next currentRead hstage =>
    rw [hstage] at hholds
    rcases hholds with ⟨hread, hlt⟩
    have hvalue := List.getElem?_eq_getElem hlt
    have hcell := hcoherent.cells _ _ le_rfl hvalue
    have hindex :
        currentRead &&& system.queue.mask =
          system.popped.length % 2 ^ n := by
      rw [hread]
      exact hcoherent.index hn _
    refine { hcoherent with consumer := ⟨hread, ?_⟩ }
    dsimp only
    rw [hindex, hcell]
    exact hvalue
  next v currentRead hstage =>
    rw [hstage] at hholds
    exact hcoherent.release hholds

theorem Coherent.step
    {system next : QueueSystem α} {label : QueueLabel α}
    (hcoherent : Coherent n system) (hn : n < 64)
    (hstep : system.step label = some next) :
    Coherent n next := by
  cases label with
  | push v => exact hcoherent.beginPush hstep
  | producer => exact hcoherent.producerStep hn hstep
  | consumer =>
      simp only [QueueSystem.step, Option.some.injEq] at hstep
      subst next
      exact hcoherent.consumerStep hn

theorem Coherent.new [Inhabited α] (hn : n < 64) :
    Coherent n (QueueSystem.new (2 ^ n) : QueueSystem α) := by
  have hbound := two_pow_lt_wrap hn
  have hpos : 0 < 2 ^ n := by positivity
  constructor
  · simp only [QueueSystem.new, MessageQueue.new]
    rw [toUInt64_of_bounds (by omega) (by omega)]
    omega
  · rfl
  · rfl
  · exact List.nil_prefix
  · simp [QueueSystem.new]
  · intro i v _ hvalue
    simp [QueueSystem.new] at hvalue
  · trivial
  · trivial

theorem Coherent.run
    [Inhabited α] (hn : n < 64) {labels : List (QueueLabel α)}
    {system : QueueSystem α}
    (hrun :
      Execution.run QueueSystem.step (QueueSystem.new (2 ^ n)) labels =
        some system) :
    Coherent n system :=
  run_invariant QueueSystem.step (Coherent n)
    (fun _ _ _ hcoherent hstep => hcoherent.step hn hstep)
    (Coherent.new hn) hrun

/-! ## The queue is a bounded FIFO -/

/-- The cells that the consumer has still to read: those between the two
counters, and the one a call in progress is about to read. -/
def QueueSystem.MayRead (system : QueueSystem α) (cell : ℕ) : Prop :=
  (∃ k < toUInt64 (system.queue.writeIdx - system.queue.readIdx),
      cell = toUInt64 (system.queue.readIdx + k) &&& system.queue.mask) ∨
    ∃ currentRead, system.consumer = .valueFound currentRead ∧
      cell = currentRead &&& system.queue.mask

theorem Coherent.count
    {system : QueueSystem α} (hcoherent : Coherent n system) (hn : n < 64) :
    toUInt64 (system.queue.writeIdx - system.queue.readIdx) =
      system.pushed.length - system.popped.length := by
  have hbound := two_pow_lt_wrap hn
  have hroom := hcoherent.room
  rw [hcoherent.writeIdx, hcoherent.readIdx]
  exact toUInt64_counter_sub hcoherent.popped_le (by omega)

/-- A cell the consumer may read belongs to a value still in the queue. -/
theorem Coherent.mayRead
    {system : QueueSystem α} (hcoherent : Coherent n system) (hn : n < 64)
    {cell : ℕ} (hread : system.MayRead cell) :
    ∃ i, system.popped.length ≤ i ∧ i < system.pushed.length ∧
      cell = i % 2 ^ n := by
  rcases hread with hbetween | hreading
  · rcases hbetween with ⟨k, hk, hcell⟩
    rw [hcoherent.count hn] at hk
    refine ⟨system.popped.length + k, by omega, by omega, ?_⟩
    have hwrap :
        toUInt64 (system.queue.readIdx + k) =
          (system.popped.length + k) % 18446744073709551616 := by
      rw [hcoherent.readIdx]
      unfold toUInt64
      omega
    rw [hcell, hwrap]
    exact hcoherent.index hn _
  · rcases hreading with ⟨currentRead, hstage, hcell⟩
    have hholds := hcoherent.consumer
    rw [hstage] at hholds
    refine ⟨system.popped.length, le_rfl, hholds.2, ?_⟩
    rw [hcell, hholds.1]
    exact hcoherent.index hn _

theorem Coherent.storing_cell
    {system : QueueSystem α} (hcoherent : Coherent n system) (hn : n < 64)
    {v : α} {currentWrite : ℕ}
    (hstage : system.producer = .roomFound v currentWrite) :
    ¬ system.MayRead (currentWrite &&& system.queue.mask) := by
  intro hread
  have hholds := hcoherent.producer
  rw [hstage] at hholds
  rcases hholds with ⟨hwrite, hfree⟩
  rcases hcoherent.mayRead hn hread with ⟨i, hle, hlt, hcell⟩
  rw [hwrite, hcoherent.index hn] at hcell
  exact mod_two_pow_ne hlt (by omega) hcell

/-- In every interleaving, through any number of wraps of the counters, what
has been popped is a prefix of what has been pushed, the counters differ by the
number of values in between, which is less than the size, and the producer only
stores into cells that the consumer does not read. -/
theorem messageQueue_fifo
    [Inhabited α] (hn : n < 64)
    {labels : List (QueueLabel α)} {system : QueueSystem α}
    (hrun :
      Execution.run QueueSystem.step (QueueSystem.new (2 ^ n)) labels =
        some system) :
    system.popped <+: system.pushed ∧
      system.pushed.length - system.popped.length =
        toUInt64 (system.queue.writeIdx - system.queue.readIdx) ∧
      toUInt64 (system.queue.writeIdx - system.queue.readIdx) ≤
        2 ^ n - 1 ∧
      ∀ v currentWrite, system.producer = .roomFound v currentWrite →
        ¬ system.MayRead (currentWrite &&& system.queue.mask) := by
  have hcoherent := Coherent.run hn hrun
  have hcount := hcoherent.count hn
  have hroom := hcoherent.room
  refine ⟨hcoherent.taken, hcount.symm, ?_, ?_⟩
  · rw [hcount]
    omega
  · intro v currentWrite hstage
    exact hcoherent.storing_cell hn hstage

/-- A queue of two cells holds one value.  The consumer loads the write counter
before the second value is stored, and the producer finds the queue full. -/
theorem messageQueue_fifo_two_cells :
    ∃ system : QueueSystem ℕ,
      Execution.run QueueSystem.step (QueueSystem.new (2 ^ 1))
          [.push 7, .producer, .producer, .producer, .producer, .consumer,
            .push 8, .producer, .producer, .consumer, .consumer, .consumer,
            .consumer, .push 9, .producer, .producer] =
        some system ∧
      system.popped = [7] ∧ system.pushed = [7] ∧
      system.producer = .roomFound 9 1 ∧
      system.pushed.length - system.popped.length =
        toUInt64 (system.queue.writeIdx - system.queue.readIdx) ∧
      ¬ system.MayRead (1 &&& system.queue.mask) := by
  have hrun :
      ∃ system : QueueSystem ℕ,
        Execution.run QueueSystem.step (QueueSystem.new (2 ^ 1))
            [.push 7, .producer, .producer, .producer, .producer, .consumer,
              .push 8, .producer, .producer, .consumer, .consumer, .consumer,
              .consumer, .push 9, .producer, .producer] =
          some system ∧
        system.popped = [7] ∧ system.pushed = [7] ∧
        system.producer = .roomFound 9 1 :=
    ⟨_, rfl, rfl, rfl, rfl⟩
  rcases hrun with ⟨system, hrun, hpopped, hpushed, hstage⟩
  have hfifo := messageQueue_fifo (by decide : 1 < 64) hrun
  exact ⟨system, hrun, hpopped, hpushed, hstage, hfifo.2.1,
    hfifo.2.2.2 9 1 hstage⟩

end Model

end GreenTurtle.MessageQueues
