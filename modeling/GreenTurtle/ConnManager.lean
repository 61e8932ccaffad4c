import GreenTurtle.Execution
import GreenTurtle.FixedWidth
import Mathlib.Tactic

/-!
# The connection manager

`conn_manager.cc`.  Connections are announced by `AddConn` and `RemoveConn`
from any thread, and one thread calls `Update`.  A removal clears the table at
once, an addition reaches it only with the next `Update`; the notifications are
sent after the lock has been released.  A handler is known by its address, and
`fd` gives the descriptor it was constructed with.
-/

namespace GreenTurtle.Connections

open FixedWidth
open Execution

abbrev HandlerId := ℕ

/-- The values of the type `int`. -/
abbrev Descriptor := { x : ℤ // -2147483648 ≤ x ∧ x < 2147483648 }

structure ConnManager where
  handlers : List (Option HandlerId)
  addHandlerSet : List HandlerId
  removeHandlerSet : List HandlerId

/-- `vector::resize`.  A negative argument converts to a size that no vector
can have, and the call throws. -/
def resize (count : ℤ) (cells : List (Option HandlerId)) :
    Option (List (Option HandlerId)) :=
  if count < 0 then none
  else
    some (cells.take count.toNat ++
      List.replicate (count.toNat - cells.length) none)

namespace ConnManager

def new : ConnManager where
  handlers := []
  addHandlerSet := []
  removeHandlerSet := []

section Methods

variable (fd : HandlerId → Descriptor)

def addHandler (ptr : HandlerId) (manager : ConnManager) :
    Option ConnManager :=
  let grown :=
    if (fd ptr).1 ≥ toInt32 manager.handlers.length then
      resize (toInt32 ((fd ptr).1 * 2)) manager.handlers
    else some manager.handlers
  grown.map fun cells =>
    { manager with handlers := cells.set (fd ptr).1.toNat (some ptr) }

def resetHandler (descriptor : ℤ) (manager : ConnManager) : ConnManager :=
  if 0 < descriptor ∧ descriptor < toInt32 manager.handlers.length then
    { manager with
      handlers := manager.handlers.set descriptor.toNat none }
  else manager

def addConn (ptr : HandlerId) (manager : ConnManager) : ConnManager :=
  { manager with addHandlerSet := manager.addHandlerSet ++ [ptr] }

def removeConn (ptr : HandlerId) (manager : ConnManager) : ConnManager :=
  resetHandler (fd ptr).1
    { manager with
      removeHandlerSet := manager.removeHandlerSet ++ [ptr] }

def addHandlers : List HandlerId → ConnManager → Option ConnManager
  | [], manager => some manager
  | ptr :: rest, manager =>
      match manager.addHandler fd ptr with
      | none => none
      | some next => addHandlers rest next

/-- The part of `Update` that runs under the lock. -/
def collect (manager : ConnManager) :
    Option (List HandlerId × List HandlerId × ConnManager) :=
  (manager.addHandlers fd manager.addHandlerSet).map fun applied =>
    (manager.addHandlerSet, manager.removeHandlerSet,
      { applied with addHandlerSet := [], removeHandlerSet := [] })

end Methods

end ConnManager

/-! ## The manager and its callers -/

inductive ConnCall where
  | add (ptr : HandlerId)
  | remove (ptr : HandlerId)
  deriving DecidableEq

/-- A set handed to one of the two callbacks. -/
inductive Notice where
  | added (handlers : List HandlerId)
  | removed (handlers : List HandlerId)
  deriving DecidableEq

/-- How far the thread that calls `Update` has come, with its local sets. -/
inductive UpdateStage where
  | idle
  | collected (addSet removeSet : List HandlerId)
  | addNotified (removeSet : List HandlerId)
  deriving DecidableEq

/-- The manager, the thread that calls `Update`, the calls made so far and the
notifications sent so far. -/
structure ConnSystem where
  manager : ConnManager
  updater : UpdateStage
  calls : List ConnCall
  notices : List Notice

inductive ConnLabel where
  | addConn (ptr : HandlerId)
  | removeConn (ptr : HandlerId)
  | update
  deriving DecidableEq

namespace ConnSystem

def new : ConnSystem where
  manager := ConnManager.new
  updater := .idle
  calls := []
  notices := []

def addConn (ptr : HandlerId) (system : ConnSystem) : ConnSystem :=
  { system with
    manager := system.manager.addConn ptr
    calls := system.calls ++ [.add ptr] }

def removeConn
    (fd : HandlerId → Descriptor) (ptr : HandlerId)
    (system : ConnSystem) : ConnSystem :=
  { system with
    manager := system.manager.removeConn fd ptr
    calls := system.calls ++ [.remove ptr] }

/-- Both callbacks are set, and each is called with a set that is not empty. -/
def updateStep (fd : HandlerId → Descriptor) (system : ConnSystem) :
    Option ConnSystem :=
  match system.updater with
  | .idle =>
      (system.manager.collect fd).map fun result =>
        { system with
          manager := result.2.2
          updater := .collected result.1 result.2.1 }
  | .collected addSet removeSet =>
      some
        { system with
          updater := .addNotified removeSet
          notices :=
            if addSet = [] then system.notices
            else system.notices ++ [.added addSet] }
  | .addNotified removeSet =>
      some
        { system with
          updater := .idle
          notices :=
            if removeSet = [] then system.notices
            else system.notices ++ [.removed removeSet] }

/-- The three parts of `Update`, as a relation. -/
inductive Updated (fd : HandlerId → Descriptor) (system : ConnSystem) :
    ConnSystem → Prop where
  | collect {applied : ConnManager}
      (hidle : system.updater = .idle)
      (happlied :
        system.manager.addHandlers fd system.manager.addHandlerSet =
          some applied) :
      Updated fd system
        { system with
          manager :=
            { applied with addHandlerSet := [], removeHandlerSet := [] }
          updater :=
            .collected system.manager.addHandlerSet
              system.manager.removeHandlerSet }
  | notifyAdd {addSet removeSet : List HandlerId}
      (hstage : system.updater = .collected addSet removeSet) :
      Updated fd system
        { system with
          updater := .addNotified removeSet
          notices :=
            if addSet = [] then system.notices
            else system.notices ++ [.added addSet] }
  | notifyRemove {removeSet : List HandlerId}
      (hstage : system.updater = .addNotified removeSet) :
      Updated fd system
        { system with
          updater := .idle
          notices :=
            if removeSet = [] then system.notices
            else system.notices ++ [.removed removeSet] }

theorem updateStep_updated
    {fd : HandlerId → Descriptor} {system next : ConnSystem}
    (hstep : system.updateStep fd = some next) :
    Updated fd system next := by
  unfold updateStep at hstep
  split at hstep
  next hidle =>
    simp only [ConnManager.collect, Option.map_map,
      Option.map_eq_some_iff] at hstep
    rcases hstep with ⟨applied, happlied, heq⟩
    rw [← heq]
    exact .collect hidle happlied
  next hstage =>
    simp only [Option.some.injEq] at hstep
    rw [← hstep]
    exact .notifyAdd hstage
  next hstage =>
    simp only [Option.some.injEq] at hstep
    rw [← hstep]
    exact .notifyRemove hstage

def step (fd : HandlerId → Descriptor) (system : ConnSystem) :
    ConnLabel → Option ConnSystem
  | .addConn ptr => some (system.addConn ptr)
  | .removeConn ptr => some (system.removeConn fd ptr)
  | .update => system.updateStep fd

end ConnSystem

/-- The handlers that were added and not removed since. -/
def live (calls : List ConnCall) : List HandlerId :=
  calls.foldl
    (fun current call =>
      match call with
      | .add ptr => ptr :: current
      | .remove ptr => current.filter (· ≠ ptr))
    []

@[simp] theorem live_add (calls : List ConnCall) (ptr : HandlerId) :
    live (calls ++ [.add ptr]) = ptr :: live calls := by
  simp [live]

@[simp] theorem live_remove (calls : List ConnCall) (ptr : HandlerId) :
    live (calls ++ [.remove ptr]) = (live calls).filter (· ≠ ptr) := by
  simp [live]

/-! ## The table -/

/-- A cell as the C++ code sees it: empty beyond the end. -/
def cellAt (cells : List (Option HandlerId)) (i : ℕ) :
    Option HandlerId :=
  cells[i]?.join

theorem cellAt_set
    {cells : List (Option HandlerId)} {i : ℕ} (hi : i < cells.length)
    (value : Option HandlerId) (j : ℕ) :
    cellAt (cells.set i value) j =
      if j = i then value else cellAt cells j := by
  unfold cellAt
  by_cases heq : j = i
  · subst j
    simp [hi]
  · simp [heq, List.getElem?_set_ne (Ne.symm heq)]

theorem cellAt_resize
    {count : ℤ} {cells grown : List (Option HandlerId)}
    (hle : cells.length ≤ count.toNat)
    (hgrown : resize count cells = some grown) (i : ℕ) :
    grown.length = count.toNat ∧ cellAt grown i = cellAt cells i := by
  unfold resize at hgrown
  split at hgrown
  next => simp at hgrown
  next =>
    simp only [Option.some.injEq] at hgrown
    rw [List.take_of_length_le hle] at hgrown
    subst grown
    constructor
    · simp only [List.length_append, List.length_replicate]
      omega
    · unfold cellAt
      by_cases hi : i < cells.length
      · rw [List.getElem?_append_left hi]
      · rw [List.getElem?_append_right (by omega),
          List.getElem?_eq_none (by omega : cells.length ≤ i),
          List.getElem?_replicate]
        split <;> rfl

section Table

variable {fd : HandlerId → Descriptor}

/-- The doubling of the descriptor either overflows, and then the resize
throws, or makes room for its cell. -/
theorem ConnManager.addHandler_cells
    {manager next : ConnManager} {ptr : HandlerId}
    (hsize : manager.handlers.length < 2147483648)
    (hpos : 0 < (fd ptr).1)
    (hnext : manager.addHandler fd ptr = some next) :
    next.handlers.length < 2147483648 ∧
      ∀ i, cellAt next.handlers i =
        if i = (fd ptr).1.toNat then some ptr
        else cellAt manager.handlers i := by
  have hint := (fd ptr).2
  have hlength :
      toInt32 manager.handlers.length = manager.handlers.length :=
    toInt32_of_bounds (by omega) (by omega)
  simp only [ConnManager.addHandler, hlength, Option.map_eq_some_iff] at hnext
  rcases hnext with ⟨cells, hcells, heq⟩
  subst next
  split at hcells
  next hgrow =>
    have hnonneg : 0 ≤ toInt32 ((fd ptr).1 * 2) := by
      by_contra hneg
      simp [resize, not_le.mp hneg] at hcells
    have hdouble : toInt32 ((fd ptr).1 * 2) = (fd ptr).1 * 2 := by
      unfold toInt32 at hnonneg ⊢
      rw [Int.bmod_def] at hnonneg ⊢
      split at hnonneg <;> split <;> omega
    rw [hdouble] at hcells hnonneg
    have hresized := cellAt_resize (by omega) hcells
    have hroom := (hresized 0).1
    have hlt := toInt32_lt ((fd ptr).1 * 2)
    rw [hdouble] at hlt
    constructor
    · simp only [List.length_set]
      omega
    · intro i
      rw [cellAt_set (by omega), (hresized i).2]
  next hfits =>
    simp only [Option.some.injEq] at hcells
    subst cells
    constructor
    · simpa using hsize
    · intro i
      rw [cellAt_set (by omega)]

/-- Who occupies a cell once the handlers of a list have been written into
theirs: one of them, or else the former occupant. -/
theorem occupant_cons
    {first ptr : HandlerId} {rest : List HandlerId} {i : ℕ}
    {former : Option HandlerId}
    (hpos : ∀ other ∈ first :: rest, 0 < (fd other).1)
    (hdistinct : ∀ other ∈ rest, fd other = fd first → other = first) :
    (ptr ∈ rest ∧ (fd ptr).1.toNat = i ∨
        (if i = (fd first).1.toNat then some first else former) =
            some ptr ∧
          ∀ other ∈ rest, (fd other).1.toNat ≠ i) ↔
      (ptr ∈ first :: rest ∧ (fd ptr).1.toNat = i ∨
        former = some ptr ∧
          ∀ other ∈ first :: rest, (fd other).1.toNat ≠ i) := by
  by_cases hcell : i = (fd first).1.toNat
  · subst i
    simp only [if_true, List.mem_cons, forall_eq_or_imp, ne_eq,
      not_true_eq_false, false_and, and_false, or_false,
      Option.some.injEq]
    constructor
    · intro hcase
      rcases hcase with hmem | hself
      · exact ⟨.inr hmem.1, hmem.2⟩
      · exact ⟨.inl hself.1.symm, by rw [hself.1]⟩
    · intro hcase
      rcases hcase with ⟨hself | hmem, hindex⟩
      · subst ptr
        by_cases hagain : first ∈ rest
        · exact .inl ⟨hagain, rfl⟩
        · refine .inr ⟨rfl, ?_⟩
          intro other hother hsame
          have hfirstPos := hpos first (by simp)
          have hotherPos := hpos other (List.mem_cons_of_mem _ hother)
          have hfd : fd other = fd first := by
            apply Subtype.ext
            omega
          exact hagain (hdistinct other hother hfd ▸ hother)
      · exact .inl ⟨hmem, hindex⟩
  · simp only [hcell, if_false, List.mem_cons, forall_eq_or_imp,
      ne_eq, Ne.symm hcell, not_false_eq_true, true_and]
    constructor
    · intro hcase
      rcases hcase with hmem | hold
      · exact .inl ⟨.inr hmem.1, hmem.2⟩
      · exact .inr hold
    · intro hcase
      rcases hcase with ⟨hself | hmem, hindex⟩ | hold
      · subst ptr
        exact (hcell hindex.symm).elim
      · exact .inl ⟨hmem, hindex⟩
      · exact .inr hold

theorem ConnManager.addHandlers_cells
    {manager next : ConnManager} {pending : List HandlerId}
    (hsize : manager.handlers.length < 2147483648)
    (hpos : ∀ ptr ∈ pending, 0 < (fd ptr).1)
    (hdistinct :
      ∀ ptr ∈ pending, ∀ other ∈ pending, fd ptr = fd other → ptr = other)
    (hnext : manager.addHandlers fd pending = some next) :
    next.handlers.length < 2147483648 ∧
      ∀ i ptr, cellAt next.handlers i = some ptr ↔
        ptr ∈ pending ∧ (fd ptr).1.toNat = i ∨
          cellAt manager.handlers i = some ptr ∧
            ∀ other ∈ pending, (fd other).1.toNat ≠ i := by
  induction pending generalizing manager with
  | nil =>
      simp only [ConnManager.addHandlers, Option.some.injEq] at hnext
      subst next
      exact ⟨hsize, by simp⟩
  | cons first rest ih =>
      simp only [ConnManager.addHandlers] at hnext
      split at hnext
      next => simp at hnext
      next middle hmiddle =>
        have hfirst :=
          ConnManager.addHandler_cells hsize (hpos first (by simp)) hmiddle
        have hrest :=
          ih hfirst.1
            (fun ptr hmem => hpos ptr (List.mem_cons_of_mem _ hmem))
            (fun ptr hptr other hother =>
              hdistinct ptr (List.mem_cons_of_mem _ hptr) other
                (List.mem_cons_of_mem _ hother))
            hnext
        refine ⟨hrest.1, ?_⟩
        intro i ptr
        rw [hrest.2, hfirst.2 i]
        apply occupant_cons hpos
        intro other hother
        exact hdistinct other (List.mem_cons_of_mem _ hother) first
          (by simp)

/-- What the callers guarantee: descriptors are positive and differ between
live handlers, and only a live handler is removed. -/
def CallAllowed
    (fd : HandlerId → Descriptor) (system : ConnSystem) :
    ConnLabel → Prop
  | .addConn ptr =>
      0 < (fd ptr).1 ∧
        ∀ other ∈ live system.calls, fd other = fd ptr → other = ptr
  | .removeConn ptr => ptr ∈ live system.calls
  | .update => True

/-- A handler is not removed while its addition waits for `Update`. -/
def AdditionApplied (system : ConnSystem) : ConnLabel → Prop
  | .removeConn ptr => ptr ∉ system.manager.addHandlerSet
  | _ => True

instance (fd : HandlerId → Descriptor) (system : ConnSystem)
    (label : ConnLabel) : Decidable (CallAllowed fd system label) :=
  match label with
  | .addConn _ => instDecidableAnd
  | .removeConn _ => List.instDecidableMemOfLawfulBEq _ _
  | .update => instDecidableTrue

instance (system : ConnSystem) (label : ConnLabel) :
    Decidable (AdditionApplied system label) :=
  match label with
  | .addConn _ => instDecidableTrue
  | .removeConn _ => instDecidableNot
  | .update => instDecidableTrue

structure Tabled
    (fd : HandlerId → Descriptor) (system : ConnSystem) : Prop where
  size : system.manager.handlers.length < 2147483648
  cell_live :
    ∀ i ptr, cellAt system.manager.handlers i = some ptr →
      ptr ∈ live system.calls ∧ (fd ptr).1.toNat = i
  live_cell :
    ∀ ptr ∈ live system.calls,
      ptr ∈ system.manager.addHandlerSet ∨
        cellAt system.manager.handlers (fd ptr).1.toNat = some ptr
  pending_live :
    ∀ ptr ∈ system.manager.addHandlerSet, ptr ∈ live system.calls
  distinct :
    ∀ ptr ∈ live system.calls, ∀ other ∈ live system.calls,
      fd ptr = fd other → ptr = other
  positive : ∀ ptr ∈ live system.calls, 0 < (fd ptr).1

theorem Tabled.new : Tabled fd ConnSystem.new := by
  constructor <;> simp [ConnSystem.new, ConnManager.new, live, cellAt]

theorem Tabled.addConn
    {system : ConnSystem} (htabled : Tabled fd system) {ptr : HandlerId}
    (hallowed : CallAllowed fd system (.addConn ptr)) :
    Tabled fd (system.addConn ptr) := by
  rcases hallowed with ⟨hpos, hnew⟩
  constructor
  · exact htabled.size
  · intro i found hcell
    have hold := htabled.cell_live i found hcell
    simp only [ConnSystem.addConn, live_add, List.mem_cons]
    exact ⟨.inr hold.1, hold.2⟩
  · intro found hmem
    simp only [ConnSystem.addConn, live_add, List.mem_cons] at hmem
    simp only [ConnSystem.addConn, ConnManager.addConn, List.mem_append,
      List.mem_singleton]
    rcases hmem with heq | hold
    · exact .inl (.inr heq)
    · rcases htabled.live_cell found hold with hwaits | hcell
      · exact .inl (.inl hwaits)
      · exact .inr hcell
  · intro found hmem
    simp only [ConnSystem.addConn, ConnManager.addConn, List.mem_append,
      List.mem_singleton] at hmem
    simp only [ConnSystem.addConn, live_add, List.mem_cons]
    rcases hmem with hwaits | heq
    · exact .inr (htabled.pending_live found hwaits)
    · exact .inl heq
  · intro found hfound other hother hsame
    simp only [ConnSystem.addConn, live_add, List.mem_cons]
      at hfound hother
    rcases hfound with hfound | hfound <;>
      rcases hother with hother | hother
    · rw [hfound, hother]
    · rw [hfound]
      rw [hfound] at hsame
      exact (hnew other hother hsame.symm).symm
    · rw [hother]
      rw [hother] at hsame
      exact hnew found hfound hsame
    · exact htabled.distinct found hfound other hother hsame
  · intro found hmem
    simp only [ConnSystem.addConn, live_add, List.mem_cons] at hmem
    rcases hmem with heq | hold
    · rw [heq]
      exact hpos
    · exact htabled.positive found hold

theorem ConnManager.removeConn_cells
    {manager : ConnManager}
    (hsize : manager.handlers.length < 2147483648) {ptr : HandlerId}
    (hpos : 0 < (fd ptr).1) :
    (manager.removeConn fd ptr).handlers.length =
        manager.handlers.length ∧
      ∀ i, cellAt (manager.removeConn fd ptr).handlers i =
        if i = (fd ptr).1.toNat then none
        else cellAt manager.handlers i := by
  have hlength :
      toInt32 manager.handlers.length = manager.handlers.length :=
    toInt32_of_bounds (by omega) (by omega)
  unfold ConnManager.removeConn ConnManager.resetHandler
  dsimp only
  rw [hlength]
  split
  next hin =>
    refine ⟨List.length_set, ?_⟩
    intro i
    exact cellAt_set (by omega) none i
  next hout =>
    refine ⟨rfl, ?_⟩
    intro i
    split
    next heq =>
      unfold cellAt
      rw [List.getElem?_eq_none (by dsimp only; omega)]
      rfl
    next => rfl

theorem ConnManager.removeConn_addHandlerSet
    (manager : ConnManager) (ptr : HandlerId) :
    (manager.removeConn fd ptr).addHandlerSet = manager.addHandlerSet := by
  unfold ConnManager.removeConn ConnManager.resetHandler
  split <;> rfl

theorem Tabled.removeConn
    {system : ConnSystem} (htabled : Tabled fd system) {ptr : HandlerId}
    (hlive : ptr ∈ live system.calls)
    (happlied : ptr ∉ system.manager.addHandlerSet) :
    Tabled fd (system.removeConn fd ptr) := by
  have hpos := htabled.positive ptr hlive
  have hcells := ConnManager.removeConn_cells htabled.size hpos
  have hpending :
      (system.removeConn fd ptr).manager.addHandlerSet =
        system.manager.addHandlerSet :=
    ConnManager.removeConn_addHandlerSet system.manager ptr
  have hstill :
      ∀ found, found ∈ live (system.removeConn fd ptr).calls ↔
        found ∈ live system.calls ∧ found ≠ ptr := by
    intro found
    simp [ConnSystem.removeConn]
  constructor
  · exact hcells.1.trans_lt htabled.size
  · intro i found hcell
    have hcell' := (hcells.2 i).symm.trans hcell
    split at hcell'
    next => simp at hcell'
    next hne =>
      have hold := htabled.cell_live i found hcell'
      refine ⟨(hstill found).mpr ⟨hold.1, ?_⟩, hold.2⟩
      intro heq
      exact hne (heq ▸ hold.2.symm)
  · intro found hmem
    rcases (hstill found).mp hmem with ⟨hold, hne⟩
    rw [hpending]
    rcases htabled.live_cell found hold with hwaits | hcell
    · exact .inl hwaits
    · right
      have hfoundPos := htabled.positive found hold
      refine (hcells.2 _).trans ?_
      rw [if_neg]
      · exact hcell
      · intro hsame
        apply hne
        apply htabled.distinct found hold ptr hlive
        apply Subtype.ext
        omega
  · intro found hmem
    rw [hpending] at hmem
    refine (hstill found).mpr ⟨htabled.pending_live found hmem, ?_⟩
    intro heq
    exact happlied (heq ▸ hmem)
  · intro found hfound other hother
    exact htabled.distinct found ((hstill found).mp hfound).1 other
      ((hstill other).mp hother).1
  · intro found hmem
    exact htabled.positive found ((hstill found).mp hmem).1

theorem Tabled.updateStep
    {system next : ConnSystem} (htabled : Tabled fd system)
    (hstep : system.updateStep fd = some next) :
    Tabled fd next := by
  cases ConnSystem.updateStep_updated hstep with
  | collect hidle happlied =>
      have hcells :=
        ConnManager.addHandlers_cells htabled.size
          (fun ptr hmem =>
            htabled.positive ptr (htabled.pending_live ptr hmem))
          (fun ptr hptr other hother =>
            htabled.distinct ptr (htabled.pending_live ptr hptr) other
              (htabled.pending_live other hother))
          happlied
      constructor
      · exact hcells.1
      · intro i ptr hcell
        rcases (hcells.2 i ptr).mp hcell with hnew | hold
        · exact ⟨htabled.pending_live ptr hnew.1, hnew.2⟩
        · exact htabled.cell_live i ptr hold.1
      · intro ptr hmem
        right
        apply (hcells.2 _ ptr).mpr
        by_cases hwaits : ptr ∈ system.manager.addHandlerSet
        · exact .inl ⟨hwaits, rfl⟩
        · refine .inr
            ⟨(htabled.live_cell ptr hmem).resolve_left hwaits, ?_⟩
          intro other hother hsame
          have hotherLive := htabled.pending_live other hother
          have hotherPos := htabled.positive other hotherLive
          have hptrPos := htabled.positive ptr hmem
          have heq : other = ptr := by
            apply htabled.distinct other hotherLive ptr hmem
            apply Subtype.ext
            omega
          exact hwaits (heq ▸ hother)
      · simp
      · exact htabled.distinct
      · exact htabled.positive
  | notifyAdd hstage => exact { htabled with }
  | notifyRemove hstage => exact { htabled with }

theorem Tabled.step
    {system next : ConnSystem} {label : ConnLabel}
    (htabled : Tabled fd system)
    (hallowed :
      CallAllowed fd system label ∧ AdditionApplied system label)
    (hstep : system.step fd label = some next) :
    Tabled fd next := by
  cases label with
  | addConn ptr =>
      simp only [ConnSystem.step, Option.some.injEq] at hstep
      exact hstep ▸ htabled.addConn hallowed.1
  | removeConn ptr =>
      simp only [ConnSystem.step, Option.some.injEq] at hstep
      exact hstep ▸ htabled.removeConn hallowed.1 hallowed.2
  | update => exact htabled.updateStep hstep

/-- The cells of the table are the live handlers, each at its descriptor. -/
def TableExact
    (fd : HandlerId → Descriptor) (system : ConnSystem) : Prop :=
  ∀ (i : ℕ) (ptr : HandlerId),
    cellAt system.manager.handlers i = some ptr ↔
      ptr ∈ live system.calls ∧ (fd ptr).1 = i

/-- As long as no handler is removed while its addition waits, the table is
exact whenever nothing is pending. -/
theorem connManager_table_exact
    {labels : List ConnLabel} {system : ConnSystem}
    (hrun :
      run (ConnSystem.step fd) ConnSystem.new labels = some system)
    (hcalls :
      EachStep (ConnSystem.step fd)
        (fun state label =>
          CallAllowed fd state label ∧ AdditionApplied state label)
        ConnSystem.new labels)
    (hadd : system.manager.addHandlerSet = []) :
    TableExact fd system := by
  have htabled : Tabled fd system :=
    run_preserves (ConnSystem.step fd) (Tabled fd) _
      (fun _ _ _ hinv hlabel hstep => hinv.step hlabel hstep)
      Tabled.new hrun hcalls
  intro i ptr
  constructor
  · intro hcell
    have hold := htabled.cell_live i ptr hcell
    have hpos := htabled.positive ptr hold.1
    exact ⟨hold.1, by omega⟩
  · intro hmem
    have hindex : (fd ptr).1.toNat = i := by omega
    have hcell := htabled.live_cell ptr hmem.1
    rw [hadd, hindex] at hcell
    simpa using hcell

def smallDescriptor (ptr : HandlerId) : Descriptor :=
  ⟨(ptr % 8 : ℕ), by omega⟩

/-- One handler comes and goes between two calls of `Update`, another stays. -/
theorem connManager_table_exact_two_handlers :
    ∃ system,
      run (ConnSystem.step smallDescriptor) ConnSystem.new
          [.addConn 3, .addConn 4, .update, .removeConn 3, .update, .update,
            .update] =
        some system ∧
      EachStep (ConnSystem.step smallDescriptor)
        (fun state label =>
          CallAllowed smallDescriptor state label ∧
            AdditionApplied state label)
        ConnSystem.new
        [.addConn 3, .addConn 4, .update, .removeConn 3, .update, .update,
          .update] ∧
      live system.calls = [4] ∧ TableExact smallDescriptor system := by
  have hrun :
      ∃ system,
        run (ConnSystem.step smallDescriptor) ConnSystem.new
            [.addConn 3, .addConn 4, .update, .removeConn 3, .update,
              .update, .update] =
          some system ∧
        live system.calls = [4] ∧ system.manager.addHandlerSet = [] :=
    ⟨_, rfl, rfl, rfl⟩
  rcases hrun with ⟨system, hrun, hlive, hadd⟩
  have hcalls :
      EachStep (ConnSystem.step smallDescriptor)
        (fun state label =>
          CallAllowed smallDescriptor state label ∧
            AdditionApplied state label)
        ConnSystem.new
        [.addConn 3, .addConn 4, .update, .removeConn 3, .update, .update,
          .update] := by
    decide
  exact ⟨system, hrun, hcalls, hlive,
    connManager_table_exact hrun hcalls hadd⟩

/-- A handler that is removed before its addition has been applied is put into
the table by the next `Update`, and nothing takes it out again. -/
theorem connManager_table_not_exact :
    ¬ ∀ (fd : HandlerId → Descriptor) (labels : List ConnLabel)
        (system : ConnSystem),
      run (ConnSystem.step fd) ConnSystem.new labels = some system →
        EachStep (ConnSystem.step fd) (CallAllowed fd) ConnSystem.new
            labels →
          system.manager.addHandlerSet = [] →
            system.manager.removeHandlerSet = [] →
              TableExact fd system := by
  intro hexact
  have hrun :
      ∃ system,
        run (ConnSystem.step smallDescriptor) ConnSystem.new
            [.addConn 5, .removeConn 5, .update, .update, .update] =
          some system ∧
        system.manager.addHandlerSet = [] ∧
        system.manager.removeHandlerSet = [] ∧
        cellAt system.manager.handlers 5 = some 5 ∧
        live system.calls = [] :=
    ⟨_, rfl, rfl, rfl, rfl, rfl⟩
  rcases hrun with ⟨system, hrun, hadd, hremove, hcell, hlive⟩
  have htable :=
    hexact smallDescriptor _ system hrun (by decide) hadd hremove
  have hmem := ((htable 5 5).mp hcell).1
  simp [hlive] at hmem

end Table

end GreenTurtle.Connections
