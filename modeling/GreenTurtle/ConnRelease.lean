import GreenTurtle.ConnNotifications
import Mathlib.Tactic

/-!
# How the connection manager lets go of a connection

A connection is forgotten when neither the table nor the pending additions hold
it.  `RemoveConn` makes the manager forget a connection whose addition has been
applied, and the second `Update` after that at the latest has reported it.
Nothing is assumed about the calls made for other connections.
-/

namespace GreenTurtle.Connections

open FixedWidth
open Execution

section Release

variable {fd : HandlerId → Descriptor}

/-! ## The table -/

/-- Every handler in the table is at its descriptor, and descriptors are
positive. -/
structure Indexed
    (fd : HandlerId → Descriptor) (system : ConnSystem) : Prop where
  size : system.manager.handlers.length < 2147483648
  index :
    ∀ i ptr, cellAt system.manager.handlers i = some ptr →
      (fd ptr).1 = i ∧ 0 < i
  positive : ∀ ptr ∈ system.manager.addHandlerSet, 0 < (fd ptr).1

def Forgotten (ptr : HandlerId) (system : ConnSystem) : Prop :=
  ptr ∉ system.manager.addHandlerSet ∧
    ∀ i, cellAt system.manager.handlers i ≠ some ptr

theorem Indexed.new : Indexed fd ConnSystem.new := by
  constructor <;> simp [ConnSystem.new, ConnManager.new, cellAt]

theorem Forgotten.new (ptr : HandlerId) : Forgotten ptr ConnSystem.new := by
  simp [Forgotten, ConnSystem.new, ConnManager.new, cellAt]

theorem ConnManager.addHandlers_cell
    {manager next : ConnManager} {pending : List HandlerId}
    (hsize : manager.handlers.length < 2147483648)
    (hpos : ∀ ptr ∈ pending, 0 < (fd ptr).1)
    (hnext : manager.addHandlers fd pending = some next) :
    next.handlers.length < 2147483648 ∧
      ∀ i ptr, cellAt next.handlers i = some ptr →
        ptr ∈ pending ∧ (fd ptr).1 = i ∨
          cellAt manager.handlers i = some ptr := by
  induction pending generalizing manager with
  | nil =>
      simp only [ConnManager.addHandlers, Option.some.injEq] at hnext
      subst next
      exact ⟨hsize, fun i ptr hcell => .inr hcell⟩
  | cons first rest ih =>
      simp only [ConnManager.addHandlers] at hnext
      split at hnext
      next => simp at hnext
      next middle hmiddle =>
        have hfirstPos := hpos first (by simp)
        have hfirst :=
          ConnManager.addHandler_cells hsize hfirstPos hmiddle
        have hrest :=
          ih hfirst.1
            (fun ptr hmem => hpos ptr (List.mem_cons_of_mem _ hmem)) hnext
        refine ⟨hrest.1, ?_⟩
        intro i ptr hcell
        rcases hrest.2 i ptr hcell with hnew | hold
        · exact .inl ⟨List.mem_cons_of_mem _ hnew.1, hnew.2⟩
        · rw [hfirst.2 i] at hold
          split at hold
          next heq =>
            simp only [Option.some.injEq] at hold
            subst ptr
            exact .inl ⟨by simp, by omega⟩
          next => exact .inr hold

theorem ConnManager.removeConn_cell
    {manager : ConnManager} {ptr found : HandlerId} {i : ℕ}
    (hcell :
      cellAt (manager.removeConn fd ptr).handlers i = some found) :
    cellAt manager.handlers i = some found := by
  unfold ConnManager.removeConn ConnManager.resetHandler at hcell
  dsimp only at hcell
  split at hcell
  next hin =>
    by_cases hlt : (fd ptr).1.toNat < manager.handlers.length
    · rw [cellAt_set hlt] at hcell
      split at hcell
      next => simp at hcell
      next => exact hcell
    · rw [List.set_eq_of_length_le (by omega)] at hcell
      exact hcell
  next => exact hcell

theorem ConnManager.removeConn_length
    (manager : ConnManager) (ptr : HandlerId) :
    (manager.removeConn fd ptr).handlers.length =
      manager.handlers.length := by
  unfold ConnManager.removeConn ConnManager.resetHandler
  split
  next => exact List.length_set
  next => rfl

theorem Indexed.addConn
    {system : ConnSystem} (hindexed : Indexed fd system) {ptr : HandlerId}
    (hpos : 0 < (fd ptr).1) : Indexed fd (system.addConn ptr) := by
  constructor
  · exact hindexed.size
  · exact hindexed.index
  · intro found hmem
    rcases List.mem_append.mp hmem with hold | hnew
    · exact hindexed.positive found hold
    · rw [List.mem_singleton.mp hnew]
      exact hpos

theorem Indexed.removeConn
    {system : ConnSystem} (hindexed : Indexed fd system)
    (ptr : HandlerId) : Indexed fd (system.removeConn fd ptr) := by
  constructor
  · exact (ConnManager.removeConn_length _ _).trans_lt hindexed.size
  · intro i found hcell
    exact hindexed.index i found (ConnManager.removeConn_cell hcell)
  · intro found hmem
    apply hindexed.positive found
    rw [← ConnManager.removeConn_addHandlerSet system.manager ptr]
    exact hmem

theorem Indexed.updateStep
    {system next : ConnSystem} (hindexed : Indexed fd system)
    (hstep : system.updateStep fd = some next) : Indexed fd next := by
  cases ConnSystem.updateStep_updated hstep with
  | collect hidle happlied =>
      have hcells :=
        ConnManager.addHandlers_cell hindexed.size hindexed.positive happlied
      constructor
      · exact hcells.1
      · intro i ptr hcell
        rcases hcells.2 i ptr hcell with hnew | hold
        · have hpos := hindexed.positive ptr hnew.1
          exact ⟨hnew.2, by omega⟩
        · exact hindexed.index i ptr hold
      · simp
  | notifyAdd hstage => exact { hindexed with }
  | notifyRemove hstage => exact { hindexed with }

theorem Forgotten.addConn
    {system : ConnSystem} {ptr other : HandlerId}
    (hforgotten : Forgotten ptr system) (hne : ptr ≠ other) :
    Forgotten ptr (system.addConn other) := by
  refine ⟨?_, hforgotten.2⟩
  intro hmem
  rcases List.mem_append.mp hmem with hold | hnew
  · exact hforgotten.1 hold
  · exact hne (List.mem_singleton.mp hnew)

theorem Forgotten.removeConn
    {system : ConnSystem} {ptr : HandlerId}
    (hforgotten : Forgotten ptr system) (other : HandlerId) :
    Forgotten ptr (system.removeConn fd other) := by
  constructor
  · intro hmem
    apply hforgotten.1
    rw [← ConnManager.removeConn_addHandlerSet system.manager other]
    exact hmem
  · intro i hcell
    exact hforgotten.2 i (ConnManager.removeConn_cell hcell)

/-- `RemoveConn` clears the only cell in which the handler can be. -/
theorem Indexed.removeConn_forgotten
    {system : ConnSystem} (hindexed : Indexed fd system) {ptr : HandlerId}
    (happlied : ptr ∉ system.manager.addHandlerSet) :
    Forgotten ptr (system.removeConn fd ptr) := by
  constructor
  · intro hmem
    apply happlied
    rw [← ConnManager.removeConn_addHandlerSet system.manager ptr]
    exact hmem
  · intro i hcell
    have hindex :=
      hindexed.index i ptr (ConnManager.removeConn_cell hcell)
    have hcleared :=
      (ConnManager.removeConn_cells hindexed.size
        (by omega : 0 < (fd ptr).1)).2 i
    rw [if_pos (by omega)] at hcleared
    have hnone : (none : Option HandlerId) = some ptr :=
      hcleared.symm.trans hcell
    simp at hnone

theorem Forgotten.updateStep
    {system next : ConnSystem} {ptr : HandlerId}
    (hforgotten : Forgotten ptr system) (hindexed : Indexed fd system)
    (hstep : system.updateStep fd = some next) : Forgotten ptr next := by
  cases ConnSystem.updateStep_updated hstep with
  | collect hidle happlied =>
      have hcells :=
        ConnManager.addHandlers_cell hindexed.size hindexed.positive happlied
      constructor
      · simp
      · intro i hcell
        rcases hcells.2 i ptr hcell with hnew | hold
        · exact hforgotten.1 hnew.1
        · exact hforgotten.2 i hold
  | notifyAdd hstage => exact hforgotten
  | notifyRemove hstage => exact hforgotten

/-! ## The report -/

/-- How many steps `Update` still takes to report what it has collected. -/
def UpdateStage.remaining : UpdateStage → ℕ
  | .idle => 0
  | .collected _ _ => 2
  | .addNotified _ => 1

/-- The removal has been reported, or will be by the given number of steps of
`Update`. -/
def ReportedWithin
    (steps : ℕ) (ptr : HandlerId) (system : ConnSystem) : Prop :=
  ptr ∈ removeNotified system.notices ∨
    ptr ∈ system.updater.removeSet ∧ system.updater.remaining ≤ steps

theorem ReportedWithin.mono
    {system : ConnSystem} {steps more : ℕ} {ptr : HandlerId}
    (hreported : ReportedWithin steps ptr system) (hle : steps ≤ more) :
    ReportedWithin more ptr system := by
  rcases hreported with hdone | hflight
  · exact .inl hdone
  · exact .inr ⟨hflight.1, hflight.2.trans hle⟩

theorem ReportedWithin.updateStep
    {system next : ConnSystem} {steps : ℕ} {ptr : HandlerId}
    (hreported : ReportedWithin (steps + 1) ptr system)
    (hstep : system.updateStep fd = some next) :
    ReportedWithin steps ptr next := by
  cases ConnSystem.updateStep_updated hstep with
  | collect hstage happlied =>
      rcases hreported with hdone | hflight
      · exact .inl hdone
      · simp [hstage, UpdateStage.removeSet] at hflight
  | @notifyAdd addSet removeSet hstage =>
      rw [ReportedWithin, hstage] at hreported
      rcases hreported with hdone | hflight
      · left
        rw [removeNotified_send_added]
        exact hdone
      · right
        have hremaining : 2 ≤ steps + 1 := hflight.2
        exact ⟨hflight.1, Nat.le_of_succ_le_succ hremaining⟩
  | @notifyRemove removeSet hstage =>
      rw [ReportedWithin, hstage] at hreported
      left
      rw [removeNotified_send]
      rcases hreported with hdone | hflight
      · exact List.mem_append_left _ hdone
      · exact List.mem_append_right _ hflight.1

theorem RemovalsKept.reportedWithin
    {system next : ConnSystem} {ptr : HandlerId}
    (hkept : RemovalsKept system) (hidle : system.updater = .idle)
    (hremoved : ptr ∈ removedCalls system.calls)
    (hstep : system.updateStep fd = some next) :
    ReportedWithin 2 ptr next := by
  rw [← hkept, hidle] at hremoved
  simp only [UpdateStage.removeSet, List.append_nil,
    List.mem_append] at hremoved
  simp only [ConnSystem.updateStep, hidle, ConnManager.collect,
    Option.map_map, Option.map_eq_some_iff] at hstep
  rcases hstep with ⟨applied, _, heq⟩
  subst next
  rcases hremoved with hdone | hpending
  · exact .inl hdone
  · exact .inr ⟨hpending, le_rfl⟩

theorem ReportedWithin.reported
    {system : ConnSystem} {ptr : HandlerId}
    (hreported : ReportedWithin 0 ptr system) :
    ptr ∈ removeNotified system.notices := by
  rcases hreported with hdone | hflight
  · exact hdone
  · cases hstage : system.updater with
    | idle => simp [hstage, UpdateStage.removeSet] at hflight
    | collected addSet removeSet =>
        simp [hstage, UpdateStage.remaining] at hflight
    | addNotified removeSet =>
        simp [hstage, UpdateStage.remaining] at hflight

end Release

end GreenTurtle.Connections
