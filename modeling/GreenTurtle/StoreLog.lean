import GreenTurtle.Memory
import Mathlib.Tactic

/-!
# Logs of stores

A piece of code that writes to memory can be run so that it also lists its
stores.  The log determines the new memory, and it tells which addresses were
written even where the old value was written back.
-/

namespace GreenTurtle.Memory

variable {α : Type}

abbrev StoreLog (α : Type) := List (ℤ × List α)

def applyLog (mem : ℤ → α) (log : StoreLog α) : ℤ → α :=
  log.foldl (fun mem entry => store mem entry.1 entry.2) mem

/-- Some store of the log covers the address. -/
def Touched (log : StoreLog α) (address : ℤ) : Prop :=
  ∃ entry ∈ log, entry.1 ≤ address ∧ address < entry.1 + entry.2.length

@[simp] theorem applyLog_nil (mem : ℤ → α) : applyLog mem [] = mem := rfl

@[simp] theorem applyLog_cons
    (mem : ℤ → α) (entry : ℤ × List α) (log : StoreLog α) :
    applyLog mem (entry :: log) =
      applyLog (store mem entry.1 entry.2) log := rfl

@[simp] theorem applyLog_append
    (mem : ℤ → α) (first second : StoreLog α) :
    applyLog mem (first ++ second) =
      applyLog (applyLog mem first) second := by
  simp [applyLog]

@[simp] theorem touched_nil (address : ℤ) :
    ¬ Touched ([] : StoreLog α) address := by
  simp [Touched]

@[simp] theorem touched_cons
    (entry : ℤ × List α) (log : StoreLog α) (address : ℤ) :
    Touched (entry :: log) address ↔
      (entry.1 ≤ address ∧ address < entry.1 + entry.2.length) ∨
        Touched log address := by
  simp [Touched]

@[simp] theorem touched_append
    (first second : StoreLog α) (address : ℤ) :
    Touched (first ++ second) address ↔
      Touched first address ∨ Touched second address := by
  simp only [Touched, List.mem_append]
  constructor
  · rintro ⟨entry, hentry | hentry, hcover⟩
    · exact .inl ⟨entry, hentry, hcover⟩
    · exact .inr ⟨entry, hentry, hcover⟩
  · rintro (⟨entry, hentry, hcover⟩ | ⟨entry, hentry, hcover⟩)
    · exact ⟨entry, .inl hentry, hcover⟩
    · exact ⟨entry, .inr hentry, hcover⟩

/-- Addresses that no store covers keep their values. -/
theorem applyLog_of_not_touched
    (mem : ℤ → α) {log : StoreLog α} {address : ℤ}
    (haddress : ¬ Touched log address) :
    applyLog mem log address = mem address := by
  induction log generalizing mem with
  | nil => rfl
  | cons entry log ih =>
      rw [touched_cons, not_or] at haddress
      rw [applyLog_cons, ih _ haddress.2]
      by_cases hbefore : address < entry.1
      · exact store_of_lt mem entry.2 hbefore
      · exact store_of_ge mem (by omega)

/-- The stores reach from `low` to `high`, the upper end excluded, and both
ends are met when there is anything between them. -/
structure Spans (log : StoreLog α) (low high : ℤ) : Prop where
  bounds :
    ∀ address, Touched log address → low ≤ address ∧ address < high
  ends : low < high → Touched log low ∧ Touched log (high - 1)

namespace Spans

theorem single (start : ℤ) (data : List α) :
    Spans [(start, data)] start (start + data.length) := by
  constructor
  · simp
  · intro hlt
    simp only [touched_cons, touched_nil, or_false]
    omega

theorem nil (start : ℤ) : Spans ([] : StoreLog α) start start := by
  constructor
  · simp
  · intro hlt
    omega

/-- A log stays inside an interval exactly when its ends do. -/
theorem within_iff
    {log : StoreLog α} {low high : ℤ} (hspans : Spans log low high)
    (lower upper : ℤ) :
    (∀ address, Touched log address → lower ≤ address ∧ address < upper) ↔
      high ≤ low ∨ (lower ≤ low ∧ high ≤ upper) := by
  constructor
  · intro hwithin
    by_cases hlt : low < high
    · rcases hspans.ends hlt with ⟨hlow, hhigh⟩
      have hlower := (hwithin low hlow).1
      have hupper := (hwithin (high - 1) hhigh).2
      omega
    · exact .inl (by omega)
  · intro hends address haddress
    have hbounds := hspans.bounds address haddress
    omega

end Spans

end GreenTurtle.Memory
