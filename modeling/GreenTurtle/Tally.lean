import Mathlib.Tactic

/-!
# Tallies

A system that consists of a list of components, and a number attached to every
component.  What the components hold together is the sum of the numbers; this
file says how the sum changes with one component.
-/

namespace GreenTurtle.Tally

variable {α : Type}

def tally (measure : α → ℕ) (components : List α) : ℕ :=
  (components.map measure).sum

@[simp] theorem tally_cons
    (measure : α → ℕ) (first : α) (rest : List α) :
    tally measure (first :: rest) = measure first + tally measure rest :=
  List.sum_cons

theorem tally_set
    (measure : α → ℕ) {components : List α} {i : ℕ} {old : α}
    (hold : components[i]? = some old) (new : α) :
    tally measure (components.set i new) + measure old =
      tally measure components + measure new := by
  induction components generalizing i with
  | nil => simp at hold
  | cons first rest ih =>
      cases i with
      | zero =>
          simp only [List.getElem?_cons_zero, Option.some.injEq] at hold
          subst first
          simp only [List.set_cons_zero, tally_cons]
          omega
      | succ i =>
          rw [List.getElem?_cons_succ] at hold
          have hrest := ih hold
          simp only [List.set_cons_succ, tally_cons]
          omega

theorem le_tally
    (measure : α → ℕ) {components : List α} {i : ℕ} {component : α}
    (hcomponent : components[i]? = some component) :
    measure component ≤ tally measure components := by
  have hmem := List.mem_of_getElem? hcomponent
  exact List.single_le_sum (fun _ _ => Nat.zero_le _) _
    (List.mem_map_of_mem hmem)

/-- Two components hold no more than all together. -/
theorem add_le_tally
    (measure : α → ℕ) {components : List α} {i j : ℕ} {first second : α}
    (hfirst : components[i]? = some first)
    (hsecond : components[j]? = some second) (hne : i ≠ j) :
    measure first + measure second ≤ tally measure components := by
  induction components generalizing i j with
  | nil => simp at hfirst
  | cons head rest ih =>
      rw [tally_cons]
      cases i with
      | zero =>
          cases j with
          | zero => exact (hne rfl).elim
          | succ j =>
              rw [List.getElem?_cons_succ] at hsecond
              rw [List.getElem?_cons_zero, Option.some.injEq] at hfirst
              subst head
              have hle := le_tally measure hsecond
              omega
      | succ i =>
          rw [List.getElem?_cons_succ] at hfirst
          cases j with
          | zero =>
              rw [List.getElem?_cons_zero, Option.some.injEq] at hsecond
              subst head
              have hle := le_tally measure hfirst
              omega
          | succ j =>
              rw [List.getElem?_cons_succ] at hsecond
              have hle := ih hfirst hsecond (by omega)
              omega

/-- Changing one component changes the tally by what the component gains. -/
theorem tally_modify_le
    (measure : α → ℕ) {f : α → α} {gain : ℕ}
    (hgain : ∀ component, measure (f component) ≤ measure component + gain)
    (components : List α) (i : ℕ) :
    tally measure (components.modify i f) ≤
      tally measure components + gain := by
  rw [List.modify_eq_set_getElem?]
  cases hold : components[i]? with
  | none => simp
  | some old =>
      have hset := tally_set measure hold (f old)
      have hold := hgain old
      simp only [Option.map_eq_map, Option.map_some, Option.getD_some]
      omega

theorem tally_modify_of_eq
    (measure : α → ℕ) {f : α → α}
    (hsame : ∀ component, measure (f component) = measure component)
    (components : List α) (i : ℕ) :
    tally measure (components.modify i f) = tally measure components := by
  rw [List.modify_eq_set_getElem?]
  cases hold : components[i]? with
  | none => simp
  | some old =>
      have hset := tally_set measure hold (f old)
      rw [hsame old] at hset
      simp only [Option.map_eq_map, Option.map_some, Option.getD_some]
      omega

theorem tally_map_of_eq
    (measure : α → ℕ) {f : α → α}
    (hsame : ∀ component, measure (f component) = measure component)
    (components : List α) :
    tally measure (components.map f) = tally measure components := by
  unfold tally
  rw [List.map_map]
  exact congrArg List.sum (List.map_congr_left fun x _ => hsame x)

theorem tally_eq_zero
    (measure : α → ℕ) {components : List α}
    (hzero : ∀ component ∈ components, measure component = 0) :
    tally measure components = 0 := by
  induction components with
  | nil => rfl
  | cons first rest ih =>
      rw [tally_cons, hzero first (by simp), ih]
      intro component hmem
      exact hzero component (List.mem_cons_of_mem _ hmem)

theorem tally_le_tally
    {first second : α → ℕ}
    (hle : ∀ component, first component ≤ second component)
    (components : List α) :
    tally first components ≤ tally second components :=
  List.sum_le_sum fun component _ => hle component

/-- A component of a list in which one component has been replaced. -/
theorem getElem?_set_eq_some
    {components : List α} {i j : ℕ} {new component : α}
    (hcomponent : (components.set i new)[j]? = some component) :
    i = j ∧ component = new ∨ i ≠ j ∧ components[j]? = some component := by
  rw [List.getElem?_set] at hcomponent
  split at hcomponent
  next heq =>
    split at hcomponent
    next =>
      simp only [Option.some.injEq] at hcomponent
      exact .inl ⟨heq, hcomponent.symm⟩
    next => simp at hcomponent
  next hne => exact .inr ⟨hne, hcomponent⟩

theorem mem_modify
    {components : List α} {i : ℕ} {f : α → α} {component : α}
    (hmem : component ∈ components.modify i f) :
    ∃ old ∈ components, component = old ∨ component = f old := by
  rcases List.mem_iff_getElem?.mp hmem with ⟨j, hcomponent⟩
  rw [List.getElem?_modify] at hcomponent
  simp only [Option.map_eq_map, Option.map_eq_some_iff] at hcomponent
  rcases hcomponent with ⟨old, hold, heq⟩
  refine ⟨old, List.mem_of_getElem? hold, ?_⟩
  split at heq
  next => exact .inr heq.symm
  next => exact .inl heq.symm

end GreenTurtle.Tally
