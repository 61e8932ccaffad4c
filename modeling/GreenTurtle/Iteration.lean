import Mathlib.Logic.Relation
import Mathlib.Tactic

/-!
# Loops without a condition

The body of such a loop either goes on with the next state or leaves the loop
with a result.  Whether the loop ends is a question about all numbers of
iterations, and the rules here answer it from single iterations.
-/

namespace GreenTurtle.Iteration

variable {σ ρ : Type} {body : σ → σ ⊕ ρ} {state next : σ} {result left : ρ}

/-- The loop, cut off after a number of iterations. -/
def iterate (body : σ → σ ⊕ ρ) : ℕ → σ → Option ρ
  | 0, _ => none
  | fuel + 1, state =>
      match body state with
      | .inl next => iterate body fuel next
      | .inr result => some result

def Ends (body : σ → σ ⊕ ρ) (state : σ) (result : ρ) : Prop :=
  ∃ fuel, iterate body fuel state = some result

/-- The states in front of the iterations, from some state on. -/
def Reaches (body : σ → σ ⊕ ρ) : σ → σ → Prop :=
  Relation.ReflTransGen fun state next => body state = .inl next

theorem iterate_of_next (hbody : body state = .inl next) (fuel : ℕ) :
    iterate body (fuel + 1) state = iterate body fuel next := by
  simp only [iterate, hbody]

theorem ends_of_next (hbody : body state = .inl next) :
    Ends body state result ↔ Ends body next result := by
  constructor
  · rintro ⟨fuel, hfuel⟩
    cases fuel with
    | zero => simp [iterate] at hfuel
    | succ fuel =>
        rw [iterate_of_next hbody] at hfuel
        exact ⟨fuel, hfuel⟩
  · rintro ⟨fuel, hfuel⟩
    refine ⟨fuel + 1, ?_⟩
    rw [iterate_of_next hbody, hfuel]

theorem ends_of_left (hbody : body state = .inr left) :
    Ends body state result ↔ result = left := by
  constructor
  · rintro ⟨fuel, hfuel⟩
    cases fuel with
    | zero => simp [iterate] at hfuel
    | succ fuel =>
        simp only [iterate, hbody, Option.some.injEq] at hfuel
        exact hfuel.symm
  · rintro rfl
    exact ⟨1, by simp only [iterate, hbody]⟩

/-- A property of the states that excludes leaving and that the iterations
keep excludes that the loop ends. -/
theorem not_ends_of_invariant
    (inv : σ → Prop)
    (hstep : ∀ state, inv state → ∃ next, body state = .inl next ∧ inv next)
    (hinv : inv state) : ¬ Ends body state result := by
  rintro ⟨fuel, hfuel⟩
  induction fuel generalizing state with
  | zero => simp [iterate] at hfuel
  | succ fuel ih =>
      obtain ⟨next, hnext, hkept⟩ := hstep state hinv
      rw [iterate_of_next hnext] at hfuel
      exact ih hkept hfuel

/-- An iteration that changes nothing is repeated for ever. -/
theorem not_ends_of_fixed (hbody : body state = .inl state) :
    ¬ Ends body state result := by
  apply not_ends_of_invariant (· = state)
  · rintro _ rfl
    exact ⟨_, hbody, rfl⟩
  · rfl

theorem Reaches.preserves
    {inv : σ → Prop}
    (hstep :
      ∀ state next, inv state → body state = .inl next → inv next)
    {first last : σ} (hreaches : Reaches body first last)
    (hinv : inv first) : inv last := by
  induction hreaches with
  | refl => exact hinv
  | tail _ hbody ih => exact hstep _ _ ih hbody

end GreenTurtle.Iteration
