import Mathlib.Tactic

/-!
# Executions

Two ways to run a program with an unbounded loop or a scheduler.  A loop with
fuel either returns or is cut off, and in both cases leaves a state behind.  A
system of interleaved steps is a partial step function on states and labels,
and its runs are the label sequences all of whose steps are enabled.
-/

namespace GreenTurtle.Execution

/-! ## Loops that may be cut off -/

/-- The state at the point where a loop returned or was cut off. -/
def outcome {σ : Type} : Except σ σ → σ
  | .error state => state
  | .ok state => state

/-- The same for a loop that also returns a value. -/
def stateOf {σ β : Type} : Except σ (β × σ) → σ
  | .error state => state
  | .ok (_, state) => state

/-! ## Histories that grow at the end -/

section Histories

variable {α : Type} {history : List α} {last found : α} {i : ℕ}

theorem getElem?_concat_some
    (hfound : (history ++ [last])[i]? = some found) :
    history[i]? = some found ∨ (i = history.length ∧ last = found) := by
  rcases lt_trichotomy i history.length with hlt | heq | hgt
  · rw [List.getElem?_append_left hlt] at hfound
    exact .inl hfound
  · subst i
    simp only [List.getElem?_concat_length, Option.some.injEq] at hfound
    exact .inr ⟨rfl, hfound⟩
  · rw [List.getElem?_eq_none (by simp; omega)] at hfound
    contradiction

theorem getElem?_concat_of_some
    (last : α) (hfound : history[i]? = some found) :
    (history ++ [last])[i]? = some found := by
  rw [List.getElem?_append_left (List.getElem?_eq_some_iff.mp hfound).1]
  exact hfound

end Histories

/-! ## Runs of a partial step function -/

section Runs

variable {σ ε : Type} (step : σ → ε → Option σ)

def run : σ → List ε → Option σ
  | state, [] => some state
  | state, label :: labels =>
      match step state label with
      | none => none
      | some next => run next labels

theorem run_cons_eq_some_iff
    {state final : σ} {label : ε} {labels : List ε} :
    run step state (label :: labels) = some final ↔
      ∃ next, step state label = some next ∧
        run step next labels = some final := by
  simp only [run]
  cases step state label <;> simp

theorem run_append
    {state middle : σ} {first second : List ε}
    (hfirst : run step state first = some middle) :
    run step state (first ++ second) = run step middle second := by
  induction first generalizing state with
  | nil =>
      simp only [run, Option.some.injEq] at hfirst
      simp [hfirst]
  | cons label labels ih =>
      obtain ⟨next, hstep, hrest⟩ :=
        (run_cons_eq_some_iff step).mp hfirst
      simp only [List.cons_append, run, hstep]
      exact ih hrest

/-- Every label is admissible in the state in which it is taken. -/
def EachStep (admissible : σ → ε → Prop) : σ → List ε → Prop
  | _, [] => True
  | state, label :: labels =>
      admissible state label ∧
        match step state label with
        | none => True
        | some next => EachStep admissible next labels

instance decidableEachStep (admissible : σ → ε → Prop)
    [∀ state label, Decidable (admissible state label)] :
    ∀ (state : σ) (labels : List ε),
      Decidable (EachStep step admissible state labels)
  | _, [] => instDecidableTrue
  | state, label :: labels =>
      have : Decidable
          (match step state label with
            | none => True
            | some next => EachStep step admissible next labels) :=
        match step state label with
        | none => instDecidableTrue
        | some next => decidableEachStep admissible next labels
      instDecidableAnd

theorem EachStep.of_append
    {admissible : σ → ε → Prop} {state middle : σ} {first second : List ε}
    (hsteps : EachStep step admissible state (first ++ second))
    (hfirst : run step state first = some middle) :
    EachStep step admissible state first ∧
      EachStep step admissible middle second := by
  induction first generalizing state with
  | nil =>
      simp only [run, Option.some.injEq] at hfirst
      exact ⟨trivial, hfirst ▸ hsteps⟩
  | cons label labels ih =>
      obtain ⟨next, hstep, hrest⟩ :=
        (run_cons_eq_some_iff step).mp hfirst
      simp only [List.cons_append, EachStep, hstep] at hsteps ⊢
      have hparts := ih hsteps.2 hrest
      exact ⟨⟨hsteps.1, hparts.1⟩, hparts.2⟩

theorem EachStep.of_append_left
    {admissible : σ → ε → Prop} {state : σ} {first second : List ε}
    (hsteps : EachStep step admissible state (first ++ second)) :
    EachStep step admissible state first := by
  induction first generalizing state with
  | nil => trivial
  | cons label labels ih =>
      refine ⟨hsteps.1, ?_⟩
      have hrest := hsteps.2
      cases hstep : step state label with
      | none => trivial
      | some next =>
          simp only [hstep] at hrest
          exact ih hrest

theorem EachStep.append
    {admissible : σ → ε → Prop} {state middle : σ} {first second : List ε}
    (hfirst : EachStep step admissible state first)
    (hrun : run step state first = some middle)
    (hsecond : EachStep step admissible middle second) :
    EachStep step admissible state (first ++ second) := by
  induction first generalizing state with
  | nil =>
      simp only [run, Option.some.injEq] at hrun
      exact hrun ▸ hsecond
  | cons label labels ih =>
      obtain ⟨next, hstep, hrest⟩ := (run_cons_eq_some_iff step).mp hrun
      simp only [List.cons_append, EachStep, hstep] at hfirst ⊢
      exact ⟨hfirst.1, ih hfirst.2 hrest⟩

theorem EachStep.singleton
    {admissible : σ → ε → Prop} {state : σ} {label : ε}
    (hadmissible : admissible state label) :
    EachStep step admissible state [label] := by
  refine ⟨hadmissible, ?_⟩
  cases step state label with
  | none => trivial
  | some next => trivial

theorem EachStep.of_forall
    {admissible : σ → ε → Prop} {labels : List ε}
    (hlabels : ∀ label ∈ labels, ∀ state, admissible state label)
    (state : σ) :
    EachStep step admissible state labels := by
  induction labels generalizing state with
  | nil => trivial
  | cons label labels ih =>
      refine ⟨hlabels label List.mem_cons_self state, ?_⟩
      cases step state label with
      | none => trivial
      | some next =>
          apply ih
          intro other hother
          exact hlabels other (List.mem_cons_of_mem _ hother)

theorem EachStep.and
    {first second : σ → ε → Prop} {state : σ} {labels : List ε}
    (hfirst : EachStep step first state labels)
    (hsecond : EachStep step second state labels) :
    EachStep step (fun state label => first state label ∧ second state label)
      state labels := by
  induction labels generalizing state with
  | nil => trivial
  | cons label labels ih =>
      refine ⟨⟨hfirst.1, hsecond.1⟩, ?_⟩
      cases hstep : step state label with
      | none => trivial
      | some next =>
          simp only [EachStep, hstep] at hfirst hsecond
          exact ih hfirst.2 hsecond.2

/-- A property that every admissible step preserves holds at the end of every
run of admissible steps. -/
theorem run_preserves
    (inv : σ → Prop) (admissible : σ → ε → Prop)
    (hstep : ∀ state label next, inv state → admissible state label →
      step state label = some next → inv next)
    {state final : σ} {labels : List ε} (hinv : inv state)
    (hrun : run step state labels = some final)
    (hadmissible : EachStep step admissible state labels) :
    inv final := by
  induction labels generalizing state with
  | nil =>
      simp only [run, Option.some.injEq] at hrun
      exact hrun ▸ hinv
  | cons label labels ih =>
      obtain ⟨next, hnext, hrest⟩ :=
        (run_cons_eq_some_iff step).mp hrun
      simp only [EachStep, hnext] at hadmissible
      have hpreserved :=
        hstep state label next hinv hadmissible.1 hnext
      exact ih hpreserved hrest hadmissible.2

/-- The case in which every enabled step preserves the property. -/
theorem run_invariant
    (inv : σ → Prop)
    (hstep : ∀ state label next, inv state →
      step state label = some next → inv next)
    {state final : σ} {labels : List ε} (hinv : inv state)
    (hrun : run step state labels = some final) :
    inv final := by
  apply run_preserves step inv (fun _ _ => True)
  · intro state label next hstate _ hnext
    exact hstep state label next hstate hnext
  · exact hinv
  · exact hrun
  · apply EachStep.of_forall
    intros
    trivial

/-- A property of a state and of the labels that have led to it. -/
theorem run_history
    {first final : σ} {labels : List ε} (inv : List ε → σ → Prop)
    (hstep :
      ∀ past state label next, run step first past = some state →
        inv past state → step state label = some next →
          inv (past ++ [label]) next)
    (hinv : inv [] first) (hrun : run step first labels = some final) :
    inv labels final := by
  suffices hgeneral :
      ∀ past state, run step first past = some state → inv past state →
        run step state labels = some final → inv (past ++ labels) final from
    hgeneral [] first rfl hinv hrun
  clear hinv hrun
  induction labels with
  | nil =>
      intro past state _ hstate hrest
      obtain rfl := Option.some.inj hrest
      rwa [List.append_nil]
  | cons label labels ih =>
      intro past state hpast hstate hrest
      obtain ⟨next, hnext, hafter⟩ := (run_cons_eq_some_iff step).mp hrest
      have hlonger : run step first (past ++ [label]) = some next := by
        rw [run_append step hpast]
        simp only [run, hnext]
      have hkept :=
        ih (past ++ [label]) next hlonger
          (hstep past state label next hpast hstate hnext) hafter
      rwa [List.append_assoc, List.singleton_append] at hkept

/-- When a step that is not admissible spoils the state for good, a run that
does not end spoilt consists of admissible steps. -/
theorem EachStep.of_not_spoilt
    {admissible : σ → ε → Prop} (spoilt : σ → Prop)
    (hkeeps :
      ∀ state label next, spoilt state → step state label = some next →
        spoilt next)
    (hspoils :
      ∀ state label next, ¬ admissible state label →
        step state label = some next → spoilt next)
    {state final : σ} {labels : List ε}
    (hrun : run step state labels = some final) (hfinal : ¬ spoilt final) :
    EachStep step admissible state labels := by
  induction labels generalizing state with
  | nil => trivial
  | cons label labels ih =>
      obtain ⟨next, hnext, hrest⟩ := (run_cons_eq_some_iff step).mp hrun
      have hclean : ¬ spoilt next := by
        intro hspoilt
        exact hfinal
          (run_invariant step spoilt hkeeps hspoilt hrest)
      simp only [EachStep, hnext]
      refine ⟨?_, ih hrest⟩
      by_contra hadmissible
      exact hclean (hspoils state label next hadmissible hnext)

/-- When the invariant makes every admissible step possible, every sequence of
admissible steps is a run. -/
theorem run_total
    (inv : σ → Prop) (admissible : σ → ε → Prop)
    (hstep :
      ∀ state label, inv state → admissible state label →
        ∃ next, step state label = some next ∧ inv next)
    {state : σ} {labels : List ε} (hinv : inv state)
    (hadm : EachStep step admissible state labels) :
    ∃ final, run step state labels = some final ∧ inv final := by
  induction labels generalizing state with
  | nil => exact ⟨state, rfl, hinv⟩
  | cons label labels ih =>
      rcases hstep state label hinv hadm.1 with ⟨next, hnext, hkept⟩
      simp only [EachStep, hnext] at hadm
      rcases ih hkept hadm.2 with ⟨final, hrun, hfinal⟩
      exact ⟨final, by simp only [run, hnext, hrun], hfinal⟩

end Runs

/-! ## Simulations -/

section Simulations

variable {σ τ ε δ : Type} (step : σ → ε → Option σ)
    (spec : τ → δ → Option τ) (translate : σ → ε → δ)

/-- The labels of a run, each translated in the state in which it is taken. -/
def translated : σ → List ε → List δ
  | _, [] => []
  | state, label :: labels =>
      translate state label ::
        match step state label with
        | none => []
        | some next => translated next labels

/-- When every admissible step is a step of the specification, a run of
admissible steps is a run of the specification. -/
theorem run_simulates
    (rel : σ → τ → Prop) (admissible : σ → ε → Prop)
    (hstep :
      ∀ state abstract label next, rel state abstract →
        admissible state label → step state label = some next →
          ∃ after, spec abstract (translate state label) = some after ∧
            rel next after)
    {state final : σ} {abstract : τ} {labels : List ε}
    (hrel : rel state abstract) (hrun : run step state labels = some final)
    (hadmissible : EachStep step admissible state labels) :
    ∃ last,
      run spec abstract (translated step translate state labels) =
          some last ∧
        rel final last := by
  induction labels generalizing state abstract with
  | nil =>
      simp only [run, Option.some.injEq] at hrun
      exact ⟨abstract, rfl, hrun ▸ hrel⟩
  | cons label labels ih =>
      obtain ⟨next, hnext, hrest⟩ := (run_cons_eq_some_iff step).mp hrun
      simp only [EachStep, hnext] at hadmissible
      obtain ⟨after, hafter, hkept⟩ :=
        hstep state abstract label next hrel hadmissible.1 hnext
      obtain ⟨last, hlast, hfinal⟩ := ih hkept hrest hadmissible.2
      refine ⟨last, ?_, hfinal⟩
      simp only [translated, hnext, run, hafter, hlast]

/-- When every admissible label is possible and is a step of the
specification, every sequence of admissible labels is a run of both. -/
theorem run_total_simulates
    (rel : σ → τ → Prop) (admissible : σ → ε → Prop)
    (hstep :
      ∀ state abstract label, rel state abstract →
        admissible state label →
          ∃ next after, step state label = some next ∧
            spec abstract (translate state label) = some after ∧
              rel next after)
    {state : σ} {abstract : τ} {labels : List ε}
    (hrel : rel state abstract)
    (hadmissible : EachStep step admissible state labels) :
    ∃ final last,
      run step state labels = some final ∧
        run spec abstract (translated step translate state labels) =
            some last ∧
          rel final last := by
  induction labels generalizing state abstract with
  | nil => exact ⟨state, abstract, rfl, rfl, hrel⟩
  | cons label labels ih =>
      obtain ⟨next, after, hnext, hafter, hkept⟩ :=
        hstep state abstract label hrel hadmissible.1
      simp only [EachStep, hnext] at hadmissible
      obtain ⟨final, last, hrun, hlast, hfinal⟩ := ih hkept hadmissible.2
      refine ⟨final, last, ?_, ?_, hfinal⟩
      · simp only [run, hnext, hrun]
      · simp only [translated, hnext, run, hafter, hlast]

/-- Labels that are translated without a look at the state. -/
theorem translated_of_run
    (entry : ε → δ) {state final : σ} {labels : List ε}
    (hrun : run step state labels = some final) :
    translated step (fun _ => entry) state labels = labels.map entry := by
  induction labels generalizing state with
  | nil => rfl
  | cons label labels ih =>
      obtain ⟨next, hnext, hrest⟩ := (run_cons_eq_some_iff step).mp hrun
      simp only [translated, hnext, ih hrest, List.map_cons]

end Simulations

end GreenTurtle.Execution
