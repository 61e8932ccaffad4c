import GreenTurtle.UnorderedList
import Mathlib.Tactic

/-!
# Handles of an `unordered_list`

A caller keeps the index that `insert` returned and passes it to `erase` and
`get`.  What such an index stands for is a matter of the calls alone: the value
last inserted there, until it is erased.  The list agrees with this as long as
no index is erased a second time before it is handed out again.
-/

namespace GreenTurtle.UnorderedList

open Execution

variable {α : Type}

inductive ListCall (α : Type) where
  | insert (v : α)
  | erase (idx : ℕ)

/-- The list, the indices that were returned so far, and what each index stands
for by the calls made so far. -/
structure ListHistory (α : Type) where
  list : UnorderedList α
  returned : List ℕ
  live : ℕ → Option α

namespace ListHistory

def start [Inhabited α] (marker : α) : ListHistory α where
  list := new.setDeleted marker
  returned := []
  live := fun _ => none

def step (history : ListHistory α) : ListCall α → Option (ListHistory α)
  | .insert v =>
      let inserted := history.list.insert v
      some
        { list := inserted.2
          returned := history.returned ++ [inserted.1]
          live := Function.update history.live inserted.1 (some v) }
  | .erase idx =>
      some
        { history with
          list := history.list.erase idx
          live := Function.update history.live idx none }

end ListHistory

/-- What is asked of the caller: no insertion of the marker, and only indices
that were returned are erased. -/
def ListCallAllowed (history : ListHistory α) : ListCall α → Prop
  | .insert v => v ≠ history.list.deleted
  | .erase idx => idx ∈ history.returned

/-- An index is erased only while it stands for a value. -/
def ErasesLive (history : ListHistory α) : ListCall α → Prop
  | .insert _ => True
  | .erase idx => history.live idx ≠ none

instance [DecidableEq α] (history : ListHistory α) (call : ListCall α) :
    Decidable (ListCallAllowed history call) := by
  unfold ListCallAllowed
  split <;> infer_instance

instance [DecidableEq α] (history : ListHistory α) (call : ListCall α) :
    Decidable (ErasesLive history call) := by
  unfold ErasesLive
  split <;> infer_instance

/-- The list agrees with the calls: `insert` would return an index that stands
for nothing, `get` finds every value, and a traversal whose callback goes on
visits the values in the order of their indices. -/
structure HandlesExact [DecidableEq α] [Inhabited α]
    (history : ListHistory α) : Prop where
  insert_free : ∀ v, history.live (history.list.insert v).1 = none
  get_live : ∀ idx v, history.live idx = some v → history.list.get idx = v
  visits :
    ∃ cells : List (α × ℕ),
      cells.Pairwise (·.2 < ·.2) ∧
        (∀ v idx, (v, idx) ∈ cells ↔ history.live idx = some v) ∧
          ∀ (σ : Type) (fn : α → ℕ → σ → σ) (state : σ),
            ∃ bound, ∀ fuel, bound ≤ fuel →
              forEach (fun _ => history.list)
                  (fun v iter state => .ok (true, fn v iter state)) fuel 0
                  state =
                .ok
                  (cells.foldl (fun state cell => fn cell.1 cell.2 state)
                    state)

/-! ## Traversals that leave the list alone -/

section Traversal

variable [DecidableEq α]

/-- The live cells below an index, in the order in which they are visited. -/
def cellsBefore (l : UnorderedList α) (iter : ℕ) : List (α × ℕ) :=
  ((l.list.take iter).zipIdx).filter fun cell => cell.1 ≠ l.deleted

theorem cellsBefore_succ
    {l : UnorderedList α} {iter : ℕ} {v : α}
    (hcell : l.list[iter]? = some v) :
    l.cellsBefore (iter + 1) =
      l.cellsBefore iter ++ if v = l.deleted then [] else [(v, iter)] := by
  have hiter := (List.getElem?_eq_some_iff.mp hcell).1
  have hlength : (l.list.take iter).length = iter :=
    List.length_take_of_le hiter.le
  unfold cellsBefore
  rw [List.take_add_one, hcell, Option.toList_some, List.zipIdx_append,
    List.filter_append, hlength]
  by_cases hdeleted : v = l.deleted <;> simp [hdeleted]

theorem mem_cellsBefore
    {l : UnorderedList α} {iter : ℕ} (hiter : l.list.length ≤ iter)
    (v : α) (idx : ℕ) :
    (v, idx) ∈ l.cellsBefore iter ↔
      l.list[idx]? = some v ∧ v ≠ l.deleted := by
  unfold cellsBefore
  rw [List.take_of_length_le hiter]
  simp [List.mem_zipIdx_iff_getElem?]

theorem cellsBefore_increasing (l : UnorderedList α) (iter : ℕ) :
    (l.cellsBefore iter).Pairwise (·.2 < ·.2) := by
  apply List.Pairwise.filter
  rw [← List.pairwise_map (f := Prod.snd)]
  simp [List.pairwise_lt_range']

theorem forEach_constant
    (l : UnorderedList α) {σ : Type} (fn : α → ℕ → σ → σ) (state : σ) :
    ∃ bound, ∀ fuel, bound ≤ fuel →
      forEach (fun _ => l)
          (fun v iter state => .ok (true, fn v iter state)) fuel 0 state =
        .ok
          ((l.cellsBefore l.list.length).foldl
            (fun state cell => fn cell.1 cell.2 state) state) := by
  let visited : ℕ → σ := fun iter =>
    (l.cellsBefore iter).foldl (fun state cell => fn cell.1 cell.2 state)
      state
  have htotal :
      ∃ final bound, final = visited l.list.length ∧
        ∀ fuel rounds, bound ≤ fuel → bound ≤ rounds →
          forEach (fun _ => l)
              (fun v iter state => .ok (true, fn v iter state)) rounds 0
              state =
            .ok final := by
    apply @forEach_total _ _ _ (fun _ : σ => l)
      (fun _ v iter state => .ok (true, fn v iter state))
      (fun iter state => state = visited iter)
    · intros
      rfl
    · intro iter current hcurrent hcell
      rw [hcurrent]
      simp [visited, cellsBefore_succ hcell]
    · intro iter current v hcurrent hcell hlive
      refine ⟨fn v iter current, 0, ?_, fun _ _ => rfl⟩
      rw [hcurrent]
      simp [visited, cellsBefore_succ hcell, hlive]
    · exact Nat.zero_le _
    · rfl
  rcases htotal with ⟨final, bound, hfinal, hreturns⟩
  refine ⟨bound, ?_⟩
  intro fuel hfuel
  rw [hreturns fuel fuel hfuel hfuel, hfinal]

end Traversal

/-! ## Every call keeps the list in agreement with the calls -/

/-- The cells and the free list behind `HandlesExact`. -/
structure Agrees (marker : α) (history : ListHistory α) : Prop where
  deleted : history.list.deleted = marker
  freeListExact : history.list.FreeListExact
  live_iff :
    ∀ idx v, history.live idx = some v ↔
      history.list.list[idx]? = some v ∧ v ≠ marker

theorem Agrees.start [Inhabited α] (marker : α) :
    Agrees marker (ListHistory.start marker) := by
  constructor
  · rfl
  · exact setDeleted_new_freeListExact marker
  · intro idx v
    simp [ListHistory.start, setDeleted, new]

theorem Agrees.insert
    {marker : α} {history : ListHistory α} (hagrees : Agrees marker history)
    {v : α} (hlive : v ≠ history.list.deleted) :
    Agrees marker
      { list := (history.list.insert v).2
        returned := history.returned ++ [(history.list.insert v).1]
        live :=
          Function.update history.live (history.list.insert v).1
            (some v) } := by
  constructor
  · exact (insert_deleted v history.list).trans hagrees.deleted
  · exact hagrees.freeListExact.insert hlive
  · intro idx found
    dsimp only
    rw [hagrees.freeListExact.insert_getElem?]
    by_cases heq : idx = (history.list.insert v).1
    · rw [hagrees.deleted] at hlive
      subst idx
      simp only [Function.update_self, if_true, Option.some.injEq]
      constructor
      · intro hfound
        exact ⟨hfound, hfound ▸ hlive⟩
      · intro hfound
        exact hfound.1
    · simp only [heq, if_false, Function.update_of_ne heq]
      exact hagrees.live_iff idx found

theorem Agrees.erase
    {marker : α} {history : ListHistory α} (hagrees : Agrees marker history)
    {idx : ℕ} (hlive : history.live idx ≠ none) :
    Agrees marker
      { history with
        list := history.list.erase idx
        live := Function.update history.live idx none } := by
  rcases Option.ne_none_iff_exists'.mp hlive with ⟨v, hv⟩
  rcases (hagrees.live_iff idx v).mp hv with ⟨hcell, hne⟩
  have hidx := (List.getElem?_eq_some_iff.mp hcell).1
  constructor
  · exact hagrees.deleted
  · exact hagrees.freeListExact.erase hcell (hagrees.deleted ▸ hne)
  · intro other found
    dsimp only
    rw [erase_getElem? hidx, hagrees.deleted]
    by_cases heq : other = idx
    · subst other
      simp only [Function.update_self, if_true, Option.some.injEq,
        reduceCtorEq, false_iff, not_and, not_not]
      intro hfound
      exact hfound.symm
    · simp only [heq, if_false, Function.update_of_ne heq]
      exact hagrees.live_iff other found

theorem Agrees.step
    {marker : α} {history next : ListHistory α} {call : ListCall α}
    (hagrees : Agrees marker history)
    (hallowed : ListCallAllowed history call)
    (hlive : ErasesLive history call)
    (hstep : history.step call = some next) :
    Agrees marker next := by
  cases call with
  | insert v =>
      simp only [ListHistory.step, Option.some.injEq] at hstep
      subst next
      exact hagrees.insert hallowed
  | erase idx =>
      simp only [ListHistory.step, Option.some.injEq] at hstep
      subst next
      exact hagrees.erase hlive

theorem Agrees.handlesExact [DecidableEq α] [Inhabited α]
    {marker : α} {history : ListHistory α}
    (hagrees : Agrees marker history) :
    HandlesExact history := by
  constructor
  · intro v
    rw [Option.eq_none_iff_forall_ne_some]
    intro found hfound
    rcases (hagrees.live_iff _ found).mp hfound with ⟨hcell, hne⟩
    rcases hagrees.freeListExact.insert_index_free v with hnone | hdeleted
    · simp [hcell] at hnone
    · rw [hcell, Option.some.injEq, hagrees.deleted] at hdeleted
      exact hne hdeleted
  · intro idx v hfound
    rcases (hagrees.live_iff idx v).mp hfound with ⟨hcell, hne⟩
    simp [get, hcell, hagrees.deleted, hne]
  · refine ⟨history.list.cellsBefore history.list.list.length,
      cellsBefore_increasing _ _, ?_, ?_⟩
    · intro v idx
      rw [mem_cellsBefore le_rfl, hagrees.live_iff, hagrees.deleted]
    · intro σ fn state
      exact forEach_constant history.list fn state

/-- In every history in which an index is erased only while it stands for a
value, the indices, the cells and the traversal agree with the calls. -/
theorem unorderedList_handles_exact [DecidableEq α] [Inhabited α]
    (marker : α) {calls : List (ListCall α)} {final : ListHistory α}
    (hrun :
      run ListHistory.step (ListHistory.start marker) calls = some final)
    (hallowed :
      EachStep ListHistory.step ListCallAllowed (ListHistory.start marker)
        calls)
    (hlive :
      EachStep ListHistory.step ErasesLive (ListHistory.start marker)
        calls) :
    HandlesExact final := by
  have hagrees : Agrees marker final := by
    apply run_preserves ListHistory.step (Agrees marker)
      (fun history call =>
        ListCallAllowed history call ∧ ErasesLive history call)
    · intro history call next hnow hcall hstep
      exact hnow.step hcall.1 hcall.2 hstep
    · exact Agrees.start marker
    · exact hrun
    · exact EachStep.and _ hallowed hlive
  exact hagrees.handlesExact

theorem unorderedList_handles_exact_after_reuse :
    ∃ final : ListHistory ℤ,
      run ListHistory.step (ListHistory.start (-1))
          [.insert 1, .insert 2, .erase 0, .insert 3] =
        some final ∧
      final.returned = [0, 1, 0] ∧ HandlesExact final := by
  refine ⟨_, rfl, rfl, ?_⟩
  have hallowed :
      EachStep ListHistory.step ListCallAllowed (ListHistory.start (-1))
        [.insert 1, .insert 2, .erase 0, .insert 3] := by
    decide
  exact unorderedList_handles_exact (-1) rfl hallowed (by decide)

/-- The index is erased twice, so it is handed out twice as well. -/
theorem unorderedList_double_erase_reuses :
    ∃ final : ListHistory ℤ,
      run ListHistory.step (ListHistory.start (-1))
          [.insert 1, .erase 0, .erase 0, .insert 2] =
        some final ∧
      EachStep ListHistory.step ListCallAllowed (ListHistory.start (-1))
        [.insert 1, .erase 0, .erase 0, .insert 2] ∧
      ¬ HandlesExact final := by
  refine ⟨_, rfl, by decide, ?_⟩
  intro hexact
  have hfree := hexact.insert_free 3
  revert hfree
  decide

end GreenTurtle.UnorderedList
