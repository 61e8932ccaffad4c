import GreenTurtle.UnorderedListHandles
import Mathlib.Tactic

/-!
# Traversals whose callback changes the list

The callback of `for_each` may insert into the list that is being traversed and
erase from it.  A traversal is recorded as a trace of what the loop and the
callback do, in which every event stands with the list it leaves behind.
-/

namespace GreenTurtle.UnorderedList

open Execution

variable {α σ : Type}

/-! ## Callbacks and their traces -/

inductive TraversalEvent (α : Type) where
  | passed (v : α) (idx : ℕ)
  | inserted (v : α) (idx : ℕ)
  | erased (idx : ℕ)
  | returned (idx : ℕ) (goOn : Bool)
  deriving DecidableEq

abbrev TraversalTrace (α : Type) :=
  List (TraversalEvent α × UnorderedList α)

def ListCall.apply (l : UnorderedList α) : ListCall α → UnorderedList α
  | .insert v => (l.insert v).2
  | .erase idx => l.erase idx

def ListCall.event (l : UnorderedList α) : ListCall α → TraversalEvent α
  | .insert v => .inserted v (l.insert v).1
  | .erase idx => .erased idx

def callTrace : UnorderedList α → List (ListCall α) → TraversalTrace α
  | _, [] => []
  | l, call :: calls =>
      (call.event l, call.apply l) :: callTrace (call.apply l) calls

/-- A callback works on a state that contains the list, and does nothing to the
list but a sequence of calls. -/
structure Callback (α σ : Type) where
  view : σ → UnorderedList α
  fn : α → ℕ → σ → Bool × σ
  calls : α → ℕ → σ → List (ListCall α)
  view_fn : ∀ v idx state,
    view (fn v idx state).2 =
      (calls v idx state).foldl ListCall.apply (view state)

structure Traversal (α σ : Type) where
  state : σ
  trace : TraversalTrace α

namespace Callback

variable (callback : Callback α σ)

/-- A call of the callback, with what it adds to the trace. -/
def visit (v : α) (idx : ℕ) (walk : Traversal α σ) :
    Bool × Traversal α σ :=
  let l := callback.view walk.state
  let result := callback.fn v idx walk.state
  (result.1,
    { state := result.2
      trace :=
        walk.trace ++
          ((.passed v idx, l) ::
            (callTrace l (callback.calls v idx walk.state) ++
              [(.returned idx result.1, callback.view result.2)])) })

def traverse [DecidableEq α] (fuel : ℕ) (state : σ) :
    Except (Traversal α σ) (Traversal α σ) :=
  forEach (fun walk : Traversal α σ => callback.view walk.state)
    (fun v idx walk => .ok (callback.visit v idx walk)) fuel 0 ⟨state, []⟩

end Callback

/-! ## What is said of a trace -/

/-- The cells that were passed to the callback. -/
def passes (trace : TraversalTrace α) : List (α × ℕ) :=
  trace.filterMap fun entry =>
    match entry.1 with
    | .passed v idx => some (v, idx)
    | _ => none

def insertions (trace : TraversalTrace α) : ℕ :=
  trace.countP fun entry =>
    match entry.1 with
    | .inserted _ _ => true
    | _ => false

/-- The value is in its cell at the beginning and after every event. -/
structure StaysLive
    (l : UnorderedList α) (trace : TraversalTrace α) (v : α) (idx : ℕ) :
    Prop where
  live : v ≠ l.deleted
  start : l.list[idx]? = some v
  throughout : ∀ entry ∈ trace, entry.2.list[idx]? = some v

/-- The callback has returned false at a smaller index. -/
def StoppedBefore (trace : TraversalTrace α) (idx : ℕ) : Prop :=
  ∃ stop l, (.returned stop false, l) ∈ trace ∧ stop < idx

/-- Once its cell has been erased, an index is passed only with a value that
has been inserted there since. -/
def PassedIfRefilled (trace : TraversalTrace α) : Prop :=
  ∀ before between after idx v erased passed,
    trace =
        before ++
          (.erased idx, erased) ::
            (between ++ (.passed v idx, passed) :: after) →
      ∃ refilled, (.inserted v idx, refilled) ∈ between

@[simp] theorem passes_append (first second : TraversalTrace α) :
    passes (first ++ second) = passes first ++ passes second :=
  List.filterMap_append

theorem StaysLive.of_append
    {l : UnorderedList α} {first second : TraversalTrace α} {v : α}
    {idx : ℕ} (hstays : StaysLive l (first ++ second) v idx) :
    StaysLive l first v idx :=
  ⟨hstays.live, hstays.start, fun entry hentry =>
    hstays.throughout entry (List.mem_append_left _ hentry)⟩

/-- In a list that increases, an index occurs once. -/
theorem filter_eq_singleton
    {cells : List (α × ℕ)} (hincreasing : cells.Pairwise (·.2 < ·.2))
    {v : α} {idx : ℕ} (hmem : (v, idx) ∈ cells) :
    cells.filter (·.2 = idx) = [(v, idx)] := by
  induction cells with
  | nil => simp at hmem
  | cons cell cells ih =>
      rw [List.pairwise_cons] at hincreasing
      cases List.mem_cons.mp hmem with
      | inl hfirst =>
          subst cell
          have hothers : cells.filter (·.2 = idx) = [] := by
            rw [List.filter_eq_nil_iff]
            intro other hother
            have hlt := hincreasing.1 other hother
            simp only [decide_eq_true_eq]
            omega
          rw [List.filter_cons_of_pos (by simp), hothers]
      | inr hrest =>
          have hlt := hincreasing.1 (v, idx) hrest
          rw [List.filter_cons_of_neg (by simp only [decide_eq_true_eq]; omega)]
          exact ih hincreasing.2 hrest

/-! ## Every event is a step of the list -/

def TraversalEvent.Leads
    (l next : UnorderedList α) : TraversalEvent α → Prop
  | .passed v idx =>
      next = l ∧ l.list[idx]? = some v ∧ v ≠ l.deleted
  | .inserted v idx => l.insert v = (idx, next)
  | .erased idx => next = l.erase idx
  | .returned _ _ => next = l

/-- The trace leads from one list to another. -/
def Chained : UnorderedList α → TraversalTrace α → UnorderedList α → Prop
  | l, [], last => l = last
  | l, (event, next) :: trace, last =>
      event.Leads l next ∧ Chained next trace last

theorem chained_append
    {l last : UnorderedList α} {first second : TraversalTrace α} :
    Chained l (first ++ second) last ↔
      ∃ middle, Chained l first middle ∧ Chained middle second last := by
  induction first generalizing l with
  | nil => simp [Chained]
  | cons entry first ih =>
      obtain ⟨event, next⟩ := entry
      simp only [List.cons_append, Chained, ih]
      constructor
      · rintro ⟨hevent, middle, hfirst, hsecond⟩
        exact ⟨middle, ⟨hevent, hfirst⟩, hsecond⟩
      · rintro ⟨middle, ⟨hevent, hfirst⟩, hsecond⟩
        exact ⟨hevent, middle, hfirst, hsecond⟩

theorem chained_callTrace (l : UnorderedList α) (calls : List (ListCall α)) :
    Chained l (callTrace l calls) (calls.foldl ListCall.apply l) := by
  induction calls generalizing l with
  | nil => rfl
  | cons call calls ih =>
      refine ⟨?_, ih (call.apply l)⟩
      cases call <;> rfl

theorem passes_callTrace (l : UnorderedList α) (calls : List (ListCall α)) :
    passes (callTrace l calls) = [] := by
  induction calls generalizing l with
  | nil => rfl
  | cons call calls ih =>
      cases call <;> exact ih _

theorem not_returned_callTrace
    (l next : UnorderedList α) (calls : List (ListCall α)) (idx : ℕ)
    (goOn : Bool) :
    (.returned idx goOn, next) ∉ callTrace l calls := by
  induction calls generalizing l with
  | nil => simp [callTrace]
  | cons call calls ih =>
      cases call <;> simp [callTrace, ListCall.event, ih]

section Events

variable {l next last : UnorderedList α} {event : TraversalEvent α}
  {trace : TraversalTrace α}

theorem TraversalEvent.Leads.deleted_eq (hleads : event.Leads l next) :
    next.deleted = l.deleted := by
  cases event with
  | passed v idx => rw [hleads.1]
  | inserted v idx =>
      have hdeleted := insert_deleted v l
      rw [hleads] at hdeleted
      exact hdeleted
  | erased idx =>
      rw [hleads]
      rfl
  | returned idx goOn => rw [hleads]

theorem TraversalEvent.Leads.cell
    (hleads : event.Leads l next) {w : α} {idx : ℕ}
    (hcell : next.list[idx]? = some w) (hlive : w ≠ l.deleted) :
    event = .inserted w idx ∨ l.list[idx]? = some w := by
  cases event with
  | passed v other =>
      rw [hleads.1] at hcell
      exact .inr hcell
  | inserted v other =>
      have hinsert : l.insert v = (other, next) := hleads
      have hnext : (l.insert v).2.list[idx]? = some w := by
        rw [hinsert]
        exact hcell
      cases insert_cell hnext with
      | inl hnew =>
          obtain ⟨hidx, rfl⟩ := hnew
          rw [hinsert] at hidx
          exact .inl (congrArg (TraversalEvent.inserted v) hidx)
      | inr hold => exact .inr hold
  | erased other =>
      rw [hleads] at hcell
      cases erase_cell hcell with
      | inl hdeleted => exact absurd hdeleted hlive
      | inr hold => exact .inr hold.2
  | returned other goOn =>
      rw [hleads] at hcell
      exact .inr hcell

theorem TraversalEvent.Leads.length (hleads : event.Leads l next) :
    l.list.length ≤ next.list.length ∧
      next.list.length ≤ l.list.length + insertions [(event, next)] := by
  cases event with
  | passed v idx => simp [hleads.1, insertions]
  | inserted v idx =>
      have hinsert : l.insert v = (idx, next) := hleads
      have hlength :
          (l.insert v).2.list.length = l.list.length ∨
            (l.insert v).2.list.length = l.list.length + 1 := by
        unfold insert
        cases l.freeList <;> simp
      simp only [hinsert] at hlength
      simp only [insertions, List.countP_singleton, if_true]
      omega
  | erased idx =>
      have hnext : next = l.erase idx := hleads
      simp [hnext, insertions]
  | returned idx goOn =>
      have hnext : next = l := hleads
      simp [hnext, insertions]

theorem Chained.deleted_eq (hchained : Chained l trace last) :
    last.deleted = l.deleted := by
  induction trace generalizing l with
  | nil => rw [show l = last from hchained]
  | cons entry trace ih =>
      rw [ih hchained.2, hchained.1.deleted_eq]

/-- Where a live cell at the end of a trace comes from. -/
theorem Chained.cell
    (hchained : Chained l trace last) {w : α} {idx : ℕ}
    (hcell : last.list[idx]? = some w) (hlive : w ≠ l.deleted) :
    (∃ refilled, (.inserted w idx, refilled) ∈ trace) ∨
      l.list[idx]? = some w := by
  induction trace generalizing l with
  | nil =>
      rw [show l = last from hchained]
      exact .inr hcell
  | cons entry trace ih =>
      obtain ⟨event, next⟩ := entry
      obtain ⟨hleads, hrest⟩ := hchained
      have hstill : w ≠ next.deleted := by
        rw [hleads.deleted_eq]
        exact hlive
      cases ih hrest hstill with
      | inl hlater =>
          obtain ⟨refilled, hrefilled⟩ := hlater
          exact .inl ⟨refilled, List.mem_cons_of_mem _ hrefilled⟩
      | inr hnext =>
          cases hleads.cell hnext hlive with
          | inl hnow =>
              subst event
              exact .inl ⟨next, List.mem_cons_self⟩
          | inr hold => exact .inr hold

theorem Chained.passedIfRefilled (hchained : Chained l trace last) :
    PassedIfRefilled trace := by
  intro before between after idx v erased passed hsplit
  rw [hsplit, chained_append] at hchained
  obtain ⟨first, -, herased, hrest⟩ := hchained
  rw [chained_append] at hrest
  obtain ⟨middle, hbetween, hpassed, -⟩ := hrest
  obtain ⟨-, hcell, hlive⟩ := hpassed
  -- a live cell was filled in between, or it was live right after the erasure
  have hkept : first.deleted = erased.deleted := herased.deleted_eq.symm
  rw [hbetween.deleted_eq] at hlive
  cases hbetween.cell hcell hlive with
  | inl hrefilled => exact hrefilled
  | inr hold =>
      rw [show erased = first.erase idx from herased] at hold
      cases erase_cell hold with
      | inl hdeleted => exact absurd (hdeleted.trans hkept) hlive
      | inr hother => exact absurd rfl hother.1

theorem Chained.length (hchained : Chained l trace last) :
    l.list.length ≤ last.list.length ∧
      last.list.length ≤ l.list.length + insertions trace := by
  induction trace generalizing l with
  | nil => simp [show l = last from hchained, insertions]
  | cons entry trace ih =>
      obtain ⟨event, next⟩ := entry
      have hfirst := hchained.1.length
      have hrest := ih hchained.2
      have hsum :
          insertions ((event, next) :: trace) =
            insertions [(event, next)] + insertions trace := by
        simp only [insertions, List.countP_cons, List.countP_nil]
        omega
      omega

theorem StaysLive.cell
    {v : α} {idx : ℕ} (hstays : StaysLive l trace v idx)
    (hchained : Chained l trace last) :
    last.list[idx]? = some v := by
  induction trace generalizing l with
  | nil =>
      rw [← show l = last from hchained]
      exact hstays.start
  | cons entry trace ih =>
      apply ih ⟨?_, ?_, ?_⟩ hchained.2
      · rw [hchained.1.deleted_eq]
        exact hstays.live
      · exact hstays.throughout entry List.mem_cons_self
      · intro later hlater
        exact hstays.throughout later (List.mem_cons_of_mem _ hlater)

end Events

/-! ## The traversal -/

section Walk

variable {callback : Callback α σ} {l : UnorderedList α} {iter : ℕ}
  {walk : Traversal α σ}

/-- What holds of a traversal that has reached an index. -/
structure Walked
    (callback : Callback α σ) (l : UnorderedList α) (iter : ℕ)
    (walk : Traversal α σ) : Prop where
  chained : Chained l walk.trace (callback.view walk.state)
  increasing : (passes walk.trace).Pairwise (·.2 < ·.2)
  below : ∀ cell ∈ passes walk.trace, cell.2 < iter
  reached : ∀ v idx, idx < iter → StaysLive l walk.trace v idx →
    (v, idx) ∈ passes walk.trace

def NeverStopped (trace : TraversalTrace α) : Prop :=
  ∀ stop l, (.returned stop false, l) ∉ trace

theorem passes_visit (v : α) :
    passes (callback.visit v iter walk).2.trace =
      passes walk.trace ++ [(v, iter)] := by
  simp only [Callback.visit, passes_append]
  congr 1
  change (v, iter) :: passes (callTrace _ _ ++ _) = _
  rw [passes_append, passes_callTrace]
  rfl

theorem returned_mem_visit_iff
    (hrunning : NeverStopped walk.trace) (v : α) (stop : ℕ) :
    (∃ next, (.returned stop false, next) ∈
        (callback.visit v iter walk).2.trace) ↔
      stop = iter ∧ (callback.visit v iter walk).1 = false := by
  have hbefore : ∀ next, (.returned stop false, next) ∉ walk.trace :=
    hrunning stop
  simp only [Callback.visit, List.mem_append, List.mem_cons, Prod.mk.injEq,
    reduceCtorEq, false_and, false_or, hbefore, not_returned_callTrace,
    TraversalEvent.returned.injEq, List.not_mem_nil, or_false]
  constructor
  · rintro ⟨next, ⟨hstop, hfalse⟩, -⟩
    exact ⟨hstop, hfalse.symm⟩
  · rintro ⟨hstop, hfalse⟩
    exact ⟨_, ⟨hstop, hfalse.symm⟩, rfl⟩

theorem Walked.start (state : σ) :
    Walked callback (callback.view state) 0 ⟨state, []⟩ where
  chained := rfl
  increasing := List.Pairwise.nil
  below := by simp [passes]
  reached := by simp

theorem Walked.skip
    (hwalked : Walked callback l iter walk)
    (hcell :
      (callback.view walk.state).list[iter]? =
        some (callback.view walk.state).deleted) :
    Walked callback l (iter + 1) walk where
  chained := hwalked.chained
  increasing := hwalked.increasing
  below := by
    intro cell hpassed
    exact (hwalked.below cell hpassed).trans (Nat.lt_succ_self iter)
  reached := by
    intro v idx hidx hstays
    by_cases heq : idx = iter
    · -- the cell is deleted, so nothing stays in it
      subst idx
      have hlast := hstays.cell hwalked.chained
      rw [hcell, Option.some.injEq, hwalked.chained.deleted_eq] at hlast
      exact absurd hlast.symm hstays.live
    · exact hwalked.reached v idx (by omega) hstays

theorem Walked.visit
    (hwalked : Walked callback l iter walk) {v : α}
    (hcell : (callback.view walk.state).list[iter]? = some v)
    (hlive : v ≠ (callback.view walk.state).deleted) :
    Walked callback l (iter + 1) (callback.visit v iter walk).2 where
  chained := by
    refine chained_append.mpr ⟨_, hwalked.chained, ⟨rfl, hcell, hlive⟩, ?_⟩
    refine chained_append.mpr ⟨_, chained_callTrace _ _, ?_, rfl⟩
    exact callback.view_fn v iter walk.state
  increasing := by
    rw [passes_visit, List.pairwise_append]
    refine ⟨hwalked.increasing, List.pairwise_singleton _ _, ?_⟩
    intro cell hpassed last hlast
    rw [List.mem_singleton] at hlast
    subst last
    exact hwalked.below cell hpassed
  below := by
    intro cell hpassed
    rw [passes_visit, List.mem_append, List.mem_singleton] at hpassed
    cases hpassed with
    | inl hold => exact (hwalked.below cell hold).trans (Nat.lt_succ_self _)
    | inr hnew =>
        subst cell
        exact Nat.lt_succ_self _
  reached := by
    intro w idx hidx hstays
    rw [passes_visit, List.mem_append, List.mem_singleton]
    have hbefore : StaysLive l walk.trace w idx := hstays.of_append
    by_cases heq : idx = iter
    · -- the value that stayed here is the one that has just been passed
      subst idx
      have hlast := hbefore.cell hwalked.chained
      rw [hcell, Option.some.injEq] at hlast
      subst w
      exact .inr rfl
    · exact .inl (hwalked.reached w idx (by omega) hbefore)

/-- When the traversal is over, the values that stayed were passed once each,
up to the index at which the callback stopped it. -/
def PassedOnce (l : UnorderedList α) (trace : TraversalTrace α) : Prop :=
  ∀ v idx, StaysLive l trace v idx →
    ((passes trace).filter (·.2 = idx) = [(v, idx)] ↔
      ¬ StoppedBefore trace idx)

theorem Walked.passedOnce_of_end
    (hwalked : Walked callback l iter walk)
    (hrunning : NeverStopped walk.trace)
    (hend : (callback.view walk.state).list.length ≤ iter) :
    PassedOnce l walk.trace := by
  intro v idx hstays
  have hidx : idx < iter := by
    have hlast := hstays.cell hwalked.chained
    exact (List.getElem?_eq_some_iff.mp hlast).1.trans_le hend
  have hpassed := hwalked.reached v idx hidx hstays
  constructor
  · rintro - ⟨stop, next, hstop, -⟩
    exact hrunning stop next hstop
  · intro _
    exact filter_eq_singleton hwalked.increasing hpassed

theorem Walked.passedOnce_of_stop
    (hwalked : Walked callback l iter walk)
    (hrunning : NeverStopped walk.trace) {v : α}
    (hcell : (callback.view walk.state).list[iter]? = some v)
    (hlive : v ≠ (callback.view walk.state).deleted)
    (hstop : (callback.visit v iter walk).1 = false) :
    PassedOnce l (callback.visit v iter walk).2.trace := by
  have hvisited := hwalked.visit hcell hlive
  have hstopped :
      ∀ idx, StoppedBefore (callback.visit v iter walk).2.trace idx ↔
        iter < idx := by
    intro idx
    constructor
    · rintro ⟨stop, next, hreturned, hlt⟩
      obtain ⟨rfl, -⟩ :=
        (returned_mem_visit_iff hrunning v stop).mp ⟨next, hreturned⟩
      exact hlt
    · intro hlt
      obtain ⟨next, hreturned⟩ :=
        (returned_mem_visit_iff hrunning v iter).mpr ⟨rfl, hstop⟩
      exact ⟨iter, next, hreturned, hlt⟩
  intro w idx hstays
  rw [hstopped, not_lt]
  constructor
  · intro honce
    have hpassed :
        (w, idx) ∈ passes (callback.visit v iter walk).2.trace := by
      apply List.mem_of_mem_filter
      rw [honce]
      exact List.mem_singleton_self _
    exact Nat.lt_succ_iff.mp (hvisited.below _ hpassed)
  · intro hle
    exact filter_eq_singleton hvisited.increasing
      (hvisited.reached w idx (Nat.lt_succ_of_le hle) hstays)

/-- What holds of the passes at every moment of a traversal. -/
structure PassedInOrder (trace : TraversalTrace α) : Prop where
  increasing : (passes trace).Pairwise (·.2 < ·.2)
  refilled : PassedIfRefilled trace

theorem Walked.ordered (hwalked : Walked callback l iter walk) :
    PassedInOrder walk.trace :=
  ⟨hwalked.increasing, hwalked.chained.passedIfRefilled⟩

/-- What holds when a traversal was cut off, and when it has returned. -/
def SoundOutcome (l : UnorderedList α) :
    Except (Traversal α σ) (Traversal α σ) → Prop
  | .error walk => PassedInOrder walk.trace
  | .ok walk => PassedInOrder walk.trace ∧ PassedOnce l walk.trace

theorem length_le_visit (v : α) (idx : ℕ) :
    (callback.view walk.state).list.length ≤
      (callback.view (callback.visit v idx walk).2.state).list.length := by
  have hgrown :=
    (chained_callTrace (callback.view walk.state)
      (callback.calls v idx walk.state)).length.1
  rw [← callback.view_fn] at hgrown
  exact hgrown

end Walk

section Results

variable [DecidableEq α] (callback : Callback α σ) (state : σ)

/-- At every moment of a traversal the passes increase and are justified, and
at its end the values that stayed have been passed. -/
theorem traverse_sound (fuel : ℕ) :
    SoundOutcome (callback.view state) (callback.traverse fuel state) := by
  apply @forEach_rule _ _ _ _ _
    (fun iter walk =>
      Walked callback (callback.view state) iter walk ∧
        NeverStopped walk.trace)
    (SoundOutcome (callback.view state))
  · intro walk hwalk
    exact hwalk.1.ordered
  · intro last walk hwalk hend
    exact ⟨hwalk.1.ordered, hwalk.1.passedOnce_of_end hwalk.2 hend⟩
  · intro iter walk hwalk hcell
    exact ⟨hwalk.1.skip hcell, hwalk.2⟩
  · intro iter walk v hwalk hcell hlive
    have hvisited := hwalk.1.visit hcell hlive
    have honce := hwalk.1.passedOnce_of_stop hwalk.2 hcell hlive
    have hreturned :=
      @returned_mem_visit_iff _ _ callback iter walk hwalk.2 v
    cases hresult : callback.visit v iter walk with
    | mk goOn next =>
        rw [hresult] at hvisited honce hreturned
        cases goOn with
        | false => exact ⟨hvisited.ordered, honce rfl⟩
        | true =>
            refine ⟨hvisited, ?_⟩
            intro stop l hstop
            simpa using (hreturned stop).mp ⟨l, hstop⟩
  · exact ⟨Walked.start state, by simp [NeverStopped]⟩

/-- The trace is only an addition: without it, this is the traversal. -/
theorem forEach_eq_traverse (fuel : ℕ) :
    forEach callback.view (fun v idx state => .ok (callback.fn v idx state))
        fuel 0 state =
      forgetOutcome Traversal.state (callback.traverse fuel state) :=
  @forEach_map α _ σ (Traversal α σ) Traversal.state callback.view
    (fun v idx state => .ok (callback.fn v idx state))
    (fun v idx walk => .ok (callback.visit v idx walk)) (fun _ _ _ => rfl)
    fuel 0 ⟨state, []⟩

theorem traverse_neverStopped
    (hgoesOn : ∀ v idx state, (callback.fn v idx state).1 = true)
    (fuel : ℕ) :
    NeverStopped (outcome (callback.traverse fuel state)).trace := by
  apply forEach_preserves fun walk : Traversal α σ => NeverStopped walk.trace
  · intro v iter walk hrunning _ _ stop l hstop
    have hreturned :=
      (@returned_mem_visit_iff _ _ callback iter walk hrunning v stop).mp
        ⟨l, hstop⟩
    have hfalse : (callback.fn v iter walk.state).1 = false := hreturned.2
    rw [hgoesOn] at hfalse
    cases hfalse
  · simp [NeverStopped]

/-- A traversal is cut off only when the list has grown as long as the fuel. -/
theorem traverse_cut
    {fuel : ℕ} {walk : Traversal α σ}
    (hresult : callback.traverse fuel state = .error walk) :
    Chained (callback.view state) walk.trace (callback.view walk.state) ∧
      fuel ≤ (callback.view walk.state).list.length := by
  have hrule :
      ∀ cut, callback.traverse fuel state = .error cut →
        Chained (callback.view state) cut.trace
            (callback.view cut.state) ∧
          fuel ≤ (callback.view cut.state).list.length := by
    apply @forEach_rule _ _ _ _ _
      (fun iter current =>
        Walked callback (callback.view state) iter current ∧
          iter ≤ (callback.view current.state).list.length)
      (fun result => ∀ cut, result = .error cut →
        Chained (callback.view state) cut.trace
            (callback.view cut.state) ∧
          fuel ≤ (callback.view cut.state).list.length)
    · intro current hcurrent cut hcut
      cases hcut
      exact ⟨hcurrent.1.chained, by omega⟩
    · intro last current _ _ cut hcut
      cases hcut
    · intro iter current hcurrent hcell
      exact ⟨hcurrent.1.skip hcell,
        (List.getElem?_eq_some_iff.mp hcell).1⟩
    · intro iter current v hcurrent hcell hlive
      have hvisited := hcurrent.1.visit hcell hlive
      have hlength :=
        (List.getElem?_eq_some_iff.mp hcell).1.trans_le
          (length_le_visit v iter)
      cases hvisit : callback.visit v iter current with
      | mk goOn next =>
          rw [hvisit] at hvisited hlength
          cases goOn with
          | false =>
              intro cut hcut
              cases hcut
          | true => exact ⟨hvisited, hlength⟩
    · exact ⟨Walked.start state, Nat.zero_le _⟩
  exact hrule walk hresult

theorem traverse_returns
    {bound : ℕ}
    (hbound :
      ∀ fuel,
        insertions (outcome (callback.traverse fuel state)).trace ≤ bound) :
    ∃ fuel walk, callback.traverse fuel state = .ok walk := by
  -- fuel for one index more than the list can ever have
  let fuel := (callback.view state).list.length + bound + 1
  have hinserted := hbound fuel
  cases hresult : callback.traverse fuel state with
  | ok walk => exact ⟨fuel, walk, hresult⟩
  | error walk =>
      obtain ⟨hchained, hfuel⟩ := traverse_cut callback state hresult
      have hlength := hchained.length.2
      rw [hresult] at hinserted
      simp only [outcome] at hinserted
      omega

/-- Whatever the callback inserts and erases: the indices that it is passed
increase, an index whose cell was erased is passed only with a value inserted
there since, a value that stays in its cell is passed exactly once unless the
callback has stopped the traversal before, and the traversal ends if there is a
bound on the number of insertions. -/
theorem forEach_stable :
    (∀ fuel,
        (passes (outcome (callback.traverse fuel state)).trace).Pairwise
            (·.2 < ·.2) ∧
          PassedIfRefilled
            (outcome (callback.traverse fuel state)).trace) ∧
      (∀ fuel walk, callback.traverse fuel state = .ok walk →
        ∀ v idx, StaysLive (callback.view state) walk.trace v idx →
          ((passes walk.trace).filter (·.2 = idx) = [(v, idx)] ↔
            ¬ StoppedBefore walk.trace idx)) ∧
      ((∃ bound, ∀ fuel,
          insertions (outcome (callback.traverse fuel state)).trace ≤
            bound) →
        ∃ fuel walk, callback.traverse fuel state = .ok walk) := by
  refine ⟨?_, ?_, ?_⟩
  · intro fuel
    have hsound := traverse_sound callback state fuel
    cases hresult : callback.traverse fuel state with
    | error walk =>
        rw [hresult] at hsound
        exact ⟨hsound.increasing, hsound.refilled⟩
    | ok walk =>
        rw [hresult] at hsound
        exact ⟨hsound.1.increasing, hsound.1.refilled⟩
  · intro fuel walk hresult
    have hsound := traverse_sound callback state fuel
    rw [hresult] at hsound
    exact hsound.2
  · rintro ⟨bound, hbound⟩
    exact traverse_returns callback state hbound

end Results

/-- On the value 1, the next two cells are erased and the first of them is
filled again. -/
def refillCalls (v idx : ℕ) : List (ListCall ℕ) :=
  if v = 1 then [.erase (idx + 2), .erase (idx + 1), .insert 4] else []

def refillAhead : Callback ℕ (UnorderedList ℕ) where
  view := id
  fn v idx l := (true, (refillCalls v idx).foldl ListCall.apply l)
  calls v idx _ := refillCalls v idx
  view_fn _ _ _ := rfl

theorem forEach_stable_refilled :
    ∃ walk, refillAhead.traverse 5 ⟨[1, 2, 3, 5], [], 0⟩ = .ok walk ∧
      passes walk.trace = [(1, 0), (4, 1), (5, 3)] ∧
      StaysLive ⟨[1, 2, 3, 5], [], 0⟩ walk.trace 5 3 ∧
      (passes walk.trace).filter (·.2 = 3) = [(5, 3)] := by
  have hwalks :
      ∃ walk, refillAhead.traverse 5 ⟨[1, 2, 3, 5], [], 0⟩ = .ok walk ∧
        passes walk.trace = [(1, 0), (4, 1), (5, 3)] ∧
        StaysLive ⟨[1, 2, 3, 5], [], 0⟩ walk.trace 5 3 :=
    ⟨_, rfl, rfl, by decide, rfl, by decide⟩
  obtain ⟨walk, hwalk, hpasses, hstays⟩ := hwalks
  have hrunning :=
    traverse_neverStopped refillAhead ⟨[1, 2, 3, 5], [], 0⟩
      (fun _ _ _ => rfl) 5
  rw [hwalk] at hrunning
  refine ⟨walk, hwalk, hpasses, hstays, ?_⟩
  rw [(forEach_stable refillAhead _).2.1 5 walk hwalk 5 3 hstays]
  rintro ⟨stop, l, hreturned, -⟩
  exact hrunning stop l hreturned

/-- The callback inserts a value, erases the cell it is passed and stops. -/
def stopAtOnce : Callback ℕ (UnorderedList ℕ) where
  view := id
  fn _ idx l := (false, (l.insert 3).2.erase idx)
  calls _ idx _ := [.insert 3, .erase idx]
  view_fn _ _ _ := rfl

/-- The value 2 stays in its cell from the beginning to the end, but the
callback returns false before. -/
theorem forEach_stopped_at_once :
    ∃ walk, stopAtOnce.traverse 1 ⟨[1, 2], [], 0⟩ = .ok walk ∧
      StaysLive ⟨[1, 2], [], 0⟩ walk.trace 2 1 ∧
      passes walk.trace = [(1, 0)] :=
  ⟨_, rfl, ⟨by decide, rfl, by decide⟩, rfl⟩

end GreenTurtle.UnorderedList
