import GreenTurtle.Execution
import Mathlib.Tactic

/-!
# The slot list of `unordered_list.h`

Cells are addressed by index and never move.  An erased cell holds the deleted
marker and its index waits on a free list, from which `insert` takes the most
recently erased index first.  The traversal `forEach` reads the list afresh at
every index, so its callback may change the list that is being traversed.
-/

namespace GreenTurtle

open Execution

/-- `freeList` is the vector `free_list_` with its back first. -/
structure UnorderedList (α : Type) where
  list : List α
  freeList : List ℕ
  deleted : α

namespace UnorderedList

variable {α : Type}

def new [Inhabited α] : UnorderedList α where
  list := []
  freeList := []
  deleted := default

def setDeleted (v : α) (l : UnorderedList α) : UnorderedList α :=
  { l with deleted := v }

/-- The index that received the value, and the list afterwards. -/
def insert (v : α) (l : UnorderedList α) : ℕ × UnorderedList α :=
  match l.freeList with
  | idx :: rest =>
      (idx, { l with list := l.list.set idx v, freeList := rest })
  | [] => (l.list.length, { l with list := l.list ++ [v] })

def erase (idx : ℕ) (l : UnorderedList α) : UnorderedList α :=
  { l with
    list := l.list.set idx l.deleted
    freeList := idx :: l.freeList }

def get [DecidableEq α] [Inhabited α]
    (idx : ℕ) (l : UnorderedList α) : α :=
  match l.list[idx]? with
  | some v => if v = l.deleted then default else v
  | none => default

/-- The traversal from index `iter`.  The list lives inside a larger state,
where `view` finds it, because the callback may change it.  The result is an
error when the fuel ends first; the state reached by then is kept. -/
def forEach [DecidableEq α] {σ : Type} (view : σ → UnorderedList α)
    (fn : α → ℕ → σ → Except σ (Bool × σ)) :
    ℕ → ℕ → σ → Except σ σ
  | 0, _, state => .error state
  | fuel + 1, iter, state =>
      match (view state).list[iter]? with
      | none => .ok state
      | some v =>
          if v = (view state).deleted then
            forEach view fn fuel (iter + 1) state
          else
            match fn v iter state with
            | .error stopped => .error stopped
            | .ok (false, next) => .ok next
            | .ok (true, next) => forEach view fn fuel (iter + 1) next

/-- The free list names each deleted cell exactly once and nothing else. -/
structure FreeListExact (l : UnorderedList α) : Prop where
  nodup : l.freeList.Nodup
  mem_iff : ∀ pos, pos ∈ l.freeList ↔ l.list[pos]? = some l.deleted

theorem setDeleted_new_freeListExact [Inhabited α] (v : α) :
    (setDeleted v (new : UnorderedList α)).FreeListExact := by
  constructor <;> simp [setDeleted, new]

@[simp] theorem insert_deleted (v : α) (l : UnorderedList α) :
    (l.insert v).2.deleted = l.deleted := by
  unfold insert
  split <;> rfl

@[simp] theorem erase_deleted (idx : ℕ) (l : UnorderedList α) :
    (l.erase idx).deleted = l.deleted := rfl

@[simp] theorem erase_length (idx : ℕ) (l : UnorderedList α) :
    (l.erase idx).list.length = l.list.length := by
  simp [erase]

theorem FreeListExact.lt_length
    {l : UnorderedList α} (hexact : l.FreeListExact)
    {pos : ℕ} (hmem : pos ∈ l.freeList) :
    pos < l.list.length := by
  have hcell := (hexact.mem_iff pos).mp hmem
  exact (List.getElem?_eq_some_iff.mp hcell).1

theorem erase_getElem?
    {l : UnorderedList α} {idx : ℕ} (hidx : idx < l.list.length)
    (pos : ℕ) :
    (l.erase idx).list[pos]? =
      if pos = idx then some l.deleted else l.list[pos]? := by
  by_cases heq : pos = idx
  · subst pos
    simp [erase, hidx]
  · simp [erase, heq, List.getElem?_set_ne (Ne.symm heq)]

/-- Only the chosen cell changes, and it was free before. -/
theorem FreeListExact.insert_getElem?
    {l : UnorderedList α} (hexact : l.FreeListExact) (v : α) (pos : ℕ) :
    (l.insert v).2.list[pos]? =
      if pos = (l.insert v).1 then some v else l.list[pos]? := by
  unfold insert
  split
  next idx rest hfree =>
    have hidx : idx < l.list.length :=
      hexact.lt_length (by simp [hfree])
    by_cases heq : pos = idx
    · subst pos
      simp [hidx]
    · simp [heq, List.getElem?_set_ne (Ne.symm heq)]
  next hfree =>
    by_cases heq : pos = l.list.length
    · subst pos
      simp
    · simp only [heq, if_false]
      rcases lt_or_gt_of_ne heq with hlt | hgt
      · exact List.getElem?_append_left hlt
      · simp only [List.getElem?_append_right hgt.le]
        rw [List.getElem?_eq_none (by simp; omega),
          List.getElem?_eq_none hgt.le]

/-- A value appears in a cell only when it is inserted there. -/
theorem insert_cell
    {l : UnorderedList α} {v w : α} {idx : ℕ}
    (hcell : (l.insert v).2.list[idx]? = some w) :
    (l.insert v).1 = idx ∧ v = w ∨ l.list[idx]? = some w := by
  unfold insert at hcell ⊢
  cases hfree : l.freeList with
  | nil =>
      simp only [hfree] at hcell ⊢
      rcases lt_trichotomy idx l.list.length with hlt | heq | hgt
      · rw [List.getElem?_append_left hlt] at hcell
        exact .inr hcell
      · subst idx
        simp only [List.getElem?_concat_length, Option.some.injEq] at hcell
        exact .inl ⟨rfl, hcell⟩
      · rw [List.getElem?_eq_none (by simp; omega)] at hcell
        simp at hcell
  | cons free rest =>
      simp only [hfree] at hcell ⊢
      by_cases heq : free = idx
      · subst free
        have hlt : idx < l.list.length := by
          have hset := (List.getElem?_eq_some_iff.mp hcell).1
          simpa using hset
        rw [List.getElem?_set_self hlt, Option.some.injEq] at hcell
        exact .inl ⟨rfl, hcell⟩
      · rw [List.getElem?_set_ne heq] at hcell
        exact .inr hcell

theorem erase_cell
    {l : UnorderedList α} {w : α} {erased idx : ℕ}
    (hcell : (l.erase erased).list[idx]? = some w) :
    w = l.deleted ∨ erased ≠ idx ∧ l.list[idx]? = some w := by
  unfold erase at hcell
  by_cases heq : erased = idx
  · subst erased
    have hlt : idx < l.list.length := by
      have hset := (List.getElem?_eq_some_iff.mp hcell).1
      simpa using hset
    rw [List.getElem?_set_self hlt, Option.some.injEq] at hcell
    exact .inl hcell.symm
  · rw [List.getElem?_set_ne heq] at hcell
    exact .inr ⟨heq, hcell⟩

theorem FreeListExact.insert_index_free
    {l : UnorderedList α} (hexact : l.FreeListExact) (v : α) :
    l.list[(l.insert v).1]? = none ∨
      l.list[(l.insert v).1]? = some l.deleted := by
  unfold insert
  split
  next idx rest hfree =>
    exact .inr ((hexact.mem_iff idx).mp (by simp [hfree]))
  next => exact .inl (List.getElem?_eq_none le_rfl)

theorem FreeListExact.erase
    {l : UnorderedList α} (hexact : l.FreeListExact) {idx : ℕ} {v : α}
    (hcell : l.list[idx]? = some v) (hlive : v ≠ l.deleted) :
    (l.erase idx).FreeListExact := by
  have hidx : idx < l.list.length :=
    (List.getElem?_eq_some_iff.mp hcell).1
  have hfresh : idx ∉ l.freeList := by
    intro hmem
    have hdeleted := (hexact.mem_iff idx).mp hmem
    rw [hcell, Option.some.injEq] at hdeleted
    exact hlive hdeleted
  constructor
  · exact List.nodup_cons.mpr ⟨hfresh, hexact.nodup⟩
  · intro pos
    rw [erase_getElem? hidx, erase_deleted]
    by_cases heq : pos = idx
    · simp [UnorderedList.erase, heq]
    · simp [UnorderedList.erase, heq, hexact.mem_iff pos]

theorem FreeListExact.insert
    {l : UnorderedList α} (hexact : l.FreeListExact) {v : α}
    (hlive : v ≠ l.deleted) :
    (l.insert v).2.FreeListExact := by
  have hcells := hexact.insert_getElem? v
  have hdeleted := insert_deleted v l
  have hfree :
      (l.insert v).2.freeList = l.freeList.filter (· ≠ (l.insert v).1) := by
    unfold UnorderedList.insert
    split
    next idx rest hcons =>
      have hnodup := hexact.nodup
      rw [hcons, List.nodup_cons] at hnodup
      rw [hcons]
      symm
      simp only [ne_eq, not_true_eq_false, decide_false, Bool.false_eq_true,
        not_false_eq_true, List.filter_cons_of_neg]
      refine List.filter_eq_self.mpr ?_
      intro other hother
      simp only [decide_eq_true_eq]
      rintro rfl
      exact hnodup.1 hother
    next hnil => simp [hnil]
  constructor
  · rw [hfree]
    exact hexact.nodup.filter _
  · intro pos
    rw [hcells, hdeleted, hfree, List.mem_filter]
    by_cases heq : pos = (l.insert v).1
    · simp [heq, hlive]
    · simp [heq, hexact.mem_iff pos]

theorem insert_length_of_freeList_ne_nil
    {l : UnorderedList α} (v : α) (hfree : l.freeList ≠ []) :
    (l.insert v).2.list.length = l.list.length := by
  unfold insert
  split
  next => simp
  next hnil => exact (hfree hnil).elim

/-- A cell erased just before an insertion is the one that is reused. -/
theorem insert_erase (v : α) (idx : ℕ) (l : UnorderedList α) :
    ((l.erase idx).insert v).1 = idx := rfl

/-- The rule for traversals.  The invariant says what holds when an index is
reached; the traversal is cut off at the index that the fuel allows for, ends
behind the last cell, or is stopped by the callback. -/
theorem forEach_rule [DecidableEq α] {σ : Type}
    {view : σ → UnorderedList α} {fn : α → ℕ → σ → Except σ (Bool × σ)}
    {inv : ℕ → σ → Prop} {post : Except σ σ → Prop} {fuel iter : ℕ}
    (hcut : ∀ state, inv (iter + fuel) state → post (.error state))
    (hend : ∀ last state, inv last state →
      (view state).list.length ≤ last → post (.ok state))
    (hskip : ∀ iter state, inv iter state →
      (view state).list[iter]? = some (view state).deleted →
        inv (iter + 1) state)
    (hvisit : ∀ iter state v, inv iter state →
      (view state).list[iter]? = some v → v ≠ (view state).deleted →
        match fn v iter state with
        | .error stopped => post (.error stopped)
        | .ok (false, next) => post (.ok next)
        | .ok (true, next) => inv (iter + 1) next)
    {state : σ} (hstate : inv iter state) :
    post (forEach view fn fuel iter state) := by
  induction fuel generalizing iter state with
  | zero => exact hcut state hstate
  | succ fuel ih =>
      have hcut' :
          ∀ state, inv (iter + 1 + fuel) state → post (.error state) := by
        intro state hlast
        exact hcut state (Nat.add_right_comm iter 1 fuel ▸ hlast)
      simp only [forEach]
      split
      next hcell =>
        exact hend iter state hstate (List.getElem?_eq_none_iff.mp hcell)
      next v hcell =>
        split
        next hdeleted =>
          exact ih hcut' (hskip iter state hstate (hdeleted ▸ hcell))
        next hlive =>
          have hnext := hvisit iter state v hstate hcell hlive
          cases hresult : fn v iter state with
          | error stopped =>
              rw [hresult] at hnext
              exact hnext
          | ok result =>
              obtain ⟨continues, next⟩ := result
              rw [hresult] at hnext
              cases continues with
              | false => exact hnext
              | true => exact ih hcut' hnext

/-- What the callback preserves on live cells, the traversal preserves. -/
theorem forEach_preserves [DecidableEq α] {σ : Type}
    {view : σ → UnorderedList α} {fn : α → ℕ → σ → Except σ (Bool × σ)}
    (inv : σ → Prop)
    (hfn : ∀ v iter state, inv state →
      (view state).list[iter]? = some v → v ≠ (view state).deleted →
        inv (stateOf (fn v iter state)))
    (fuel iter : ℕ) {state : σ} (hstate : inv state) :
    inv (outcome (forEach view fn fuel iter state)) := by
  apply @forEach_rule _ _ _ _ _ (fun _ => inv) (fun result =>
    inv (outcome result))
  · intro last hlast
    exact hlast
  · intro iter last hlast _
    exact hlast
  · intro iter current hcurrent _
    exact hcurrent
  · intro iter current v hcurrent hcell hlive
    have hnext := hfn v iter current hcurrent hcell hlive
    cases hresult : fn v iter current with
    | error stopped =>
        rw [hresult] at hnext
        exact hnext
    | ok result =>
        obtain ⟨continues, next⟩ := result
        rw [hresult] at hnext
        cases continues <;> exact hnext
  · exact hstate

/-- A callback that returns more often, and more fuel, do not change what a
traversal returns. -/
theorem forEach_mono [DecidableEq α] {σ : Type}
    {view : σ → UnorderedList α} {fn gn : α → ℕ → σ → Except σ (Bool × σ)}
    (hfn : ∀ v iter state result,
      fn v iter state = .ok result → gn v iter state = .ok result)
    {fuel more iter : ℕ} {state final : σ} (hmore : fuel ≤ more)
    (hresult : forEach view fn fuel iter state = .ok final) :
    forEach view gn more iter state = .ok final := by
  induction fuel generalizing more iter state with
  | zero => simp [forEach] at hresult
  | succ fuel ih =>
      obtain ⟨more, rfl⟩ := Nat.exists_eq_add_one.mpr (by omega : 0 < more)
      simp only [forEach] at hresult ⊢
      cases hcell : (view state).list[iter]? with
      | none =>
          rw [hcell] at hresult
          exact hresult
      | some v =>
          simp only [hcell] at hresult ⊢
          split
          next hdeleted =>
            rw [if_pos hdeleted] at hresult
            exact ih (by omega) hresult
          next hlive =>
            rw [if_neg hlive] at hresult
            cases hcall : fn v iter state with
            | error stopped => simp [hcall] at hresult
            | ok result =>
                obtain ⟨continues, next⟩ := result
                rw [hfn v iter state _ hcall]
                rw [hcall] at hresult
                cases continues with
                | false => exact hresult
                | true => exact ih (by omega) hresult

/-- The same outcome, with less of the state. -/
def forgetOutcome {σ τ : Type} (forget : τ → σ) : Except τ τ → Except σ σ
  | .error stopped => .error (forget stopped)
  | .ok final => .ok (forget final)

/-- A traversal of a state with additions that neither the list nor the
callback depends on. -/
theorem forEach_map [DecidableEq α] {σ τ : Type} (forget : τ → σ)
    {view : σ → UnorderedList α} {fn : α → ℕ → σ → Except σ (Bool × σ)}
    {gn : α → ℕ → τ → Except τ (Bool × τ)}
    (hfn : ∀ v iter state,
      fn v iter (forget state) =
        match gn v iter state with
        | .error stopped => .error (forget stopped)
        | .ok (continues, next) => .ok (continues, forget next))
    (fuel iter : ℕ) (state : τ) :
    forEach view fn fuel iter (forget state) =
      forgetOutcome forget
        (forEach (fun state => view (forget state)) gn fuel iter
          state) := by
  induction fuel generalizing iter state with
  | zero => rfl
  | succ fuel ih =>
      simp only [forEach]
      cases hcell : (view (forget state)).list[iter]? with
      | none => rfl
      | some v =>
          dsimp only
          split
          next => exact ih (iter + 1) state
          next =>
            rw [hfn]
            cases gn v iter state with
            | error stopped => rfl
            | ok result =>
                obtain ⟨continues, next⟩ := result
                cases continues with
                | false => rfl
                | true => exact ih (iter + 1) next

/-- What a traversal that returned has established: each visit and each skipped
cell leads from an index to the next, and the last index is past the end. -/
theorem forEach_returned [DecidableEq α] {σ : Type}
    {view : σ → UnorderedList α} {fn : α → ℕ → σ → Except σ (Bool × σ)}
    {inv : ℕ → σ → Prop}
    (hskip : ∀ iter state, inv iter state →
      (view state).list[iter]? = some (view state).deleted →
        inv (iter + 1) state)
    (hvisit : ∀ iter state v continues next, inv iter state →
      (view state).list[iter]? = some v → v ≠ (view state).deleted →
        fn v iter state = .ok (continues, next) →
          continues = true ∧ inv (iter + 1) next)
    {fuel iter : ℕ} {state final : σ} (hstate : inv iter state)
    (hresult : forEach view fn fuel iter state = .ok final) :
    ∃ last, inv last final ∧ (view final).list.length ≤ last := by
  have hrule :
      ∀ reached, forEach view fn fuel iter state = .ok reached →
        ∃ last, inv last reached ∧ (view reached).list.length ≤ last := by
    apply @forEach_rule _ _ _ _ _ inv (fun result =>
      ∀ reached, result = .ok reached →
        ∃ last, inv last reached ∧ (view reached).list.length ≤ last)
    · intro current _ reached hreached
      cases hreached
    · intro last current hcurrent hlast reached hreached
      cases hreached
      exact ⟨last, hcurrent, hlast⟩
    · exact hskip
    · intro iter current v hcurrent hcell hlive
      cases hcall : fn v iter current with
      | error stopped =>
          intro reached hreached
          cases hreached
      | ok result =>
          obtain ⟨continues, next⟩ := result
          obtain ⟨rfl, hnext⟩ :=
            hvisit iter current v continues next hcurrent hcell hlive hcall
          exact hnext
    · exact hstate
  exact hrule final hresult

/-- A traversal whose callback always returns, and never changes the length of
the list, ends.  The invariant says what holds when an index is reached. -/
theorem forEach_total [DecidableEq α] {σ : Type}
    {view : σ → UnorderedList α}
    {fn : ℕ → α → ℕ → σ → Except σ (Bool × σ)}
    {inv : ℕ → σ → Prop} {length : ℕ}
    (hlength : ∀ iter state, inv iter state →
      (view state).list.length = length)
    (hskip : ∀ iter state, inv iter state →
      (view state).list[iter]? = some (view state).deleted →
        inv (iter + 1) state)
    (hvisit : ∀ iter state v, inv iter state →
      (view state).list[iter]? = some v → v ≠ (view state).deleted →
        ∃ next bound, inv (iter + 1) next ∧
          ∀ fuel, bound ≤ fuel → fn fuel v iter state = .ok (true, next))
    {iter : ℕ} {state : σ} (hiter : iter ≤ length)
    (hstate : inv iter state) :
    ∃ final bound, inv length final ∧
      ∀ fuel rounds, bound ≤ fuel → bound ≤ rounds →
        forEach view (fn fuel) rounds iter state = .ok final := by
  induction hleft : length - iter generalizing iter state with
  | zero =>
      have heq : iter = length := by omega
      subst iter
      refine ⟨state, 1, hstate, ?_⟩
      intro fuel rounds _ hrounds
      rw [show rounds = (rounds - 1) + 1 by omega]
      have hend : (view state).list[length]? = none :=
        List.getElem?_eq_none (hlength length state hstate).le
      simp only [forEach, hend]
  | succ left ih =>
      have hlt : iter < (view state).list.length := by
        rw [hlength iter state hstate]
        omega
      have hcell := List.getElem?_eq_getElem hlt
      by_cases hdeleted :
          (view state).list[iter] = (view state).deleted
      · have hnext := hskip iter state hstate (hcell.trans (by rw [hdeleted]))
        rcases ih (by omega) hnext (by omega) with
          ⟨final, bound, hfinal, hrest⟩
        refine ⟨final, bound + 1, hfinal, ?_⟩
        intro fuel rounds hfuel hrounds
        rw [show rounds = (rounds - 1) + 1 by omega]
        simp only [forEach, hcell, hdeleted, if_true]
        exact hrest fuel (rounds - 1) (by omega) (by omega)
      · rcases hvisit iter state _ hstate hcell hdeleted with
          ⟨next, visitBound, hnext, hresult⟩
        rcases ih (by omega) hnext (by omega) with
          ⟨final, bound, hfinal, hrest⟩
        refine ⟨final, visitBound + bound + 1, hfinal, ?_⟩
        intro fuel rounds hfuel hrounds
        rw [show rounds = (rounds - 1) + 1 by omega]
        simp only [forEach, hcell, hdeleted, if_false,
          hresult fuel (by omega)]
        exact hrest fuel (rounds - 1) (by omega) (by omega)

end UnorderedList

end GreenTurtle
