import Mathlib.Data.List.Nodup
import Mathlib.Data.List.Perm.Basic
import Mathlib.Tactic

/-!
# Removal by swapping with the last element

A vector whose order does not matter drops an element in constant time: the
last element takes its place.  Every other element keeps its position.
-/

namespace GreenTurtle.SwapRemove

variable {α β : Type*}

def swapRemove (l : List α) (i : ℕ) : List α :=
  match l.getLast? with
  | none => []
  | some last => (l.set i last).dropLast

theorem dropLast_set_last (l : List α) (x : α) :
    (l.set (l.length - 1) x).dropLast = l.dropLast := by
  rcases List.eq_nil_or_concat l with rfl | ⟨a, y, rfl⟩
  · rfl
  · simp

/-- Exchanging the element with the last one and dropping the end. -/
theorem dropLast_swap
    {l : List α} {last : α} (hlast : l.getLast? = some last) (i : ℕ)
    (x : α) :
    ((l.set i last).set (l.length - 1) x).dropLast = swapRemove l i := by
  have hset := dropLast_set_last (l.set i last) x
  rw [List.length_set] at hset
  rw [hset]
  simp only [swapRemove, hlast]

theorem swapRemove_last_index (l : List α) :
    swapRemove l (l.length - 1) = l.dropLast := by
  cases hlast : l.getLast? with
  | none =>
      rw [List.getLast?_eq_none_iff.mp hlast]
      rfl
  | some last =>
      simp only [swapRemove, hlast]
      exact dropLast_set_last l last

theorem swapRemove_last (a : List α) (x : α) :
    swapRemove (a ++ [x]) a.length = a := by
  simp [swapRemove]

theorem swapRemove_inner (a b : List α) (x y : α) :
    swapRemove (a ++ x :: (b ++ [y])) a.length = a ++ y :: b := by
  have hlast : (a ++ x :: (b ++ [y])).getLast? = some y := by
    rw [← List.cons_append, ← List.append_assoc, List.getLast?_concat]
  have hset :
      (a ++ x :: (b ++ [y])).set a.length y = (a ++ y :: b) ++ [y] := by
    simp
  simp only [swapRemove, hlast, hset, List.dropLast_concat]

/-- The element is the last one, or there is another one behind it. -/
theorem split_at
    {l : List α} {i : ℕ} {x : α} (hx : l[i]? = some x) :
    (∃ a, l = a ++ [x] ∧ i = a.length) ∨
      ∃ a b y, l = a ++ x :: (b ++ [y]) ∧ i = a.length := by
  have hi := (List.getElem?_eq_some_iff.mp hx).1
  have hsplit : l = l.take i ++ x :: l.drop (i + 1) := by
    rw [← (List.getElem?_eq_some_iff.mp hx).2, List.getElem_cons_drop,
      List.take_append_drop]
  have hlength : i = (l.take i).length := by simp; omega
  rcases List.eq_nil_or_concat (l.drop (i + 1)) with hnil | ⟨b, y, hconcat⟩
  · rw [hnil] at hsplit
    exact .inl ⟨l.take i, hsplit, hlength⟩
  · rw [hconcat, List.concat_eq_append] at hsplit
    exact .inr ⟨l.take i, b, y, hsplit, hlength⟩

theorem map_swapRemove (f : α → β) (l : List α) (i : ℕ) :
    (swapRemove l i).map f = swapRemove (l.map f) i := by
  unfold swapRemove
  rw [List.getLast?_map]
  cases l.getLast? with
  | none => rfl
  | some last => simp [List.map_dropLast, List.map_set]

theorem swapRemove_perm
    {l : List α} {i : ℕ} {x : α} (hx : l[i]? = some x) :
    (x :: swapRemove l i).Perm l := by
  rcases split_at hx with ⟨a, rfl, rfl⟩ | ⟨a, b, y, rfl, rfl⟩
  · rw [swapRemove_last]
    exact (List.perm_append_singleton x a).symm
  · rw [swapRemove_inner]
    have hmiddle : (x :: (a ++ y :: b)).Perm (a ++ x :: y :: b) :=
      List.perm_middle.symm
    exact hmiddle.trans
      (((List.perm_append_singleton y b).symm.cons x).append_left a)

theorem swapRemove_nodup
    {l : List α} (hnodup : l.Nodup) {i : ℕ} {x : α} (hx : l[i]? = some x) :
    (swapRemove l i).Nodup :=
  (List.nodup_cons.mp ((swapRemove_perm hx).nodup_iff.mpr hnodup)).2

theorem mem_swapRemove_iff
    {l : List α} (hnodup : l.Nodup) {i : ℕ} {x : α} (hx : l[i]? = some x)
    (y : α) : y ∈ swapRemove l i ↔ y ∈ l ∧ y ≠ x := by
  have hperm := swapRemove_perm hx
  have hfresh := (List.nodup_cons.mp (hperm.nodup_iff.mpr hnodup)).1
  rw [← hperm.mem_iff, List.mem_cons]
  constructor
  · intro hy
    refine ⟨.inr hy, ?_⟩
    rintro rfl
    exact hfresh hy
  · rintro ⟨rfl | hy, hne⟩
    · exact (hne rfl).elim
    · exact hy

/-- An element of the result is where it was, or it was the last and is now at
the position of the removed one. -/
theorem getElem?_swapRemove
    {l : List α} {i j : ℕ} {x y : α} (hx : l[i]? = some x)
    (hy : (swapRemove l i)[j]? = some y) :
    (j ≠ i ∧ j ≠ l.length - 1 ∧ l[j]? = some y) ∨
      (j = i ∧ i ≠ l.length - 1 ∧ l.getLast? = some y) := by
  rcases split_at hx with ⟨a, rfl, rfl⟩ | ⟨a, b, z, rfl, rfl⟩
  · rw [swapRemove_last] at hy
    have hj := (List.getElem?_eq_some_iff.mp hy).1
    refine .inl ⟨hj.ne, by simpa using hj.ne, ?_⟩
    rw [List.getElem?_append_left hj, hy]
  · rw [swapRemove_inner] at hy
    rcases lt_trichotomy j a.length with hj | rfl | hj
    · rw [List.getElem?_append_left hj] at hy
      refine .inl ⟨hj.ne, by simp; omega, ?_⟩
      rw [List.getElem?_append_left hj, hy]
    · refine .inr ⟨rfl, by simp, ?_⟩
      have hzy : z = y := by simpa using hy
      rw [← List.cons_append, ← List.append_assoc, List.getLast?_concat, hzy]
    · have hy' : b[j - a.length - 1]? = some y := by
        rw [List.getElem?_append_right hj.le,
          List.getElem?_cons, if_neg (by omega)] at hy
        exact hy
      have hb := (List.getElem?_eq_some_iff.mp hy').1
      refine .inl ⟨hj.ne', by simp; omega, ?_⟩
      rw [List.getElem?_append_right hj.le, List.getElem?_cons,
        if_neg (by omega), List.getElem?_append_left hb, hy']

end GreenTurtle.SwapRemove
