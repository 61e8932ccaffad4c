import Mathlib.Order.Comparable
import Mathlib.Order.RelClasses
import Mathlib.Data.List.Nodup
import Mathlib.Data.List.Perm.Basic
import Mathlib.Tactic

/-!
# Search in a list sorted by a strict weak order

The elements of the list are in strictly increasing order, so no two of them
are incomparable.  The lower bound of an element is the first position that
does not hold a smaller one.  Searching at the lower bound either finds the one
element that is incomparable to the given one, or the place where it belongs.
-/

namespace GreenTurtle.SortedSearch

variable {α : Type*} {lt : α → α → Prop}

section Order

variable [IsStrictWeakOrder α lt] {a b c : α}

theorem incompRel_trans
    (hab : IncompRel lt a b) (hbc : IncompRel lt b c) :
    IncompRel lt a c :=
  IsStrictWeakOrder.incomp_trans a b c hab hbc

theorem lt_of_lt_of_incompRel
    (hab : lt a b) (hbc : IncompRel lt b c) : lt a c := by
  by_contra hac
  by_cases hca : lt c a
  · exact hbc.2 (trans_of lt hca hab)
  · exact (incompRel_trans ⟨hac, hca⟩ hbc.symm).1 hab

theorem lt_of_incompRel_of_lt
    (hab : IncompRel lt a b) (hbc : lt b c) : lt a c := by
  by_contra hac
  by_cases hca : lt c a
  · exact hab.2 (trans_of lt hbc hca)
  · exact (incompRel_trans hab.symm ⟨hac, hca⟩).1 hbc

/-- Two lists without incomparable elements that meet the same classes have
the same length. -/
theorem length_eq_of_same_classes
    {first second : List α}
    (hfirst : first.Pairwise fun a b => ¬ IncompRel lt a b)
    (hsecond : second.Pairwise fun a b => ¬ IncompRel lt a b)
    (hsame :
      ∀ a, (∃ x ∈ first, IncompRel lt x a) ↔
        ∃ x ∈ second, IncompRel lt x a) :
    first.length = second.length := by
  let classes : Setoid α :=
    { r := IncompRel lt
      iseqv :=
        ⟨fun a => ⟨irrefl_of lt a, irrefl_of lt a⟩, fun h => h.symm,
          incompRel_trans⟩ }
  have hnodup :
      ∀ l : List α, (l.Pairwise fun a b => ¬ IncompRel lt a b) →
        (l.map (Quotient.mk classes)).Nodup := by
    intro l hl
    rw [List.Nodup, List.pairwise_map]
    apply hl.imp
    intro a b hdistinct heq
    exact hdistinct (Quotient.exact heq)
  have hmem :
      ∀ (l : List α) (a : α),
        Quotient.mk classes a ∈ l.map (Quotient.mk classes) ↔
          ∃ x ∈ l, IncompRel lt x a := by
    intro l a
    rw [List.mem_map]
    constructor
    · rintro ⟨x, hx, heq⟩
      exact ⟨x, hx, Quotient.exact heq⟩
    · rintro ⟨x, hx, hincomp⟩
      exact ⟨x, hx, Quotient.sound hincomp⟩
  have hperm :
      (first.map (Quotient.mk classes)).Perm
        (second.map (Quotient.mk classes)) := by
    rw [List.perm_ext_iff_of_nodup (hnodup first hfirst)
      (hnodup second hsecond)]
    intro q
    induction q using Quotient.inductionOn with
    | h a => rw [hmem, hmem, hsame]
  simpa using hperm.length_eq

end Order

/-! ## The lower bound -/

section LowerBound

variable (lt) [DecidableRel lt]

def lowerBound (l : List α) (a : α) : ℕ :=
  l.findIdx fun x => ¬ lt x a

variable {lt}

theorem lowerBound_cons_of_lt
    {x a : α} (hlt : lt x a) (l : List α) :
    lowerBound lt (x :: l) a = lowerBound lt l a + 1 := by
  simp [lowerBound, List.findIdx_cons, hlt]

theorem lowerBound_cons_of_not_lt
    {x a : α} (hlt : ¬ lt x a) (l : List α) :
    lowerBound lt (x :: l) a = 0 := by
  simp [lowerBound, List.findIdx_cons, hlt]

end LowerBound

variable (lt) in
/-- What stands around a position with respect to an element: smaller elements
before it, larger ones behind it, and at the position itself an incomparable
element or none. -/
inductive Located (a : α) : List α → ℕ → Prop
  | found (low : List α) {high : List α} {x : α}
      (hlow : ∀ y ∈ low, lt y a) (hx : IncompRel lt x a)
      (hhigh : ∀ y ∈ high, lt a y) :
      Located a (low ++ x :: high) low.length
  | absent (low : List α) {high : List α}
      (hlow : ∀ y ∈ low, lt y a) (hhigh : ∀ y ∈ high, lt a y) :
      Located a (low ++ high) low.length

theorem Located.cons
    {a x : α} {l : List α} {pos : ℕ} (hx : lt x a)
    (hlocated : Located lt a l pos) :
    Located lt a (x :: l) (pos + 1) := by
  cases hlocated with
  | @found low high y hlow hy hhigh =>
      exact Located.found (x :: low)
        (List.forall_mem_cons.mpr ⟨hx, hlow⟩) hy hhigh
  | @absent low high hlow hhigh =>
      exact Located.absent (x :: low)
        (List.forall_mem_cons.mpr ⟨hx, hlow⟩) hhigh

theorem located_lowerBound [IsStrictWeakOrder α lt] [DecidableRel lt]
    {l : List α} (hsorted : l.Pairwise lt) (a : α) :
    Located lt a l (lowerBound lt l a) := by
  induction l with
  | nil => exact Located.absent [] (by simp) (by simp)
  | cons x l ih =>
      rcases List.pairwise_cons.mp hsorted with ⟨hx, hrest⟩
      by_cases hlow : lt x a
      · rw [lowerBound_cons_of_lt hlow]
        exact (ih hrest).cons hlow
      · rw [lowerBound_cons_of_not_lt hlow]
        by_cases hhigh : lt a x
        · apply Located.absent [] (by simp)
          rw [List.forall_mem_cons]
          exact ⟨hhigh, fun y hy => trans_of lt hhigh (hx y hy)⟩
        · apply Located.found [] (by simp) ⟨hlow, hhigh⟩
          intro y hy
          exact lt_of_incompRel_of_lt ⟨hhigh, hlow⟩ (hx y hy)

/-! ## Changing the list at the position -/

section Change

variable {a x : α} {low high : List α}

theorem pairwise_insert [IsStrictWeakOrder α lt]
    (hlow : ∀ y ∈ low, lt y a) (hhigh : ∀ y ∈ high, lt a y)
    (hsorted : (low ++ high).Pairwise lt) (hx : IncompRel lt x a) :
    (low ++ x :: high).Pairwise lt := by
  rcases List.pairwise_append.mp hsorted with ⟨hleft, hright, hcross⟩
  rw [List.pairwise_append, List.pairwise_cons]
  refine ⟨hleft, ⟨?_, hright⟩, ?_⟩
  · intro y hy
    exact lt_of_incompRel_of_lt hx (hhigh y hy)
  · intro y hy z hz
    rcases List.mem_cons.mp hz with rfl | hz
    · exact lt_of_lt_of_incompRel (hlow y hy) hx.symm
    · exact hcross y hy z hz

theorem insertIdx_at_length (low high : List α) (x : α) :
    (low ++ high).insertIdx low.length x = low ++ x :: high := by
  induction low with
  | nil => rfl
  | cons y low ih => simp [ih]

theorem pairwise_of_insert
    (hsorted : (low ++ x :: high).Pairwise lt) :
    (low ++ high).Pairwise lt :=
  hsorted.sublist (List.Sublist.append_left (List.sublist_cons_self x high) low)

/-- What stands before or behind the position is comparable to `a`. -/
theorem not_incompRel_of_mem
    (hlow : ∀ y ∈ low, lt y a) (hhigh : ∀ y ∈ high, lt a y)
    {y : α} (hy : y ∈ low ++ high) : ¬ IncompRel lt y a := by
  rcases List.mem_append.mp hy with hy | hy
  · exact fun hincomp => hincomp.1 (hlow y hy)
  · exact fun hincomp => hincomp.2 (hhigh y hy)

theorem mem_others_iff
    (hlow : ∀ y ∈ low, lt y a) (hhigh : ∀ y ∈ high, lt a y)
    (hx : IncompRel lt x a) (y : α) :
    y ∈ low ++ high ↔ y ∈ low ++ x :: high ∧ ¬ IncompRel lt y a := by
  constructor
  · intro hy
    exact ⟨List.perm_middle.mem_iff.mpr (List.mem_cons_of_mem x hy),
      not_incompRel_of_mem hlow hhigh hy⟩
  · rintro ⟨hy, hother⟩
    have hne : y ≠ x := by
      rintro rfl
      exact hother hx
    simpa [hne] using hy

end Change

end GreenTurtle.SortedSearch
