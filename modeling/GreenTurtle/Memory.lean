import Mathlib.Tactic

/-!
# Linear memory

A memory maps addresses to values.  Code reads and writes stretches of
consecutive addresses, and a proof needs to know what a stretch holds after a
write that covers it, touches one of its ends, or misses it.
-/

namespace GreenTurtle

abbrev Byte := UInt8

namespace Memory

variable {α : Type}

/-- The values at the `len` addresses from `start` on. -/
def slice (mem : ℤ → α) (start : ℤ) (len : ℕ) : List α :=
  (List.range len).map fun i : ℕ => mem (start + i)

/-- The memory after `data` has been written at `start`. -/
def store (mem : ℤ → α) (start : ℤ) (data : List α) : ℤ → α :=
  fun address =>
    if start ≤ address then (data[(address - start).toNat]?).getD (mem address)
    else mem address

@[simp] theorem length_slice (mem : ℤ → α) (start : ℤ) (len : ℕ) :
    (slice mem start len).length = len := by
  simp [slice]

@[simp] theorem slice_zero (mem : ℤ → α) (start : ℤ) :
    slice mem start 0 = [] := rfl

theorem slice_congr
    {mem other : ℤ → α} {start : ℤ} {len : ℕ}
    (hsame :
      ∀ address, start ≤ address → address < start + len →
        mem address = other address) :
    slice mem start len = slice other start len := by
  apply List.map_congr_left
  intro i hi
  rw [List.mem_range] at hi
  exact hsame _ (by omega) (by omega)

theorem slice_add (mem : ℤ → α) (start : ℤ) (first second : ℕ) :
    slice mem start (first + second) =
      slice mem start first ++ slice mem (start + first) second := by
  unfold slice
  rw [List.range_add, List.map_append, List.map_map]
  congr 1
  apply List.map_congr_left
  intro i _
  simp only [Function.comp_apply, Nat.cast_add]
  rw [add_assoc]

theorem take_slice
    (mem : ℤ → α) (start : ℤ) {count len : ℕ} (hle : count ≤ len) :
    (slice mem start len).take count = slice mem start count := by
  rw [show len = count + (len - count) by omega, slice_add,
    List.take_append_of_le_length (by simp), List.take_of_length_le (by simp)]

theorem drop_slice
    (mem : ℤ → α) (start : ℤ) {count len : ℕ} (hle : count ≤ len) :
    (slice mem start len).drop count =
      slice mem (start + count) (len - count) := by
  rw [show len = count + (len - count) by omega, slice_add,
    List.drop_left' (by simp), Nat.add_sub_cancel_left]

theorem store_of_lt
    (mem : ℤ → α) {start address : ℤ} (data : List α)
    (hlt : address < start) :
    store mem start data address = mem address := by
  simp [store, not_le.mpr hlt]

theorem store_of_ge
    (mem : ℤ → α) {start address : ℤ} {data : List α}
    (hge : start + data.length ≤ address) :
    store mem start data address = mem address := by
  have hnone : data[(address - start).toNat]? = none :=
    List.getElem?_eq_none (by omega)
  simp [store, hnone]

@[simp] theorem store_nil (mem : ℤ → α) (start : ℤ) :
    store mem start [] = mem := by
  funext address
  simp [store]

/-- A stretch that has just been written holds what was written. -/
theorem slice_store (mem : ℤ → α) (start : ℤ) (data : List α) :
    slice (store mem start data) start data.length = data := by
  apply List.ext_getElem?
  intro i
  by_cases hi : i < data.length
  · simp [slice, store, hi]
  · rw [List.getElem?_eq_none (by simpa using hi),
      List.getElem?_eq_none (by omega)]

/-- A write leaves the stretches before it alone. -/
theorem slice_store_before
    (mem : ℤ → α) {start place : ℤ} {len : ℕ} (data : List α)
    (hle : start + len ≤ place) :
    slice (store mem place data) start len = slice mem start len := by
  apply slice_congr
  intro address _ hlt
  exact store_of_lt mem data (by omega)

/-- A write leaves the stretches behind it alone. -/
theorem slice_store_after
    (mem : ℤ → α) {start place : ℤ} (len : ℕ) {data : List α}
    (hle : place + data.length ≤ start) :
    slice (store mem place data) start len = slice mem start len := by
  apply slice_congr
  intro address hge _
  exact store_of_ge mem (hle.trans hge)

/-- Writing at the end of a stretch makes it longer. -/
theorem slice_store_append
    (mem : ℤ → α) (start : ℤ) (len : ℕ) (data : List α) :
    slice (store mem (start + len) data) start (len + data.length) =
      slice mem start len ++ data := by
  rw [slice_add, slice_store_before mem data le_rfl, slice_store]

/-- Two writes, the second where the first ends. -/
theorem store_append
    (mem : ℤ → α) (start : ℤ) (first second : List α) :
    store (store mem start first) (start + first.length) second =
      store mem start (first ++ second) := by
  funext address
  by_cases hbefore : address < start
  · rw [store_of_lt _ _ (by omega), store_of_lt _ _ hbefore,
      store_of_lt _ _ hbefore]
  · by_cases hfirst : address < start + first.length
    · rw [store_of_lt _ _ hfirst]
      simp only [store, not_lt.mp hbefore, if_true]
      rw [List.getElem?_append_left (by omega)]
    · have hplace :
          (address - start).toNat - first.length =
            (address - (start + first.length)).toNat := by
        omega
      have hold := store_of_ge mem (not_lt.mp hfirst)
      simp only [store, not_lt.mp hbefore, not_lt.mp hfirst, if_true]
        at hold ⊢
      rw [List.getElem?_append_right (by omega), hplace, hold]

/-- Moving the rest of a stretch up and writing into the gap. -/
theorem slice_insert
    {mem : ℤ → α} {start : ℤ} {front rest : List α} (gap : List α)
    (hslice : slice mem start front.length = front) :
    slice
        (store (store mem (start + front.length + gap.length) rest)
          (start + front.length) gap)
        start (front.length + (gap.length + rest.length)) =
      front ++ (gap ++ rest) := by
  rw [slice_add, slice_store_before _ _ le_rfl,
    slice_store_before _ _ (by omega), hslice, slice_add, slice_store,
    slice_store_after _ _ le_rfl, slice_store]

/-! ## Stretches changed in place -/

/-- The memory after every value of a stretch has been replaced. -/
def mapSlice (f : α → α) (mem : ℤ → α) (start : ℤ) (len : ℕ) : ℤ → α :=
  fun address =>
    if start ≤ address ∧ address < start + len then f (mem address)
    else mem address

@[simp] theorem mapSlice_zero (f : α → α) (mem : ℤ → α) (start : ℤ) :
    mapSlice f mem start 0 = mem := by
  funext address
  rw [mapSlice, if_neg (by omega)]

/-- Two stretches, the second where the first ends. -/
theorem mapSlice_mapSlice
    (f : α → α) (mem : ℤ → α) (start : ℤ) (first second : ℕ) :
    mapSlice f (mapSlice f mem start first) (start + first) second =
      mapSlice f mem start (first + second) := by
  funext address
  unfold mapSlice
  by_cases hfirst : address < start + first
  · rw [if_neg (by omega)]
    congr 1
    simp only [eq_iff_iff]
    omega
  · rw [if_neg (by omega : ¬ (start ≤ address ∧ address < start + first))]
    congr 1
    simp only [eq_iff_iff]
    omega

theorem store_map_slice
    (f : α → α) (mem : ℤ → α) (start : ℤ) (len : ℕ) :
    store mem start ((slice mem start len).map f) =
      mapSlice f mem start len := by
  funext address
  by_cases hstart : start ≤ address
  · by_cases hlast : address < start + len
    · have hin : (address - start).toNat < len := by omega
      simp [store, mapSlice, slice, hstart, hlast, hin]
    · rw [store_of_ge mem (by simp; omega), mapSlice, if_neg (by omega)]
  · rw [store_of_lt mem _ (by omega), mapSlice, if_neg (by omega)]

theorem store_singleton
    (mem : ℤ → α) (start : ℤ) (value : α) (address : ℤ) :
    store mem start [value] address =
      if address = start then value else mem address := by
  by_cases heq : address = start
  · subst address
    simp [store]
  · rw [if_neg heq]
    rcases lt_or_gt_of_ne heq with hlt | hgt
    · exact store_of_lt mem _ hlt
    · exact store_of_ge mem (by simp; omega)

end Memory

end GreenTurtle
