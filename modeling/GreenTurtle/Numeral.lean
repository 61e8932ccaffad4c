import GreenTurtle.Memory
import Mathlib.Data.Nat.Digits.Lemmas
import Mathlib.Tactic

/-!
# Numerals

The digits of a number with the most significant one first.  A numeral has no
zero in front; a field has a fixed number of digits.  A conversion routine cuts
a number at a power of the base, writes the upper part as a numeral and the
lower part as a field.
-/

namespace GreenTurtle.Numeral

def numeral (base value : ℕ) : List ℕ :=
  if value = 0 then [0] else (Nat.digits base value).reverse

/-- The last `width` digits. -/
def field (base : ℕ) : ℕ → ℕ → List ℕ
  | 0, _ => []
  | width + 1, value => field base width (value / base) ++ [value % base]

variable {base : ℕ}

@[simp] theorem length_field (width value : ℕ) :
    (field base width value).length = width := by
  induction width generalizing value with
  | zero => rfl
  | succ width ih => simp [field, ih]

theorem field_one (value : ℕ) : field base 1 value = [value % base] := rfl

theorem field_add (first second value : ℕ) :
    field base (first + second) value =
      field base first (value / base ^ second) ++
        field base second value := by
  induction second generalizing value with
  | zero => simp [field]
  | succ second ih =>
      rw [← add_assoc, field, field, ih, Nat.div_div_eq_div_mul,
        pow_succ' base second, List.append_assoc]

theorem field_succ (width value : ℕ) :
    field base (width + 1) value =
      value / base ^ width % base :: field base width value := by
  rw [Nat.add_comm, field_add, field_one]
  rfl

theorem field_mod (width value : ℕ) :
    field base width (value % base ^ width) = field base width value := by
  induction width generalizing value with
  | zero => rfl
  | succ width ih =>
      rw [field, field, pow_succ' base width, Nat.mod_mul_right_div_self, ih,
        Nat.mod_mul_right_mod]

theorem lt_of_mem_field
    (hbase : 0 < base) {width value digit : ℕ}
    (hmem : digit ∈ field base width value) : digit < base := by
  induction width generalizing value with
  | zero => simp [field] at hmem
  | succ width ih =>
      rcases List.mem_append.mp hmem with hfront | hlast
      · exact ih hfront
      · rw [List.mem_singleton] at hlast
        rw [hlast]
        exact Nat.mod_lt _ hbase

theorem length_numeral_pos (base value : ℕ) :
    0 < (numeral base value).length := by
  unfold numeral
  split
  next => simp
  next hne =>
    rw [List.length_reverse]
    exact List.length_pos_iff.mpr (Nat.digits_ne_nil_iff_ne_zero.mpr hne)

theorem numeral_of_lt {value : ℕ} (hlt : value < base) :
    numeral base value = [value] := by
  unfold numeral
  split
  next hzero => rw [hzero]
  next hne => rw [Nat.digits_of_lt base value hne hlt, List.reverse_singleton]

theorem numeral_of_ge
    (hbase : 1 < base) {value : ℕ} (hge : base ≤ value) :
    numeral base value = numeral base (value / base) ++ [value % base] := by
  have hupper : value / base ≠ 0 := by
    have hpos := Nat.div_pos hge (by omega)
    omega
  unfold numeral
  rw [if_neg (by omega), if_neg hupper,
    Nat.digits_def' hbase (by omega : 0 < value), List.reverse_cons]

/-- The cut of a number at a power of the base. -/
theorem numeral_cut
    (hbase : 1 < base) (width : ℕ) {value : ℕ}
    (hge : base ^ width ≤ value) :
    numeral base value =
      numeral base (value / base ^ width) ++ field base width value := by
  induction width generalizing value with
  | zero => simp [field]
  | succ width ih =>
      rw [pow_succ' base width] at hge ⊢
      have hpos : 0 < base ^ width := Nat.pow_pos (by omega)
      have hfirst : base ≤ value :=
        le_trans (Nat.le_mul_of_pos_right base hpos) hge
      have hrest : base ^ width ≤ value / base :=
        (Nat.le_div_iff_mul_le (by omega)).mpr (by rwa [Nat.mul_comm])
      rw [numeral_of_ge hbase hfirst, ih hrest, field,
        Nat.div_div_eq_div_mul, List.append_assoc]

theorem numeral_eq_field
    (hbase : 1 < base) {width value : ℕ} (hge : base ^ width ≤ value)
    (hlt : value < base ^ (width + 1)) :
    numeral base value = field base (width + 1) value := by
  have hdigit : value / base ^ width < base :=
    Nat.div_lt_of_lt_mul (by rwa [← pow_succ])
  rw [numeral_cut hbase width hge, numeral_of_lt hdigit, field_succ,
    Nat.mod_eq_of_lt hdigit]
  rfl

/-- The zeros in front of a field are what the numeral leaves out. -/
theorem numeral_eq_dropWhile
    (hbase : 1 < base) {width value : ℕ} (hpos : 0 < value)
    (hlt : value < base ^ width) :
    numeral base value =
      (field base width value).dropWhile (fun digit => digit == 0) := by
  induction width with
  | zero =>
      rw [pow_zero] at hlt
      omega
  | succ width ih =>
      by_cases hsmall : value < base ^ width
      · rw [field_succ, Nat.div_eq_of_lt hsmall, Nat.zero_mod,
          List.dropWhile_cons_of_pos (by rfl)]
        exact ih hsmall
      · have hge : base ^ width ≤ value := by omega
        have hdigit : value / base ^ width < base :=
          Nat.div_lt_of_lt_mul (by rwa [← pow_succ])
        have hlead : value / base ^ width ≠ 0 :=
          (Nat.div_pos hge (Nat.pow_pos (by omega))).ne'
        rw [numeral_eq_field hbase hge hlt, field_succ,
          Nat.mod_eq_of_lt hdigit]
        symm
        apply List.dropWhile_cons_of_neg
        rwa [beq_iff_eq]

theorem lt_length_numeral
    (hbase : 1 < base) {width value : ℕ} (hge : base ^ width ≤ value) :
    width < (numeral base value).length := by
  rw [numeral_cut hbase width hge, List.length_append, length_field]
  have hpos := length_numeral_pos base (value / base ^ width)
  omega

theorem lt_of_mem_numeral
    (hbase : 1 < base) {value digit : ℕ}
    (hmem : digit ∈ numeral base value) : digit < base := by
  unfold numeral at hmem
  split at hmem
  next =>
    rw [List.mem_singleton] at hmem
    omega
  next => exact Nat.digits_lt_base hbase (List.mem_reverse.mp hmem)

theorem length_numeral_le
    (hbase : 1 < base) {width value : ℕ} (hlt : value < base ^ width)
    (hwidth : 0 < width) : (numeral base value).length ≤ width := by
  induction width generalizing value with
  | zero => omega
  | succ width ih =>
      by_cases hsmall : value < base
      · simp [numeral_of_lt hsmall]
      · have hrest : value / base < base ^ width :=
          Nat.div_lt_of_lt_mul (by rwa [← pow_succ'])
        have hmore : 0 < width := by
          by_contra hzero
          rw [Nat.eq_zero_of_not_pos hzero, zero_add, pow_one] at hlt
          omega
        rw [numeral_of_ge hbase (by omega), List.length_append,
          List.length_singleton]
        have hle := ih hrest hmore
        omega

/-- A digit string stands for more in a larger base, unless it is one digit. -/
theorem lt_of_numeral_eq
    {other value : ℕ} (hbase : 1 < base) (hless : base < other)
    (heq : numeral base value = numeral other value) : value < base := by
  by_contra hge
  have hne : value ≠ 0 := by omega
  unfold numeral at heq
  rw [if_neg hne, if_neg hne, List.reverse_inj] at heq
  have hcons := Nat.digits_def' hbase (by omega : 0 < value)
  have hupper : 0 < value / base := Nat.div_pos (by omega) (by omega)
  have hvalue := Nat.ofDigits_digits base value
  have hsame := Nat.ofDigits_digits other value
  rw [← heq, hcons, Nat.ofDigits_cons] at hsame
  rw [hcons, Nat.ofDigits_cons, Nat.ofDigits_digits] at hvalue
  have hmono :
      value / base ≤ Nat.ofDigits other (Nat.digits base (value / base)) := by
    calc value / base
        = Nat.ofDigits base (Nat.digits base (value / base)) :=
          (Nat.ofDigits_digits base _).symm
      _ ≤ Nat.ofDigits other (Nat.digits base (value / base)) :=
          Nat.ofDigits_monotone _ hless.le
  have hgrow :
      base * (value / base) <
        other * Nat.ofDigits other (Nat.digits base (value / base)) :=
    lt_of_lt_of_le (Nat.mul_lt_mul_of_pos_right hless hupper)
      (Nat.mul_le_mul_left other hmono)
  omega

/-! ## Decimal texts -/

def digitByte (digit : ℕ) : Byte :=
  UInt8.ofNat (48 + digit)

/-- The canonical decimal numeral. -/
def decimal (value : ℤ) : List Byte :=
  if value < 0 then 45 :: (numeral 10 value.natAbs).map digitByte
  else (numeral 10 value.natAbs).map digitByte

end GreenTurtle.Numeral
