import GreenTurtle.Num2aModel
import Mathlib.Tactic

/-!
# Digits in a vector register

`Convert8DigitsSSE2` divides by powers of ten with multiplications.  For eight
digits the lanes never overflow where it matters, and the result is the eight
digits, the first in the lowest lane.
-/

namespace GreenTurtle.Num2a

open Simd128
open Numeral

/-! ## Eight digits at once -/

/-- A small number fills the lowest lane. -/
theorem pack_small (x : ℕ) :
    pack 64 [x, 0] = x ∧ pack 32 [x, 0, 0, 0] = x ∧
      pack 16 [x, 0, 0, 0, 0, 0, 0, 0] = x := by
  simp [pack, Nat.ofDigits_cons]

theorem mulEpu32_small {x y : ℕ} (hx : x < 2 ^ 32) (hy : y < 2 ^ 32) :
    mulEpu32 x (pack 32 [y, y, y, y]) = pack 64 [x * y, 0] := by
  have hvector :
      pack 32 [y, y, y, y] = pack 64 [y + 2 ^ 32 * y, y + 2 ^ 32 * y] :=
    (pack_join 32 [y, y, y, y]).symm
  rw [hvector, ← (pack_small x).1, mulEpu32, lanewise_pack]
  · simp only [List.zipWith_cons_cons, List.zipWith_nil_left, Nat.zero_mod,
      Nat.zero_mul, Nat.add_mul_mod_self_left, Nat.mod_eq_of_lt hx,
      Nat.mod_eq_of_lt hy, (pack_small x).1]
  · exact ⟨rfl, by simp; omega⟩
  · exact ⟨rfl, by simp; omega⟩

theorem convert_upper {value : ℕ} (hlt : value < 100000000) :
    srliEpi64 (mulEpu32 value kDiv10000Vector) 45 = value / 10000 := by
  have hmul :
      mulEpu32 value kDiv10000Vector = pack 64 [value * kDiv10000, 0] :=
    mulEpu32_small (by omega) (by decide)
  have hquotient : value * kDiv10000 / 2 ^ 45 = value / 10000 := by
    unfold kDiv10000
    omega
  rw [hmul, srliEpi64, lanes_pack]
  · rw [List.map_cons, hquotient]
    exact (pack_small _).1
  · refine ⟨rfl, ?_⟩
    simp only [List.mem_cons, List.not_mem_nil, or_false, forall_eq_or_imp,
      forall_eq, kDiv10000]
    omega

theorem subEpi32_small {x y : ℕ} (hx : x < 2 ^ 32) (hle : y ≤ x) :
    subEpi 32 x y = x - y := by
  have hdifference : (x + 2 ^ 32 - y) % 2 ^ 32 = x - y := by omega
  have hlanes :
      subEpi 32 (pack 32 [x, 0, 0, 0]) (pack 32 [y, 0, 0, 0]) =
        pack 32 [x - y, 0, 0, 0] := by
    rw [subEpi, lanewise_pack]
    · simp only [List.zipWith_cons_cons, List.zipWith_nil_left, hdifference]
      rfl
    · exact ⟨rfl, by simp; omega⟩
    · exact ⟨rfl, by simp; omega⟩
  rwa [(pack_small x).2.1, (pack_small y).2.1, (pack_small (x - y)).2.1]
    at hlanes

theorem convert_lower {value : ℕ} (hlt : value < 100000000) :
    subEpi 32 value (mulEpu32 (value / 10000 : ℕ) k10000Vector) =
      value % 10000 := by
  have hmul :
      mulEpu32 (value / 10000 : ℕ) k10000Vector =
        pack 64 [value / 10000 * 10000, 0] :=
    mulEpu32_small (by omega) (by norm_num)
  have hrest : value - value / 10000 * 10000 = value % 10000 := by omega
  rw [hmul, (pack_small _).1, subEpi32_small (by omega) (by omega)]
  exact hrest

theorem pack_quads (a b c d e f g h : ℕ) :
    pack 16 [a, b, c, d, e, f, g, h] =
      pack 64
        [a + 2 ^ 16 * b + 2 ^ 32 * (c + 2 ^ 16 * d),
          e + 2 ^ 16 * f + 2 ^ 32 * (g + 2 ^ 16 * h)] := by
  rw [← pack_join 16, ← pack_join 32]
  rfl

/-- A shift by one lane drops the top lane of each half. -/
theorem slliEpi64_sixteen
    {a b c d e f g h : ℕ} (hfills : Fills 16 [a, b, c, d, e, f, g, h]) :
    slliEpi64 (pack 16 [a, b, c, d, e, f, g, h]) 16 =
      pack 16 [0, a, b, c, 0, e, f, g] := by
  have hlt := hfills.lt
  simp only [List.mem_cons, List.not_mem_nil, or_false, forall_eq_or_imp,
    forall_eq] at hlt
  have hhalf :
      ∀ w x y z : ℕ, w < 2 ^ 16 → x < 2 ^ 16 → y < 2 ^ 16 → z < 2 ^ 16 →
        (w + 2 ^ 16 * x + 2 ^ 32 * (y + 2 ^ 16 * z)) * 2 ^ 16 % 2 ^ 64 =
          0 + 2 ^ 16 * w + 2 ^ 32 * (x + 2 ^ 16 * y) := by
    intro w x y z hw hx hy hz
    omega
  rw [pack_quads, pack_quads, slliEpi64, lanes_pack]
  · rw [List.map_cons, List.map_cons, hhalf a b c d (by tauto) (by tauto)
      (by tauto) (by tauto), hhalf e f g h (by tauto) (by tauto) (by tauto)
      (by tauto)]
    rfl
  · refine ⟨rfl, ?_⟩
    simp only [List.mem_cons, List.not_mem_nil, or_false, forall_eq_or_imp,
      forall_eq]
    omega

theorem field_four (value : ℕ) :
    field 10 4 value =
      [value / 1000 % 10, value / 100 % 10, value / 10 % 10, value % 10] := by
  simp [field, Nat.div_div_eq_div_mul]

section Spread

variable {a e : ℕ}

/-- Two groups of four digits become eight equal lanes. -/
theorem convert_spread (ha : a < 10000) (he : e < 10000) :
    let v1a := slliEpi64 (unpacklo 16 a e) 2
    unpacklo 32 (unpacklo 16 v1a v1a) (unpacklo 16 v1a v1a) =
      pack 16
        [4 * a, 4 * a, 4 * a, 4 * a, 4 * e, 4 * e, 4 * e, 4 * e] := by
  have hpair :
      unpacklo 16 a e = pack 16 [a, e, 0, 0, 0, 0, 0, 0] := by
    have hfills :
        ∀ x < 10000, Fills 16 [x, 0, 0, 0, 0, 0, 0, 0] := by
      intro x hx
      exact ⟨rfl, by simp; omega⟩
    rw [← (pack_small a).2.2, ← (pack_small e).2.2, unpacklo,
      lanes_pack (hfills a ha), lanes_pack (hfills e he)]
    simp [(pack_small _).2.2]
  have hscaled :
      slliEpi64 (unpacklo 16 a e) 2 =
        pack 16 [4 * a, 4 * e, 0, 0, 0, 0, 0, 0] := by
    have hlow :
        (a + 2 ^ 16 * e + 2 ^ 32 * (0 + 2 ^ 16 * 0)) * 2 ^ 2 % 2 ^ 64 =
          4 * a + 2 ^ 16 * (4 * e) + 2 ^ 32 * (0 + 2 ^ 16 * 0) := by
      omega
    rw [hpair, pack_quads, pack_quads, slliEpi64, lanes_pack]
    · rw [List.map_cons, hlow]
      rfl
    · exact ⟨rfl, by simp; omega⟩
  have hdoubled :
      unpacklo 16 (pack 16 [4 * a, 4 * e, 0, 0, 0, 0, 0, 0])
          (pack 16 [4 * a, 4 * e, 0, 0, 0, 0, 0, 0]) =
        pack 16 [4 * a, 4 * a, 4 * e, 4 * e, 0, 0, 0, 0] := by
    rw [unpacklo, lanes_pack]
    · rfl
    · exact ⟨rfl, by simp; omega⟩
  dsimp only
  rw [hscaled, hdoubled,
    ← pack_join 16 [4 * a, 4 * a, 4 * e, 4 * e, 0, 0, 0, 0],
    ← pack_join 16 [4 * a, 4 * a, 4 * a, 4 * a, 4 * e, 4 * e, 4 * e, 4 * e],
    unpacklo, lanes_pack]
  · rfl
  · exact ⟨rfl, by simp [join]; omega⟩

/-- The powers of ten are divided out by two multiplications. -/
theorem convert_powers (ha : a < 10000) (he : e < 10000) :
    mulhiEpu16
        (mulhiEpu16
          (pack 16
            [4 * a, 4 * a, 4 * a, 4 * a, 4 * e, 4 * e, 4 * e, 4 * e])
          kDivPowersVector)
        kShiftPowersVector =
      pack 16
        [a / 1000, a / 100, a / 10, a, e / 1000, e / 100, e / 10, e] := by
  have hquotients :
      ∀ x < 10000,
        4 * x * 8389 / 2 ^ 16 * (1 <<< (16 - (23 + 2 - 16))) / 2 ^ 16 =
            x / 1000 ∧
          4 * x * 5243 / 2 ^ 16 * (1 <<< (16 - (19 + 2 - 16))) / 2 ^ 16 =
            x / 100 ∧
          4 * x * 13108 / 2 ^ 16 * (1 <<< (16 - 1 - 2)) / 2 ^ 16 =
            x / 10 ∧
          4 * x * 32768 / 2 ^ 16 * (1 <<< 15) / 2 ^ 16 = x := by
    intro x hx
    norm_num only [Nat.shiftLeft_eq]
    omega
  have hdivisors :
      Fills 16 [8389, 5243, 13108, 32768, 8389, 5243, 13108, 32768] :=
    ⟨rfl, by decide⟩
  have hshifts :
      Fills 16
        [1 <<< (16 - (23 + 2 - 16)), 1 <<< (16 - (19 + 2 - 16)),
          1 <<< (16 - 1 - 2), 1 <<< 15, 1 <<< (16 - (23 + 2 - 16)),
          1 <<< (16 - (19 + 2 - 16)), 1 <<< (16 - 1 - 2), 1 <<< 15] :=
    ⟨rfl, by decide⟩
  rw [mulhiEpu16, mulhiEpu16, kDivPowersVector, kShiftPowersVector,
    lanewise_pack _ _ hdivisors, lanewise_pack _ _ hshifts]
  · simp only [List.zipWith_cons_cons, List.zipWith_nil_left,
      (hquotients a ha).1, (hquotients a ha).2.1, (hquotients a ha).2.2.1,
      (hquotients a ha).2.2.2, (hquotients e he).1, (hquotients e he).2.1,
      (hquotients e he).2.2.1, (hquotients e he).2.2.2]
  · exact ⟨rfl, by simp; omega⟩
  · exact ⟨rfl, by simp; omega⟩

/-- What is left of each quotient when ten times the one before is taken
away. -/
theorem convert_digits (ha : a < 10000) (he : e < 10000) :
    let v4 :=
      pack 16
        [a / 1000, a / 100, a / 10, a, e / 1000, e / 100, e / 10, e]
    subEpi 16 v4 (slliEpi64 (mulloEpi16 v4 k10Vector) 16) =
      pack 16 (field 10 4 a ++ field 10 4 e) := by
  have hv4 :
      Fills 16
        [a / 1000, a / 100, a / 10, a, e / 1000, e / 100, e / 10, e] :=
    ⟨rfl, by simp; omega⟩
  have hten : Fills 16 [10, 10, 10, 10, 10, 10, 10, 10] :=
    ⟨rfl, by decide⟩
  have hdigits :
      ∀ x < 10000,
        (x / 1000 + 2 ^ 16 - 0) % 2 ^ 16 = x / 1000 % 10 ∧
          (x / 100 + 2 ^ 16 - x / 1000 * 10 % 2 ^ 16) % 2 ^ 16 =
            x / 100 % 10 ∧
          (x / 10 + 2 ^ 16 - x / 100 * 10 % 2 ^ 16) % 2 ^ 16 =
            x / 10 % 10 ∧
          (x + 2 ^ 16 - x / 10 * 10 % 2 ^ 16) % 2 ^ 16 = x % 10 := by
    intro x hx
    omega
  dsimp only
  rw [mulloEpi16, k10Vector, lanewise_pack _ hv4 hten]
  simp only [List.zipWith_cons_cons, List.zipWith_nil_left]
  rw [slliEpi64_sixteen, subEpi, lanewise_pack _ hv4, field_four, field_four]
  · simp only [List.zipWith_cons_cons, List.zipWith_nil_left,
      List.cons_append, List.nil_append, (hdigits a ha).1,
      (hdigits a ha).2.1, (hdigits a ha).2.2.1, (hdigits a ha).2.2.2,
      (hdigits e he).1, (hdigits e he).2.1, (hdigits e he).2.2.1,
      (hdigits e he).2.2.2]
  · exact ⟨rfl, by simp; omega⟩
  · exact ⟨rfl, by simp; omega⟩

end Spread

theorem convert8Digits_eq {value : ℕ} (hlt : value < 100000000) :
    convert8Digits value = pack 16 (field 10 8 value) := by
  have hupper : value / 10000 < 10000 := by omega
  have hlower : value % 10000 < 10000 := by omega
  have hcut :
      field 10 8 value =
        field 10 4 (value / 10000) ++ field 10 4 (value % 10000) := by
    rw [field_add 4 4 value, ← field_mod 4 value]
    rfl
  have hload : cvtsi32 value = value := Nat.mod_eq_of_lt (by omega)
  have hspread := convert_spread hupper hlower
  have hdigits := convert_digits hupper hlower
  unfold convert8Digits
  dsimp only at hspread hdigits ⊢
  rw [hload, convert_upper hlt, convert_lower hlt, hspread,
    convert_powers hupper hlower, hdigits, hcut]

/-! ## Characters -/

theorem zipWith_replicate
    (op : ℕ → ℕ → ℕ) (values : List ℕ) (x : ℕ) :
    List.zipWith op values (List.replicate values.length x) =
      values.map (op · x) := by
  induction values with
  | nil => rfl
  | cons y values ih => simp [List.replicate_succ, ih]

theorem asciiDigits_eq
    {first second : List ℕ} (hfirst : first.length = 8)
    (hsecond : second.length = 8) (hdigits : ∀ d ∈ first ++ second, d < 10) :
    asciiDigits (pack 16 first) (pack 16 second) =
      pack 8 ((first ++ second).map (48 + ·)) := by
  have hfills :
      ∀ group, group.length = 8 → (∀ d ∈ group, d < 10) →
        Fills 16 group := by
    intro group hlength hlt
    exact ⟨hlength, fun d hd => lt_trans (hlt d hd) (by norm_num)⟩
  have hsaturate : (first ++ second).map saturate = first ++ second := by
    rw [List.map_congr_left (g := id), List.map_id]
    intro d hd
    have hlt := hdigits d hd
    simp only [saturate, id]
    rw [if_pos (by omega)]
    omega
  have hall : (first ++ second).length = 16 := by simp [hfirst, hsecond]
  have hadd :
      List.zipWith (fun x y => (x + y) % 2 ^ 8) (first ++ second)
          (List.replicate 16 48) =
        (first ++ second).map (48 + ·) := by
    rw [← hall, zipWith_replicate]
    apply List.map_congr_left
    intro d hd
    have hlt := hdigits d hd
    omega
  rw [asciiDigits, packusEpi16,
    lanes_pack (hfills first hfirst fun d hd => hdigits d (by simp [hd])),
    lanes_pack (hfills second hsecond fun d hd => hdigits d (by simp [hd])),
    hsaturate, addEpi, kAsciiZero, lanewise_pack, hadd]
  · exact ⟨hall, fun d hd => lt_trans (hdigits d hd) (by norm_num)⟩
  · exact ⟨rfl, by simp⟩

theorem fills_ascii
    {digits : List ℕ} (hlength : digits.length = 16)
    (hdigits : ∀ d ∈ digits, d < 10) :
    Fills 8 (digits.map (48 + ·)) := by
  constructor
  · simpa using hlength
  · intro x hx
    rcases List.mem_map.mp hx with ⟨d, hd, rfl⟩
    have hlt := hdigits d hd
    omega

/-! ## Leading zeros -/

/-- The mask has a bit for each digit that is zero. -/
theorem movemask_ascii
    {digits : List ℕ} (hlength : digits.length = 16)
    (hdigits : ∀ d ∈ digits, d < 10) :
    movemaskEpi8 (cmpeqEpi8 (pack 8 (digits.map (48 + ·))) kAsciiZero) =
      Nat.ofDigits 2 (digits.map fun d => if d = 0 then 1 else 0) := by
  have hcompare :
      List.zipWith (fun x y => if x = y then 255 else 0)
          (digits.map (48 + ·)) (List.replicate 16 48) =
        digits.map fun d => if d = 0 then 255 else 0 := by
    have hall : (digits.map (48 + ·)).length = 16 := by simpa using hlength
    rw [← hall, zipWith_replicate, List.map_map]
    apply List.map_congr_left
    intro d _
    simp
  rw [movemaskEpi8, cmpeqEpi8, kAsciiZero,
    lanewise_pack _ (fills_ascii hlength hdigits) ⟨rfl, by simp⟩, hcompare,
    lanes_pack, List.map_map]
  · congr 1
    apply List.map_congr_left
    intro d _
    simp only [Function.comp_apply]
    split <;> rfl
  · constructor
    · simpa using hlength
    · intro x hx
      rcases List.mem_map.mp hx with ⟨d, _, rfl⟩
      split <;> norm_num

theorem testBit_ofDigits
    {bits : List ℕ} (hbits : ∀ b ∈ bits, b < 2) (i : ℕ) :
    (Nat.ofDigits 2 bits).testBit i = decide (bits[i]? = some 1) := by
  rw [Nat.testBit_eq_decide_div_mod_eq,
    Nat.ofDigits_div_pow_eq_ofDigits_drop i (by norm_num) bits hbits]
  by_cases hi : i < bits.length
  · rw [List.drop_eq_getElem_cons hi, Nat.ofDigits_cons,
      Nat.add_mul_mod_self_left,
      Nat.mod_eq_of_lt (hbits _ (List.getElem_mem hi)),
      List.getElem?_eq_getElem hi]
    simp
  · rw [List.drop_eq_nil_of_le (by omega),
      List.getElem?_eq_none (by omega)]
    simp

/-- Counting trailing zeros of the inverted mask finds the first digit that is
not zero. -/
theorem ctz32_leading_zeros
    {digits : List ℕ} (hlength : digits.length = 16) {k : ℕ} (hk : k < 15)
    (hzeros : ∀ j < k, digits[j]? = some 0)
    (hlead : ∀ d, digits[k]? = some d → d ≠ 0) :
    ctz32
        ((2 ^ 32 -
            (Nat.ofDigits 2 (digits.map fun d => if d = 0 then 1 else 0) +
              1)) |||
          0x8000) = k := by
  have hbits :
      ∀ b ∈ digits.map (fun d => if d = 0 then 1 else 0), b < 2 := by
    intro b hb
    rcases List.mem_map.mp hb with ⟨d, _, rfl⟩
    split <;> norm_num
  have hmask :
      Nat.ofDigits 2 (digits.map fun d => if d = 0 then 1 else 0) <
        2 ^ 32 := by
    refine lt_of_lt_of_le (Nat.ofDigits_lt_base_pow_length (by norm_num)
      hbits) ?_
    rw [List.length_map, hlength]
    norm_num
  have hbit :
      ∀ j, j < 15 →
        ((2 ^ 32 -
            (Nat.ofDigits 2 (digits.map fun d => if d = 0 then 1 else 0) +
              1)) ||| 0x8000).testBit j =
          !decide (digits[j]? = some 0) := by
    intro j hj
    have hfixed : (0x8000 : ℕ).testBit j = false := by
      interval_cases j <;> rfl
    rw [Nat.testBit_or, Nat.testBit_two_pow_sub_succ hmask,
      testBit_ofDigits hbits, hfixed, Bool.or_false,
      decide_eq_true (by omega : j < 32), Bool.true_and, List.getElem?_map]
    rw [List.getElem?_eq_getElem (by omega : j < digits.length)]
    simp only [Option.map_some, Option.some.injEq]
    congr 2
    split <;> simp_all
  have hfound :
      (List.range 32).find? (fun i =>
        ((2 ^ 32 -
            (Nat.ofDigits 2 (digits.map fun d => if d = 0 then 1 else 0) +
              1)) ||| 0x8000).testBit i) = some k := by
    rw [List.find?_range_eq_some]
    refine ⟨?_, List.mem_range.mpr (by omega), ?_⟩
    · rw [hbit k hk]
      simp only [Bool.not_eq_true', decide_eq_false_iff_not]
      intro hzero
      exact hlead 0 hzero rfl
    · intro j hj
      rw [hbit j (by omega), hzeros j hj]
      simp
  rw [ctz32, hfound, Option.getD_some]

end GreenTurtle.Num2a
