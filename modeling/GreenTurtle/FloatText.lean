import GreenTurtle.CursorText
import Mathlib.Tactic

/-!
# What floating-point numbers print as

`WriteExponent`, `Prettify` and `dtoa_milo` of `num2a.h`.  The shortest digits
and their exponent come from `Grisu2` and are an input here.  `Prettify` then
lays them out in one of five ways, each of which is longer than the digits, but
`dtoa_milo` returns the number of the digits.
-/

namespace GreenTurtle.Num2a

open Memory
open Formatting
open Numeral

/-- What `Grisu2` delivers: one to seventeen digits, the first not zero. -/
structure ShortestDigits where
  digits : List ℕ
  length_pos : 0 < digits.length
  length_le : digits.length ≤ 17
  lt_ten : ∀ d ∈ digits, d < 10
  lead_ne_zero : digits.head? ≠ some 0

/-- A finite floating-point value: zero, or a sign, the digits and the exponent
of the last one. -/
inductive FloatValue where
  | zero
  | nonzero (negative : Bool) (shortest : ShortestDigits) (k : ℤ)

/-! ## The functions -/

def writeExponent (k : ℤ) (buffer : Cursor) : Cursor :=
  let buffer := if k < 0 then buffer.put 45 else buffer
  let k := k.natAbs
  let buffer :=
    if 100 ≤ k then
      ((buffer.put (UInt8.ofNat (48 + k / 100))).put
        (lut (k % 100 * 2))).put (lut (k % 100 * 2 + 1))
    else if 10 ≤ k then
      (buffer.put (lut (k * 2))).put (lut (k * 2 + 1))
    else buffer.put (UInt8.ofNat (48 + k))
  buffer.put 0

def prettify
    (array : ℤ → Byte) (buffer : ℤ) (length : ℕ) (k : ℤ) : ℤ → Byte :=
  let kk := length + k
  if length ≤ kk ∧ kk ≤ 21 then
    let array := memset array (buffer + length) 48 (kk - length).toNat
    let array := store array (buffer + kk) [46]
    let array := store array (buffer + kk + 1) [48]
    store array (buffer + kk + 2) [0]
  else if 0 < kk ∧ kk ≤ 21 then
    let array :=
      memmove array (buffer + kk + 1) (buffer + kk) (length - kk).toNat
    let array := store array (buffer + kk) [46]
    store array (buffer + length + 1) [0]
  else if -6 < kk ∧ kk ≤ 0 then
    let offset := 2 - kk
    let array := memmove array (buffer + offset) buffer length
    let array := store array buffer [48]
    let array := store array (buffer + 1) [46]
    let array := memset array (buffer + 2) 48 (offset - 2).toNat
    store array (buffer + length + offset) [0]
  else if length = 1 then
    (writeExponent (kk - 1)
      { array := store array (buffer + 1) [101], pos := buffer + 2 }).array
  else
    let array := memmove array (buffer + 2) (buffer + 1) (length - 1)
    let array := store array (buffer + 1) [46]
    let array := store array (buffer + length + 1) [101]
    (writeExponent (kk - 1)
      { array := array, pos := buffer + length + 2 }).array

def dtoaMilo (value : FloatValue) (array : ℤ → Byte) : Converted :=
  match value with
  | .zero => (3, store array 0 [48, 46, 48, 0])
  | .nonzero negative shortest k =>
      let buffer : Cursor := { array := array, pos := 0 }
      let buffer := if negative then buffer.put 45 else buffer
      let length := shortest.digits.length
      let array :=
        store buffer.array buffer.pos (shortest.digits.map digitByte)
      (length, prettify array buffer.pos length k)

/-- `ToString` of a floating-point number. -/
def floatingToString
    (value : FloatValue) (array mem : ℤ → Byte) (cursor left : ℤ) :
    ℤ × (ℤ → Byte) :=
  let converted := dtoaMilo value array
  toString (.floating (slice converted.2 0 converted.1.toNat)) mem cursor
    left

/-! ## The layouts -/

def exponentText (k : ℤ) : List Byte :=
  (if k < 0 then [45] else []) ++
    if 100 ≤ k.natAbs then
      [UInt8.ofNat (48 + k.natAbs / 100), lut (k.natAbs % 100 * 2),
        lut (k.natAbs % 100 * 2 + 1)]
    else if 10 ≤ k.natAbs then
      [lut (k.natAbs * 2), lut (k.natAbs * 2 + 1)]
    else [UInt8.ofNat (48 + k.natAbs)]

/-- The part in front of the exponent, with the letter. -/
def mantissaText (text : List Byte) (kk : ℤ) : List Byte :=
  if text.length ≤ kk ∧ kk ≤ 21 then
    text ++ List.replicate (kk - text.length).toNat 48 ++ [46, 48]
  else if 0 < kk ∧ kk ≤ 21 then
    text.take kk.toNat ++ ([46] ++ text.drop kk.toNat)
  else if -6 < kk ∧ kk ≤ 0 then
    [48, 46] ++ List.replicate (-kk).toNat 48 ++ text
  else if text.length = 1 then text ++ [101]
  else text.take 1 ++ ([46] ++ text.drop 1) ++ [101]

/-- The text that `Prettify` leaves. -/
def prettyText (text : List Byte) (kk : ℤ) : List Byte :=
  mantissaText text kk ++
    if -6 < kk ∧ kk ≤ 21 then [] else exponentText (kk - 1)

theorem writeExponent_appends (k : ℤ) (buffer : Cursor) :
    Appends buffer (writeExponent k buffer) (exponentText k ++ [0]) := by
  have hsign := (Appends.refl buffer).putIf (k < 0) 45
  rw [List.nil_append] at hsign
  unfold writeExponent exponentText
  dsimp only
  apply Appends.put
  apply hsign.trans
  generalize (if k < 0 then buffer.put 45 else buffer) = signed
  split
  next => exact ((appends_put _ _).put _).put _
  next =>
    split
    next => exact (appends_put _ _).put _
    next => exact appends_put _ _

section Layouts

variable {buffer : Cursor} {array : ℤ → Byte} {text : List Byte} {kk : ℤ}

/-- Zeros and a point behind the digits. -/
theorem prettify_integral
    (hdigits :
      Appends buffer
        { array := array, pos := buffer.pos + text.length } text)
    (hge : text.length ≤ kk) :
    ∃ pos,
      Appends buffer
        { array :=
            store
              (store
                (store
                  (memset array (buffer.pos + text.length) 48
                    (kk - text.length).toNat)
                  (buffer.pos + kk) [46])
                (buffer.pos + kk + 1) [48])
              (buffer.pos + kk + 2) [0]
          pos := pos }
        (text ++ List.replicate (kk - text.length).toNat 48 ++ [46, 48] ++
          [0]) := by
  have hzeros :=
    hdigits.store (List.replicate (kk - text.length).toNat 48)
  have hend :
      buffer.pos + text.length +
          (List.replicate (kk - text.length).toNat (48 : Byte)).length =
        buffer.pos + kk := by
    rw [List.length_replicate]
    omega
  rw [hend] at hzeros
  have hall := ((hzeros.store [46]).store [48]).store [0]
  simp only [List.length_singleton, Nat.cast_one, List.append_assoc,
    List.cons_append, List.nil_append, add_assoc] at hall ⊢
  exact ⟨_, hall⟩

/-- A point among the digits. -/
theorem prettify_point
    (hdigits :
      Appends buffer
        { array := array, pos := buffer.pos + text.length } text)
    (hpos : 0 < kk) (hlt : kk < text.length) :
    ∃ pos,
      Appends buffer
        { array :=
            store
              (store
                (memmove array (buffer.pos + kk + 1) (buffer.pos + kk)
                  (text.length - kk).toNat)
                (buffer.pos + kk) [46])
              (buffer.pos + text.length + 1) [0]
          pos := pos }
        (text.take kk.toNat ++ ([46] ++ text.drop kk.toNat) ++ [0]) := by
  have hfront : (text.take kk.toNat).length = kk.toNat := by
    rw [List.length_take]
    omega
  have hplace : ((text.take kk.toNat).length : ℤ) = kk := by omega
  have hrest :
      (text.drop kk.toNat).length = (text.length - kk).toNat := by
    rw [List.length_drop]
    omega
  rw [← List.take_append_drop kk.toNat text] at hdigits
  have hall := (hdigits.insert [46]).store [0]
  rw [List.take_append_drop, hplace, hrest] at hall
  exact ⟨_, hall⟩

/-- Zeros and a point in front of the digits. -/
theorem prettify_fraction
    (hdigits :
      Appends buffer
        { array := array, pos := buffer.pos + text.length } text)
    (hle : kk ≤ 0) :
    ∃ pos,
      Appends buffer
        { array :=
            store
              (memset
                (store
                  (store
                    (memmove array (buffer.pos + (2 - kk)) buffer.pos
                      text.length)
                    buffer.pos [48])
                  (buffer.pos + 1) [46])
                (buffer.pos + 2) 48 (2 - kk - 2).toNat)
              (buffer.pos + text.length + (2 - kk)) [0]
          pos := pos }
        ([48, 46] ++ List.replicate (-kk).toNat 48 ++ text ++ [0]) := by
  have hgap :
      ([48, 46] ++ List.replicate (-kk).toNat 48 : List Byte).length =
        2 - kk := by
    simp only [List.length_append, List.length_cons, List.length_nil,
      List.length_replicate]
    omega
  have hstores :
      ∀ mem : ℤ → Byte,
        memset (store (store mem buffer.pos [48]) (buffer.pos + 1) [46])
            (buffer.pos + 2) 48 (2 - kk - 2).toNat =
          store mem buffer.pos
            ([48, 46] ++ List.replicate (-kk).toNat 48) := by
    intro mem
    have hpair := store_append mem buffer.pos [48] [46]
    have hzeros :=
      store_append mem buffer.pos [48, 46]
        (List.replicate (-kk).toNat 48)
    rw [← hzeros, memset, show (2 - kk - 2).toNat = (-kk).toNat by omega]
    exact congrArg
      (fun pair => store pair (buffer.pos + 2)
        (List.replicate (-kk).toNat 48)) hpair
  have hinsert :=
    @Appends.insert buffer array (buffer.pos + text.length) [] text hdigits
      ([48, 46] ++ List.replicate (-kk).toNat 48)
  simp only [List.length_nil, Nat.cast_zero, add_zero, List.nil_append,
    hgap] at hinsert
  have hall := hinsert.store [0]
  rw [hstores]
  exact ⟨_, hall⟩

/-- One digit and an exponent. -/
theorem prettify_digit
    (hdigits :
      Appends buffer
        { array := array, pos := buffer.pos + text.length } text)
    (hone : text.length = 1) :
    Appends buffer
      (writeExponent (kk - 1)
        { array := store array (buffer.pos + 1) [101]
          pos := buffer.pos + 2 })
      (text ++ [101] ++ exponentText (kk - 1) ++ [0]) := by
  have hletter := hdigits.store [101]
  rw [hone, List.length_singleton, Nat.cast_one, add_assoc] at hletter
  rw [List.append_assoc]
  exact hletter.trans (writeExponent_appends (kk - 1) _)

/-- A point behind the first digit, and an exponent. -/
theorem prettify_scientific
    (hdigits :
      Appends buffer
        { array := array, pos := buffer.pos + text.length } text)
    (hpos : 0 < text.length) :
    Appends buffer
      (writeExponent (kk - 1)
        { array :=
            store
              (store
                (memmove array (buffer.pos + 2) (buffer.pos + 1)
                  (text.length - 1))
                (buffer.pos + 1) [46])
              (buffer.pos + text.length + 1) [101]
          pos := buffer.pos + text.length + 2 })
      (text.take 1 ++ ([46] ++ text.drop 1) ++ [101] ++
        exponentText (kk - 1) ++ [0]) := by
  have hfront : (text.take 1).length = 1 := by
    rw [List.length_take]
    omega
  rw [← List.take_append_drop 1 text] at hdigits
  have hletter := (hdigits.insert [46]).store [101]
  rw [List.take_append_drop, hfront, List.length_drop] at hletter
  simp only [List.length_singleton, Nat.cast_one, add_assoc] at hletter
  rw [List.append_assoc]
  have hall := hletter.trans (writeExponent_appends (kk - 1) _)
  simp only [add_assoc] at hall ⊢
  exact hall

end Layouts

theorem prettify_appends
    {buffer : Cursor} {array : ℤ → Byte} {text : List Byte}
    (hdigits :
      Appends buffer
        { array := array, pos := buffer.pos + text.length } text)
    (hpos : 0 < text.length) (k : ℤ) :
    ∃ pos,
      Appends buffer
        { array := prettify array buffer.pos text.length k, pos := pos }
        (prettyText text (text.length + k) ++ [0]) := by
  unfold prettify prettyText mantissaText
  dsimp only
  generalize (text.length : ℤ) + k = kk
  by_cases hintegral : text.length ≤ kk ∧ kk ≤ 21
  · rw [if_pos hintegral, if_pos hintegral, if_pos (by omega),
      List.append_nil]
    exact prettify_integral hdigits hintegral.1
  · rw [if_neg hintegral, if_neg hintegral]
    by_cases hpoint : 0 < kk ∧ kk ≤ 21
    · rw [if_pos hpoint, if_pos hpoint, if_pos (by omega), List.append_nil]
      exact prettify_point hdigits hpoint.1 (by omega)
    · rw [if_neg hpoint, if_neg hpoint]
      by_cases hfraction : -6 < kk ∧ kk ≤ 0
      · rw [if_pos hfraction, if_pos hfraction, if_pos (by omega),
          List.append_nil]
        exact prettify_fraction hdigits hfraction.2
      · have hexponent : ¬ (-6 < kk ∧ kk ≤ 21) := by omega
        rw [if_neg hfraction, if_neg hfraction, if_neg hexponent]
        by_cases hone : text.length = 1
        · rw [if_pos hone, if_pos hone]
          exact ⟨_, prettify_digit hdigits hone⟩
        · rw [if_neg hone, if_neg hone]
          exact ⟨_, prettify_scientific hdigits hpos⟩

/-! ## The length -/

theorem mantissaText_ne_zero
    {text : List Byte} (htext : ∀ b ∈ text, b ≠ 0) (kk : ℤ) {b : Byte}
    (hb : b ∈ mantissaText text kk) : b ≠ 0 := by
  have hpadded : ∀ count, b ∈ List.replicate count (48 : Byte) → b ≠ 0 := by
    intro count hmem
    rw [List.eq_of_mem_replicate hmem]
    decide
  have hfixed : ∀ c : Byte, c ≠ 0 → b = c → b ≠ 0 := by
    intro c hc heq
    rwa [heq]
  unfold mantissaText at hb
  repeat' split at hb
  all_goals
    simp only [List.mem_append, List.mem_cons, List.not_mem_nil, or_false]
      at hb
  · rcases hb with (hb | hb) | hb | hb
    · exact htext b hb
    · exact hpadded _ hb
    · exact hfixed 46 (by decide) hb
    · exact hfixed 48 (by decide) hb
  · rcases hb with hb | hb | hb
    · exact htext b (List.mem_of_mem_take hb)
    · exact hfixed 46 (by decide) hb
    · exact htext b (List.mem_of_mem_drop hb)
  · rcases hb with ((hb | hb) | hb) | hb
    · exact hfixed 48 (by decide) hb
    · exact hfixed 46 (by decide) hb
    · exact hpadded _ hb
    · exact htext b hb
  · rcases hb with hb | hb
    · exact htext b hb
    · exact hfixed 101 (by decide) hb
  · rcases hb with (hb | hb | hb) | hb
    · exact htext b (List.mem_of_mem_take hb)
    · exact hfixed 46 (by decide) hb
    · exact htext b (List.mem_of_mem_drop hb)
    · exact hfixed 101 (by decide) hb

/-- Every layout is longer than the digits. -/
theorem length_lt_mantissaText (text : List Byte) (kk : ℤ) :
    text.length < (mantissaText text kk).length := by
  unfold mantissaText
  repeat' split
  all_goals
    simp only [List.length_append, List.length_take, List.length_drop,
      List.length_replicate, List.length_cons, List.length_nil]
    omega

theorem Appends.array_mem
    {buffer final : Cursor} {front rest : List Byte}
    (happends : Appends buffer final (front ++ rest)) {i : ℕ}
    (hi : i < front.length) :
    final.array (buffer.pos + i) ∈ front := by
  have hslice := happends.slice_eq
  rw [List.length_append, slice_add] at hslice
  rcases List.append_inj hslice (length_slice _ _ _) with ⟨hfront, _⟩
  rw [← hfront]
  exact List.mem_map.mpr ⟨i, List.mem_range.mpr hi, rfl⟩

theorem digitByte_ne_zero {digit : ℕ} (hlt : digit < 10) :
    digitByte digit ≠ 0 := by
  have hall : ∀ d < 10, digitByte d ≠ 0 := by decide
  exact hall digit hlt

/-- Behind the digits, counted from the start of the array, there is more
text. -/
theorem dtoaMilo_continues
    (negative : Bool) (shortest : ShortestDigits) (k : ℤ)
    (array : ℤ → Byte) :
    (dtoaMilo (.nonzero negative shortest k) array).2
        shortest.digits.length ≠ 0 := by
  have hlength :
      (shortest.digits.map digitByte).length = shortest.digits.length :=
    List.length_map _
  have hpos := shortest.length_pos
  have hbytes : ∀ b ∈ shortest.digits.map digitByte, b ≠ 0 := by
    intro b hb
    rcases List.mem_map.mp hb with ⟨d, hd, rfl⟩
    exact digitByte_ne_zero (shortest.lt_ten d hd)
  have hcontinues :
      ∀ (buffer : Cursor) (i : ℕ), i ≤ shortest.digits.length →
        prettify
            (store buffer.array buffer.pos (shortest.digits.map digitByte))
            buffer.pos shortest.digits.length k (buffer.pos + i) ≠ 0 := by
    intro buffer i hi
    have hlt :=
      length_lt_mantissaText (shortest.digits.map digitByte)
        (shortest.digits.length + k)
    rcases prettify_appends
        (appends_store buffer (shortest.digits.map digitByte)) (by omega)
        k with ⟨pos, hall⟩
    rw [hlength, prettyText, List.append_assoc] at hall
    exact mantissaText_ne_zero hbytes _ (hall.array_mem (by omega))
  cases negative with
  | false =>
      have hend :=
        hcontinues { array := array, pos := 0 } _ le_rfl
      rw [zero_add] at hend
      exact hend
  | true =>
      have hend :=
        hcontinues (Cursor.put { array := array, pos := 0 } 45)
          (shortest.digits.length - 1) (by omega)
      have hplace :
          (Cursor.put { array := array, pos := 0 } 45).pos +
              (shortest.digits.length - 1 : ℕ) =
            shortest.digits.length := by
        simp only [Cursor.put]
        omega
      rw [hplace] at hend
      exact hend

/-- A text that ends at the first zero. -/
structure IsCString
    (mem : ℤ → Byte) (start : ℤ) (text : List Byte) : Prop where
  slice_eq : slice mem start text.length = text
  terminated : mem (start + text.length) = 0
  ne_zero : ∀ b ∈ text, b ≠ 0

/-- The returned length is that of the text, and `ToString` copies all of
it. -/
def NotCut (value : FloatValue) (array : ℤ → Byte) : Prop :=
  ∃ text, IsCString (dtoaMilo value array).2 0 text ∧
    (dtoaMilo value array).1 = text.length ∧
      ∀ mem cursor (left : ℤ), text.length ≤ left →
        floatingToString value array mem cursor left =
          ((text.length : ℤ), store mem cursor text)

theorem dtoaMilo_notCut_iff (value : FloatValue) (array : ℤ → Byte) :
    NotCut value array ↔ value = .zero := by
  constructor
  · rintro ⟨text, hstring, hreturned, _⟩
    cases value with
    | zero => rfl
    | nonzero negative shortest k =>
        have hlength : shortest.digits.length = text.length := by
          have hsame : (shortest.digits.length : ℤ) = text.length :=
            hreturned
          omega
        have hterminated := hstring.terminated
        rw [zero_add, ← hlength] at hterminated
        exact absurd hterminated
          (dtoaMilo_continues negative shortest k array)
  · rintro rfl
    have hslice : slice (store array 0 [48, 46, 48, 0]) 0 3 = [48, 46, 48] := by
      have hstored := slice_store array 0 [48, 46, 48, 0]
      rw [← take_slice _ _ (by simp : 3 ≤ [48, 46, 48, (0 : Byte)].length),
        hstored]
      rfl
    refine ⟨[48, 46, 48], ⟨hslice, rfl, by simp⟩, rfl, ?_⟩
    intro mem cursor left hroom
    have hdigits :
        slice (dtoaMilo .zero array).2 0
            (dtoaMilo .zero array).1.toNat = [48, 46, 48] := hslice
    simp only [floatingToString, hdigits]
    exact if_pos hroom

/-- One prints as its first digit, without the point and the zero. -/
theorem one_printed_short :
    ∃ shortest : ShortestDigits, shortest.digits = [1] ∧
      (dtoaMilo (.nonzero false shortest 0) (fun _ => 0)).1 = 1 ∧
        slice (dtoaMilo (.nonzero false shortest 0) (fun _ => 0)).2 0 4 =
          [49, 46, 48, 0] ∧
          ¬ NotCut (.nonzero false shortest 0) (fun _ => 0) := by
  refine ⟨⟨[1], by decide, by decide, by decide, by decide⟩, rfl, rfl,
    by decide +kernel, ?_⟩
  rintro ⟨text, hstring, hreturned, _⟩
  have hlength : text.length = 1 := by
    have hone : (1 : ℤ) = text.length := hreturned
    omega
  have hterminated := hstring.terminated
  rw [hlength] at hterminated
  revert hterminated
  decide +kernel

end GreenTurtle.Num2a
