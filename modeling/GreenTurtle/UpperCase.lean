import GreenTurtle.FormatModel
import Mathlib.Tactic

/-!
# Upper case, four bytes at a time

`ToUpper` of `format.h` works on words.  No step carries from one byte into the
next, so the word splits into its bytes, and each byte can be looked at alone.
-/

namespace GreenTurtle.Formatting

/-- The arithmetic of `ToUpper` with its four constants as parameters. -/
def raiseLanes {w : ℕ} (low five alpha bit eax : BitVec w) : BitVec w :=
  eax - (((((low &&& ((low &&& eax) + five)) + alpha) &&& ~~~eax) >>> 2) &&&
    bit)

def raiseByte (b : BitVec 8) : BitVec 8 :=
  raiseLanes 0x7f#8 0x05#8 0x1a#8 0x20#8 b

theorem toUpperWord_eq_raiseLanes (eax : BitVec 32) :
    toUpperWord eax =
      raiseLanes 0x7f7f7f7f#32 0x05050505#32 0x1a1a1a1a#32 0x20202020#32
        eax := rfl

/-! ## Words that end in a byte -/

section Append

variable {w v : ℕ} {x₁ y₁ : BitVec w} {x₂ y₂ : BitVec v}

theorem toNat_append_eq (x : BitVec w) (y : BitVec v) :
    (x ++ y).toNat = x.toNat * 2 ^ v + y.toNat := by
  rw [BitVec.toNat_append, ← Nat.shiftLeft_add_eq_or_of_lt y.isLt,
    Nat.shiftLeft_eq]

theorem append_add_append (hcarry : x₂.toNat + y₂.toNat < 2 ^ v) :
    (x₁ ++ x₂) + (y₁ ++ y₂) = (x₁ + y₁) ++ (x₂ + y₂) := by
  apply BitVec.eq_of_toNat_eq
  rw [BitVec.toNat_add, toNat_append_eq, toNat_append_eq, toNat_append_eq,
    BitVec.toNat_add, BitVec.toNat_add, Nat.mod_eq_of_lt hcarry]
  have hsum :
      x₁.toNat * 2 ^ v + x₂.toNat + (y₁.toNat * 2 ^ v + y₂.toNat) =
        x₂.toNat + y₂.toNat + 2 ^ v * (x₁.toNat + y₁.toNat) := by
    ring
  rw [hsum, Nat.add_comm w v, pow_add, Nat.mod_mul,
    Nat.add_mul_mod_self_left, Nat.mod_eq_of_lt hcarry,
    Nat.add_mul_div_left _ _ (Nat.two_pow_pos v), Nat.div_eq_of_lt hcarry,
    zero_add]
  ring

theorem append_sub_append (hborrow : y₂ ≤ x₂) :
    (x₁ ++ x₂) - (y₁ ++ y₂) = (x₁ - y₁) ++ (x₂ - y₂) := by
  rw [BitVec.sub_eq_iff_eq_add, append_add_append, BitVec.sub_add_cancel,
    BitVec.sub_add_cancel]
  rw [BitVec.toNat_sub_of_le hborrow]
  have hle : y₂.toNat ≤ x₂.toNat := hborrow
  have hlt := x₂.isLt
  omega

/-- Bits that a shift moves over the border are masked out. -/
theorem append_shift_and_append
    (n : ℕ) (hmask : ∀ i, v ≤ i + n → y₂.getLsbD i = false) :
    ((x₁ ++ x₂) >>> n) &&& (y₁ ++ y₂) =
      ((x₁ >>> n) &&& y₁) ++ ((x₂ >>> n) &&& y₂) := by
  apply BitVec.eq_of_getLsbD_eq
  intro i hi
  simp only [BitVec.getLsbD_and, BitVec.getLsbD_ushiftRight,
    BitVec.getLsbD_append]
  by_cases hlow : i < v
  · by_cases hin : n + i < v
    · simp [hlow, hin]
    · rw [if_pos hlow, if_pos hlow, hmask i (by omega), Bool.and_false,
        Bool.and_false]
  · have hplace : n + i - v = n + (i - v) := by omega
    simp [hlow, show ¬ n + i < v by omega, hplace]

end Append

/-! ## One byte -/

theorem raiseByte_no_carry (b : BitVec 8) :
    (0x7f#8 &&& b).toNat + (0x05#8).toNat < 2 ^ 8 ∧
      (0x7f#8 &&& ((0x7f#8 &&& b) + 0x05#8)).toNat + (0x1a#8).toNat <
        2 ^ 8 := by
  revert b
  decide

theorem raiseByte_no_borrow (b : BitVec 8) :
    (((((0x7f#8 &&& ((0x7f#8 &&& b) + 0x05#8)) + 0x1a#8) &&& ~~~b) >>> 2) &&&
      0x20#8) ≤ b := by
  revert b
  decide

theorem raiseLanes_append
    {w : ℕ} (low five alpha bit x : BitVec w) (b : BitVec 8) :
    raiseLanes (low ++ 0x7f#8) (five ++ 0x05#8) (alpha ++ 0x1a#8)
        (bit ++ 0x20#8) (x ++ b) =
      raiseLanes low five alpha bit x ++ raiseByte b := by
  have hmask : ∀ i, 8 ≤ i + 2 → (0x20#8).getLsbD i = false := by
    intro i hi
    by_cases hsmall : i < 8
    · have hge : 6 ≤ i := by omega
      interval_cases i <;> rfl
    · exact BitVec.getLsbD_of_ge _ _ (by omega)
  unfold raiseByte raiseLanes
  rw [BitVec.and_append, append_add_append (raiseByte_no_carry b).1,
    BitVec.and_append, append_add_append (raiseByte_no_carry b).2,
    BitVec.not_append, BitVec.and_append,
    append_shift_and_append 2 hmask, append_sub_append]
  exact raiseByte_no_borrow b

theorem raiseByte_eq_upperChar (b : Byte) :
    raiseByte b.toBitVec = (upperChar b).toBitVec := by
  have hall :
      ∀ x : BitVec 8, raiseByte x = (upperChar ⟨x⟩).toBitVec := by
    decide
  exact hall b.toBitVec

/-! ## Texts -/

theorem toUpperWord_wordOfBytes (b0 b1 b2 b3 : Byte) :
    toUpperWord (wordOfBytes b0 b1 b2 b3) =
      wordOfBytes (upperChar b0) (upperChar b1) (upperChar b2)
        (upperChar b3) := by
  unfold wordOfBytes
  rw [toUpperWord_eq_raiseLanes,
    show 0x7f7f7f7f#32 = 0x7f#8 ++ 0x7f#8 ++ 0x7f#8 ++ 0x7f#8 from rfl,
    show 0x05050505#32 = 0x05#8 ++ 0x05#8 ++ 0x05#8 ++ 0x05#8 from rfl,
    show 0x1a1a1a1a#32 = 0x1a#8 ++ 0x1a#8 ++ 0x1a#8 ++ 0x1a#8 from rfl,
    show 0x20202020#32 = 0x20#8 ++ 0x20#8 ++ 0x20#8 ++ 0x20#8 from rfl]
  repeat rw [raiseLanes_append]
  rw [← raiseByte_eq_upperChar, ← raiseByte_eq_upperChar,
    ← raiseByte_eq_upperChar, ← raiseByte_eq_upperChar]
  rfl

theorem bytesOfWord_wordOfBytes (b0 b1 b2 b3 : Byte) :
    bytesOfWord (wordOfBytes b0 b1 b2 b3) = [b0, b1, b2, b3] := by
  have hbyte :
      ∀ (start : ℕ) (b : Byte),
        (wordOfBytes b0 b1 b2 b3).toNat >>> start % 2 ^ 8 = b.toNat →
          (⟨(wordOfBytes b0 b1 b2 b3).extractLsb' start 8⟩ : Byte) = b := by
    intro start b hvalue
    apply UInt8.toNat_inj.mp
    rw [← hvalue]
    exact BitVec.extractLsb'_toNat start 8 _
  have hword :
      (wordOfBytes b0 b1 b2 b3).toNat =
        ((b3.toNat * 2 ^ 8 + b2.toNat) * 2 ^ 8 + b1.toNat) * 2 ^ 8 +
          b0.toNat := by
    unfold wordOfBytes
    rw [toNat_append_eq, toNat_append_eq, toNat_append_eq]
    rfl
  have h0 := b0.toNat_lt
  have h1 := b1.toNat_lt
  have h2 := b2.toNat_lt
  have h3 := b3.toNat_lt
  unfold bytesOfWord
  rw [hbyte 0 b0, hbyte 8 b1, hbyte 16 b2, hbyte 24 b3] <;>
    rw [hword, Nat.shiftRight_eq_div_pow] <;> omega

theorem upperBytes_eq_map (text : List Byte) :
    upperBytes text = text.map upperChar := by
  induction text using upperBytes.induct with
  | case1 b0 b1 b2 b3 rest ih =>
      rw [upperBytes, ih, toUpperWord_wordOfBytes, bytesOfWord_wordOfBytes]
      rfl
  | case2 rest hshort =>
      rw [upperBytes]
      exact hshort

end GreenTurtle.Formatting
