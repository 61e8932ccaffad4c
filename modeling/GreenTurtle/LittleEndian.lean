import GreenTurtle.Memory
import Mathlib.Data.Nat.Digits.Lemmas
import Mathlib.Tactic

/-!
# Little-endian numbers

A number in a fixed number of bytes, the least significant byte first.  What
does not fit is dropped.
-/

namespace GreenTurtle.LittleEndian

def encode : ℕ → ℕ → List Byte
  | 0, _ => []
  | width + 1, value => UInt8.ofNat value :: encode width (value / 256)

def decode (bytes : List Byte) : ℕ :=
  Nat.ofDigits 256 (bytes.map UInt8.toNat)

@[simp] theorem length_encode (width value : ℕ) :
    (encode width value).length = width := by
  induction width generalizing value with
  | zero => rfl
  | succ width ih => simp [encode, ih]

theorem decode_cons (byte : Byte) (bytes : List Byte) :
    decode (byte :: bytes) = byte.toNat + 256 * decode bytes := by
  simp [decode, Nat.ofDigits_cons]

theorem decode_encode (width value : ℕ) :
    decode (encode width value) = value % 256 ^ width := by
  induction width generalizing value with
  | zero => simp [encode, decode, Nat.mod_one]
  | succ width ih =>
      rw [encode, decode_cons, ih, pow_succ' 256 width, Nat.mod_mul]
      rfl

theorem decode_encode_of_lt
    {width value : ℕ} (hlt : value < 256 ^ width) :
    decode (encode width value) = value := by
  rw [decode_encode, Nat.mod_eq_of_lt hlt]

theorem encode_mod (width value : ℕ) :
    encode width (value % 256 ^ width) = encode width value := by
  induction width generalizing value with
  | zero => rfl
  | succ width ih =>
      have hbyte :
          UInt8.ofNat (value % 256 ^ (width + 1)) = UInt8.ofNat value := by
        apply UInt8.toNat_inj.mp
        rw [UInt8.toNat_ofNat', UInt8.toNat_ofNat', pow_succ' 256 width]
        exact Nat.mod_mul_right_mod value 256 (256 ^ width)
      have hrest :
          value % 256 ^ (width + 1) / 256 = value / 256 % 256 ^ width := by
        rw [pow_succ' 256 width, Nat.mod_mul_right_div_self]
      rw [encode, encode, hbyte, hrest, ih]

end GreenTurtle.LittleEndian
