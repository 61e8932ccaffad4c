import GreenTurtle.Buffer
import Mathlib.Tactic

/-!
# How far `Append` grows the buffer

`Buffer::Append` for every `size_t`.  The missing room is a difference of two
`size_t`, narrowed to an `int`; the new size is a sum of a `size_t` and that
`int`, and wraps as well.
-/

namespace GreenTurtle.Buffer

open FixedWidth
open Memory

/-- The variable `need`. -/
def need (len : ℕ) (buffer : Buffer) : ℤ :=
  toInt32 (toUInt64 (len - buffer.writableLength))

/-- `size_` after the call, when `realloc` succeeds whatever it is asked for. -/
def appendSize (len : ℕ) (buffer : Buffer) : ℕ :=
  if 0 < buffer.need len then toUInt64 (buffer.size + buffer.need len)
  else buffer.size

def appended (data : List Byte) (buffer : Buffer) : Buffer where
  array := store buffer.array buffer.write data
  write := toUInt64 (buffer.write + data.length)
  read := buffer.read
  size := buffer.appendSize data.length

/-- Where the model with a bounded address space has a result, it is the
same. -/
theorem append_eq_appended
    {buffer next : Buffer} {data : List Byte}
    (hfits : buffer.write + data.length < 18446744073709551616)
    (hnext : buffer.append data = some next) :
    next = buffer.appended data := by
  unfold append at hnext
  split at hnext
  next hsize =>
    obtain rfl := Option.some.inj hnext
    have hgrown :
        buffer.grownSize data.length = buffer.appendSize data.length := by
      unfold grownSize at hsize ⊢
      unfold appendSize need
      dsimp only at hsize ⊢
      generalize toInt32 _ = need at *
      split at hsize
      next hpos =>
        rw [if_pos hpos, if_pos hpos,
          toUInt64_of_bounds (by omega) (by omega)]
        omega
      next hpos => rw [if_neg hpos, if_neg hpos]
    rw [appended, hgrown, toUInt64_natCast_add hfits]
  next => simp at hnext

/-! ## The narrowed difference -/

/-- Narrowing keeps a difference up to multiples of `2 ^ 32`. -/
theorem toInt32_toUInt64_bounds (x : ℤ) :
    ∃ k : ℤ, toInt32 (toUInt64 x) = x + 4294967296 * k ∧
      -2147483648 ≤ toInt32 (toUInt64 x) ∧
      toInt32 (toUInt64 x) < 2147483648 := by
  unfold toInt32 toUInt64
  rw [Int.bmod_def]
  split
  · refine ⟨-(x / 4294967296), ?_⟩
    omega
  · refine ⟨-(x / 4294967296) - 1, ?_⟩
    omega

/-- The missing room is below `2 ^ 31`, and the sum that is the new size does
not wrap, unless it wraps to enough. -/
def GrowthFits (len : ℕ) (buffer : Buffer) : Prop :=
  buffer.write + len < buffer.size + 2147483648 ∧
    (buffer.size + buffer.need len < 18446744073709551616 ∨
      buffer.write + len + 18446744073709551616 ≤
        buffer.size + buffer.need len)

instance (len : ℕ) (buffer : Buffer) : Decidable (buffer.GrowthFits len) :=
  inferInstanceAs (Decidable (_ ∧ (_ ∨ _)))

theorem le_appendSize_iff
    {buffer : Buffer} (hbuffer : buffer.WellFormed) {len : ℕ}
    (hfits : buffer.write + len < 18446744073709551616) :
    buffer.write + len ≤ buffer.appendSize len ↔ buffer.GrowthFits len := by
  have hwrite := hbuffer.write_le
  have hsize := hbuffer.size_lt
  obtain ⟨k, hneed, hlo, hhi⟩ :=
    toInt32_toUInt64_bounds (len - buffer.writableLength)
  rw [hbuffer.writableLength] at hneed hlo hhi
  unfold GrowthFits appendSize need
  rw [hbuffer.writableLength]
  generalize toInt32 _ = need at *
  split
  next hpos =>
    unfold toUInt64
    omega
  next hpos => omega

/-- After `Append` the bytes fit the allocation exactly when the computed
growth is enough. -/
theorem append_fits_iff
    {buffer : Buffer} (hbuffer : buffer.WellFormed) {data : List Byte}
    (hfits : buffer.write + data.length < 18446744073709551616) :
    (buffer.appended data).write ≤ (buffer.appended data).size ↔
      buffer.GrowthFits data.length := by
  rw [← le_appendSize_iff hbuffer hfits]
  simp only [appended, toUInt64_natCast_add hfits]

theorem append_fits_full :
    (Buffer.new 2).WellFormed ∧
      (Buffer.new 2).write + [1, 2, 3].length < 18446744073709551616 ∧
      ((Buffer.new 2).appended [1, 2, 3]).write ≤
        ((Buffer.new 2).appended [1, 2, 3]).size := by
  have hbuffer : (Buffer.new 2).WellFormed := .new (by decide)
  have hfits :
      (Buffer.new 2).write + [1, 2, 3].length < 18446744073709551616 := by
    decide
  exact ⟨hbuffer, hfits, (append_fits_iff hbuffer hfits).mpr (by decide)⟩

/-- One more than `2 ^ 31` missing bytes: the buffer does not grow. -/
theorem append_overflows :
    (Buffer.new 1024).WellFormed ∧
      (Buffer.new 1024).write +
          (List.replicate 2147484672 (0 : Byte)).length <
        18446744073709551616 ∧
      ((Buffer.new 1024).appended (List.replicate 2147484672 0)).write =
        2147484672 ∧
      ((Buffer.new 1024).appended (List.replicate 2147484672 0)).size =
        1024 := by
  refine ⟨.new (by decide), ?_, ?_, ?_⟩
  · rw [List.length_replicate]
    decide
  · rw [appended, List.length_replicate]
    decide
  · rw [appended, List.length_replicate]
    decide

end GreenTurtle.Buffer
