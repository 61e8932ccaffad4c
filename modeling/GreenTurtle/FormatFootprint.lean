import GreenTurtle.FormatModel
import GreenTurtle.StoreLog
import Mathlib.Tactic

/-!
# Where `Format` writes

The overloads of `format.h` once more, run so that they list their stores.  An
aligned value may have any flags here, also none of the three alignments.  The
number of bytes left always is the distance from the cursor to the end of the
buffer, so whether a store stays inside the buffer is a question about this
number and the extent of the argument alone.
-/

namespace GreenTurtle.Formatting

open FixedWidth
open Memory

inductive FormatArgument where
  | char (c : Byte)
  | signedChar (c : Byte)
  | slice (text : List Byte)
  | integer (bytes : ℕ) (value : ℕ) (digits : List Byte)
  | floating (digits : List Byte)
  | align (value : FormatArgument) (width : UInt8) (pad : Byte)
      (flags : UInt8)

/-- Memory, cursor and room to the reported length and the stores made. -/
abbrev Tracer := (ℤ → Byte) → ℤ → ℤ → ℤ × StoreLog Byte

/-! ## The overloads with their stores -/

def traceChar (c : Byte) : Tracer := fun _ cursor left =>
  if 1 ≤ left then (1, [(cursor, [c])]) else (1, [(cursor, [0])])

def traceNumber (digits : List Byte) : Tracer := fun _ cursor left =>
  if digits.length ≤ left then (digits.length, [(cursor, digits)])
  else (digits.length, [(cursor, [0])])

def traceSignedChar (c : Byte) : Tracer := fun _ cursor left =>
  if left ≤ 0 then (-1, []) else (1, [(cursor, [c])])

def traceSlice (text : List Byte) : Tracer := fun _ cursor left =>
  if text.length > toUInt64 left then (-1, [])
  else (toInt32 text.length, [(cursor, text)])

def traceHex (bytes value : ℕ) : Tracer := fun _ cursor left =>
  let digits := hexText bytes value
  if left < digits.length then (-1, [])
  else (digits.length, [(cursor, digits)])

def traceUpper (mem : ℤ → Byte) (buffer : ℤ) (len : ℕ) : StoreLog Byte :=
  [(buffer, upperBytes (Memory.slice mem buffer len) ++ [0])]

def tracePad
    (flags : UInt8) (pad : Byte) (buffer : ℤ) (length space : ℕ)
    (mem : ℤ → Byte) : StoreLog Byte :=
  if 0 < space then
    if flags &&& kAlignMask = kAlignLeft then
      [(buffer + length, List.replicate space pad)]
    else if flags &&& kAlignMask = kAlignRight then
      [(buffer + space, Memory.slice mem buffer length),
        (buffer, List.replicate space pad)]
    else if flags &&& kAlignMask = kAlignCenter then
      [(buffer + (space / 2 : ℕ), Memory.slice mem buffer length),
        (buffer, List.replicate (space / 2) pad),
        (buffer + length + (space / 2 : ℕ),
          List.replicate (space - space / 2) pad)]
    else []
  else []

def traceAligned
    (width : UInt8) (pad : Byte) (flags : UInt8) (toHex : Tracer) :
    Tracer := fun mem cursor left =>
  let written := toHex mem cursor left
  let length := written.1
  let maxLength := if length < width.toNat then (width.toNat : ℤ) else length
  if length < 0 ∨ left < maxLength then (-1, written.2)
  else
    let raised :=
      if flags &&& kAlignUpper ≠ 0 then
        written.2 ++
          traceUpper (applyLog mem written.2) cursor length.toNat
      else written.2
    let padded :=
      raised ++
        tracePad flags pad cursor length.toNat (maxLength - length).toNat
          (applyLog mem raised)
    (maxLength, padded ++ [(cursor + maxLength, [0])])

namespace FormatArgument

def traceToHex : FormatArgument → Tracer
  | .char c => traceChar c
  | .signedChar c => traceHex 1 c.toNat
  | .slice text => traceSlice text
  | .integer bytes value _ => traceHex bytes value
  | .floating digits => traceNumber digits
  | .align value width pad flags =>
      traceAligned width pad flags value.traceToHex

def traceToString : FormatArgument → Tracer
  | .char c => traceChar c
  | .signedChar c => traceSignedChar c
  | .slice text => traceSlice text
  | .integer _ _ digits => traceNumber digits
  | .floating digits => traceNumber digits
  | .align value width pad flags =>
      traceAligned width pad flags value.traceToHex

end FormatArgument

/-- There is no result when `left` or `sum` leaves the range of `int32_t`. -/
def traceFrom :
    List FormatArgument → (ℤ → Byte) → ℤ → ℤ → ℤ →
      Option (ℤ × StoreLog Byte)
  | [], _, buffer, _, sum => some (sum, [(buffer, [0])])
  | v :: vn, mem, buffer, left, sum =>
      let written := v.traceToString mem buffer left
      let length := written.1
      if left < length then some (-1, written.2)
      else if
          sum + length < -2147483648 ∨ 2147483648 ≤ sum + length ∨
            left - length < -2147483648 ∨ 2147483648 ≤ left - length then
        none
      else
        (traceFrom vn (applyLog mem written.2) (buffer + length)
          (left - length) (sum + length)).map fun rest =>
            (rest.1, written.2 ++ rest.2)

def traceFormat
    (mem : ℤ → Byte) (maxLength : ℕ) (args : List FormatArgument) :
    Option (ℤ × StoreLog Byte) :=
  traceFrom args mem 0 maxLength 0

/-! ## The stores lead to the memory of the model -/

def FormatValue.argument : FormatValue → FormatArgument
  | .char c => .char c
  | .signedChar c => .signedChar c
  | .slice text => .slice text
  | .integer bytes value digits => .integer bytes value digits
  | .floating digits => .floating digits
  | .align value width pad flags _ => .align value.argument width pad flags

/-- The tracer is the writer with its stores listed. -/
def Logs (tracer : Tracer) (writer : Writer) : Prop :=
  ∀ mem cursor left,
    writer mem cursor left =
      ((tracer mem cursor left).1,
        applyLog mem (tracer mem cursor left).2)

theorem logs_char (c : Byte) : Logs (traceChar c) (writeChar c) := by
  intro mem cursor left
  simp only [writeChar, traceChar]
  split <;> rfl

theorem logs_number (digits : List Byte) :
    Logs (traceNumber digits) (writeNumber digits) := by
  intro mem cursor left
  simp only [writeNumber, traceNumber]
  split <;> rfl

theorem logs_signedChar (c : Byte) :
    Logs (traceSignedChar c) (writeSignedChar c) := by
  intro mem cursor left
  simp only [writeSignedChar, traceSignedChar]
  split <;> rfl

theorem logs_slice (text : List Byte) :
    Logs (traceSlice text) (writeSlice text) := by
  intro mem cursor left
  by_cases hlong : text.length > toUInt64 left <;>
    simp [writeSlice, traceSlice, hlong]

theorem logs_hex (bytes value : ℕ) :
    Logs (traceHex bytes value) (writeHex bytes value) := by
  intro mem cursor left
  simp only [writeHex, traceHex]
  split <;> rfl

theorem padAligned_eq_applyLog
    (flags : UInt8) (pad : Byte) (buffer : ℤ) (length space : ℕ)
    (mem : ℤ → Byte) :
    padAligned flags pad buffer length space mem =
      applyLog mem (tracePad flags pad buffer length space mem) := by
  unfold padAligned tracePad memset memmove
  split
  next =>
    split
    next => rfl
    next =>
      split
      next => rfl
      next => split <;> rfl
  next => rfl

theorem Logs.aligned
    {tracer : Tracer} {writer : Writer} (hlogs : Logs tracer writer)
    (width : UInt8) (pad : Byte) (flags : UInt8) :
    Logs (traceAligned width pad flags tracer)
      (writeAligned width pad flags writer) := by
  intro mem cursor left
  simp only [writeAligned, traceAligned, hlogs mem cursor left,
    padAligned_eq_applyLog]
  generalize tracer mem cursor left = written
  generalize (if written.1 < (width.toNat : ℤ) then (width.toNat : ℤ)
    else written.1) = maxLength
  by_cases hskip : written.1 < 0 ∨ left < maxLength
  · simp [hskip]
  · by_cases hupper : flags &&& kAlignUpper ≠ 0
    · simp [hskip, hupper, toUpper, traceUpper]
    · simp [hskip, hupper]

theorem logs_toHex (v : FormatValue) :
    Logs v.argument.traceToHex (toHex v) := by
  induction v with
  | char c => exact logs_char c
  | signedChar c => exact logs_hex 1 c.toNat
  | slice text => exact logs_slice text
  | integer bytes value digits => exact logs_hex bytes value
  | floating digits => exact logs_number digits
  | align value width pad flags aligned ih => exact ih.aligned width pad flags

theorem logs_toString (v : FormatValue) :
    Logs v.argument.traceToString (toString v) := by
  cases v with
  | char c => exact logs_char c
  | signedChar c => exact logs_signedChar c
  | slice text => exact logs_slice text
  | integer bytes value digits => exact logs_number digits
  | floating digits => exact logs_number digits
  | align value width pad flags aligned =>
      exact (logs_toHex value).aligned width pad flags

theorem formatFrom_eq_applyLog
    (args : List FormatValue) (mem : ℤ → Byte) (buffer left sum : ℤ) :
    formatFrom args mem buffer left sum =
      (traceFrom (args.map FormatValue.argument) mem buffer left sum).map
        fun result => (result.1, applyLog mem result.2) := by
  induction args generalizing mem buffer left sum with
  | nil => rfl
  | cons v vn ih =>
      simp only [formatFrom, List.map_cons, traceFrom,
        logs_toString v mem buffer left, ih]
      split
      next => rfl
      next =>
        split
        next => rfl
        next => simp [Option.map_map, Function.comp_def]

/-- `Format` leaves the memory that its stores make. -/
theorem format_eq_applyLog
    (mem : ℤ → Byte) (maxLength : ℕ) (args : List FormatValue) :
    format mem maxLength args =
      (traceFormat mem maxLength (args.map FormatValue.argument)).map
        fun result => (result.1, applyLog mem result.2) :=
  formatFrom_eq_applyLog args mem 0 maxLength 0

end GreenTurtle.Formatting
