import GreenTurtle.UpperCase
import Mathlib.Tactic

/-!
# `ToUpper` on a buffer

`ToUpper` goes through the buffer in words of four characters.  A `switch`
whose cases fall through treats the one to three characters that are left with
`toupper`, and its last case writes the terminator.
-/

namespace GreenTurtle.Formatting

open Memory

/-! ## The loop and the switch -/

def loadWord (mem : ℤ → Byte) (d : ℤ) : BitVec 32 :=
  wordOfBytes (mem d) (mem (d + 1)) (mem (d + 2)) (mem (d + 3))

def storeWord (mem : ℤ → Byte) (d : ℤ) (word : BitVec 32) : ℤ → Byte :=
  store mem d (bytesOfWord word)

/-- One pass of the loop. -/
def raiseWord (mem : ℤ → Byte) (d : ℤ) : ℤ → Byte :=
  storeWord mem d (toUpperWord (loadWord mem d))

def raiseWords (mem : ℤ → Byte) (buffer : ℤ) (count : ℕ) : ℤ → Byte :=
  (List.range count).foldl
    (fun mem (i : ℕ) => raiseWord mem (buffer + 4 * i)) mem

/-- The value of a `char`, which the platform declares signed or unsigned. -/
def charValue (signed : Bool) (c : Byte) : ℤ :=
  if signed then c.toBitVec.toInt else c.toNat

/-- The C function on the values of an `int`, in the C locale. -/
def toupper (c : ℤ) : ℤ :=
  if 97 ≤ c ∧ c ≤ 122 then c - 32 else c

/-- The assignment `*p = toupper(*p)`. -/
def raiseChar (signed : Bool) (mem : ℤ → Byte) (p : ℤ) : ℤ → Byte :=
  store mem p [⟨BitVec.ofInt 8 (toupper (charValue signed (mem p)))⟩]

/-- A case of the `switch`, which falls through to the next one. -/
def fallThrough
    (signed : Bool) (next : (ℤ → Byte) → ℤ → ℤ → Byte)
    (mem : ℤ → Byte) (bufferLeft : ℤ) : ℤ → Byte :=
  next (raiseChar signed mem bufferLeft) (bufferLeft + 1)

def case0 (mem : ℤ → Byte) (bufferLeft : ℤ) : ℤ → Byte :=
  store mem bufferLeft [0]

def case1 (signed : Bool) : (ℤ → Byte) → ℤ → ℤ → Byte :=
  fallThrough signed case0

def case2 (signed : Bool) : (ℤ → Byte) → ℤ → ℤ → Byte :=
  fallThrough signed (case1 signed)

def case3 (signed : Bool) : (ℤ → Byte) → ℤ → ℤ → Byte :=
  fallThrough signed (case2 signed)

/-- The `switch`, which has no case for a negative rest. -/
def raiseLeft
    (signed : Bool) (mem : ℤ → Byte) (bufferLeft leftLen : ℤ) : ℤ → Byte :=
  if leftLen = 3 then case3 signed mem bufferLeft
  else if leftLen = 2 then case2 signed mem bufferLeft
  else if leftLen = 1 then case1 signed mem bufferLeft
  else if leftLen = 0 then case0 mem bufferLeft
  else mem

/-- The whole function, with the division of C. -/
def toUpperBuffer
    (signed : Bool) (mem : ℤ → Byte) (buffer len : ℤ) : ℤ → Byte :=
  let byte4Len := len.tdiv 4
  let leftLen := len.tmod 4
  raiseLeft signed (raiseWords mem buffer byte4Len.toNat)
    (buffer + byte4Len * 4) leftLen

/-- The same text raised one character at a time. -/
def toUpperBytewise
    (signed : Bool) (mem : ℤ → Byte) (buffer : ℤ) (len : ℕ) : ℤ → Byte :=
  store
    ((List.range len).foldl
      (fun mem (i : ℕ) => raiseChar signed mem (buffer + i)) mem)
    (buffer + len) [0]

/-! ## One step -/

theorem raiseChar_eq_mapSlice
    (signed : Bool) (mem : ℤ → Byte) (p : ℤ) :
    raiseChar signed mem p = mapSlice upperChar mem p 1 := by
  have hchar :
      ∀ (signed : Bool) (x : BitVec 8),
        BitVec.ofInt 8 (toupper (charValue signed ⟨x⟩)) =
          (upperChar ⟨x⟩).toBitVec := by
    decide
  rw [raiseChar, hchar signed (mem p).toBitVec, ← store_map_slice]
  simp [slice]

/-- No lane of the word disturbs another one. -/
theorem raiseWord_eq_mapSlice (mem : ℤ → Byte) (d : ℤ) :
    raiseWord mem d = mapSlice upperChar mem d 4 := by
  rw [raiseWord, storeWord, loadWord, toUpperWord_wordOfBytes,
    bytesOfWord_wordOfBytes, ← store_map_slice]
  simp [slice, List.range_succ]

/-! ## The loops -/

theorem raiseChars_eq_mapSlice
    (signed : Bool) (mem : ℤ → Byte) (buffer : ℤ) (count : ℕ) :
    (List.range count).foldl
        (fun mem (i : ℕ) => raiseChar signed mem (buffer + i)) mem =
      mapSlice upperChar mem buffer count := by
  induction count with
  | zero => simp
  | succ count ih =>
      rw [List.range_succ, List.foldl_append, ih, List.foldl_cons,
        List.foldl_nil, raiseChar_eq_mapSlice, mapSlice_mapSlice]

theorem raiseWords_eq_mapSlice
    (mem : ℤ → Byte) (buffer : ℤ) (count : ℕ) :
    raiseWords mem buffer count =
      mapSlice upperChar mem buffer (4 * count) := by
  unfold raiseWords
  induction count with
  | zero => simp
  | succ count ih =>
      have hplace : buffer + 4 * (count : ℤ) = buffer + (4 * count : ℕ) := by
        push_cast
        rfl
      rw [List.range_succ, List.foldl_append, ih, List.foldl_cons,
        List.foldl_nil, raiseWord_eq_mapSlice, hplace, mapSlice_mapSlice,
        Nat.mul_succ]

/-! ## The switch -/

/-- Behind characters that are raised already, a case raises the number of
characters given and writes the terminator. -/
def Finishes (left : ℕ) (rest : (ℤ → Byte) → ℤ → ℤ → Byte) : Prop :=
  ∀ (mem : ℤ → Byte) (buffer : ℤ) (count : ℕ),
    rest (mapSlice upperChar mem buffer count) (buffer + count) =
      store (mapSlice upperChar mem buffer (count + left))
        (buffer + (count + left : ℕ)) [0]

theorem finishes_case0 : Finishes 0 case0 := by
  intro mem buffer count
  rfl

theorem Finishes.fallThrough
    {left : ℕ} {next : (ℤ → Byte) → ℤ → ℤ → Byte}
    (hnext : Finishes left next) (signed : Bool) :
    Finishes (left + 1) (fallThrough signed next) := by
  intro mem buffer count
  have hplace : buffer + (count : ℤ) + 1 = buffer + (count + 1 : ℕ) := by
    push_cast
    ring
  rw [Formatting.fallThrough, raiseChar_eq_mapSlice, mapSlice_mapSlice,
    hplace, hnext, Nat.add_right_comm count 1 left, Nat.add_assoc]

theorem finishes_raiseLeft (signed : Bool) {left : ℕ} (hleft : left < 4) :
    Finishes left fun mem bufferLeft =>
      raiseLeft signed mem bufferLeft left := by
  have hone := finishes_case0.fallThrough signed
  have htwo := hone.fallThrough signed
  have hthree := htwo.fallThrough signed
  interval_cases left
  · exact finishes_case0
  · exact hone
  · exact htwo
  · exact hthree

theorem toUpperBuffer_eq_mapSlice
    (signed : Bool) (mem : ℤ → Byte) (buffer : ℤ) (len : ℕ) :
    toUpperBuffer signed mem buffer len =
      store (mapSlice upperChar mem buffer len) (buffer + len) [0] := by
  have hwords : ((len : ℤ).tdiv 4) = (len / 4 : ℕ) := rfl
  have hleft : ((len : ℤ).tmod 4) = (len % 4 : ℕ) := rfl
  have hplace :
      buffer + ((len / 4 : ℕ) : ℤ) * 4 = buffer + (4 * (len / 4) : ℕ) := by
    push_cast
    ring
  have hfinish :=
    finishes_raiseLeft signed (Nat.mod_lt len (by decide : 0 < 4)) mem
      buffer (4 * (len / 4))
  rw [Nat.div_add_mod] at hfinish
  rw [toUpperBuffer, hwords, hleft, Int.toNat_natCast,
    raiseWords_eq_mapSlice, hplace]
  exact hfinish

/-! ## The results -/

/-- The text of `toUpper` is what the code leaves in the buffer. -/
theorem toUpper_eq_toUpperBuffer
    (signed : Bool) (mem : ℤ → Byte) (buffer : ℤ) (len : ℕ) :
    toUpper mem buffer len = toUpperBuffer signed mem buffer len := by
  have hlength :
      ((slice mem buffer len).map upperChar).length = len := by
    simp
  rw [toUpperBuffer_eq_mapSlice, ← store_map_slice, toUpper,
    upperBytes_eq_map, ← store_append, hlength]

/-- For every text of any length, the words and the `switch` do what `toupper`
does on one character after the other: every character is replaced by its upper
case, the terminator is written behind the last one, and the rest of the memory
is left alone. -/
theorem toUpperBuffer_eq_bytewise
    (signed : Bool) (mem : ℤ → Byte) (buffer : ℤ) (len : ℕ) :
    toUpperBuffer signed mem buffer len =
        toUpperBytewise signed mem buffer len ∧
      ∀ address,
        toUpperBuffer signed mem buffer len address =
          if address = buffer + len then 0
          else if buffer ≤ address ∧ address < buffer + len then
            upperChar (mem address)
          else mem address := by
  constructor
  · rw [toUpperBuffer_eq_mapSlice, toUpperBytewise, raiseChars_eq_mapSlice]
  · intro address
    rw [toUpperBuffer_eq_mapSlice, store_singleton, mapSlice]

end GreenTurtle.Formatting
