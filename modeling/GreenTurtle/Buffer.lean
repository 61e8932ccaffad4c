import GreenTurtle.FixedWidth
import GreenTurtle.Memory
import Mathlib.Tactic

/-!
# The byte buffer

`buffer.h`.  The allocation is a memory in which only the addresses below
`size` belong to the buffer.  The bytes between `read` and `write` are readable,
those between `write` and `size` writable.
-/

namespace GreenTurtle

open FixedWidth
open Memory

structure Buffer where
  array : ℤ → Byte
  write : ℕ
  read : ℕ
  size : ℕ

namespace Buffer

def new (initSize : ℕ) : Buffer where
  array := fun _ => 0
  write := 0
  read := 0
  size := initSize

def writableLength (buffer : Buffer) : ℕ :=
  toUInt64 (buffer.size - buffer.write)

def readableLength (buffer : Buffer) : ℕ :=
  toUInt64 (buffer.write - buffer.read)

/-- The size after `Append` has made room.  The growth is an `int`. -/
def grownSize (len : ℕ) (buffer : Buffer) : ℕ :=
  let need := toInt32 (toUInt64 (len - buffer.writableLength))
  if 0 < need then buffer.size + need.toNat else buffer.size

/-- There is no result when the address space cannot hold the allocation;
otherwise `realloc` succeeds. -/
def append (data : List Byte) (buffer : Buffer) : Option Buffer :=
  if buffer.grownSize data.length < 18446744073709551616 then
    some
      { array := store buffer.array buffer.write data
        write := buffer.write + data.length
        read := buffer.read
        size := buffer.grownSize data.length }
  else none

def hasWritten (size : ℕ) (buffer : Buffer) : Buffer :=
  { buffer with write := buffer.write + size }

def hasRead (size : ℕ) (buffer : Buffer) : Buffer :=
  { buffer with read := buffer.read + size }

def retrieve (buffer : Buffer) : Buffer :=
  let len := buffer.readableLength
  { buffer with
    array :=
      if buffer.read = 0 then buffer.array
      else store buffer.array 0 (slice buffer.array buffer.read len)
    read := 0
    write := len }

/-- The bytes that are written and not yet read. -/
def readable (buffer : Buffer) : List Byte :=
  slice buffer.array buffer.read buffer.readableLength

@[simp] theorem length_readable (buffer : Buffer) :
    buffer.readable.length = buffer.readableLength :=
  length_slice _ _ _

theorem hasRead_hasRead (buffer : Buffer) (first second : ℕ) :
    (buffer.hasRead first).hasRead second =
      buffer.hasRead (first + second) := by
  simp [Buffer.hasRead, Nat.add_assoc]

/-- The positions are in order, and the allocation fits the address space. -/
structure WellFormed (buffer : Buffer) : Prop where
  read_le : buffer.read ≤ buffer.write
  write_le : buffer.write ≤ buffer.size
  size_lt : buffer.size < 18446744073709551616

namespace WellFormed

theorem writableLength
    {buffer : Buffer} (hbuffer : buffer.WellFormed) :
    buffer.writableLength = buffer.size - buffer.write := by
  have hle := hbuffer.write_le
  have hlt := hbuffer.size_lt
  unfold Buffer.writableLength
  rw [toUInt64_of_bounds (by omega) (by omega)]
  omega

theorem readableLength
    {buffer : Buffer} (hbuffer : buffer.WellFormed) :
    buffer.readableLength = buffer.write - buffer.read := by
  have hread := hbuffer.read_le
  have hwrite := hbuffer.write_le
  have hlt := hbuffer.size_lt
  unfold Buffer.readableLength
  rw [toUInt64_of_bounds (by omega) (by omega)]
  omega

theorem new {initSize : ℕ} (hlt : initSize < 18446744073709551616) :
    (Buffer.new initSize).WellFormed := by
  constructor
  · exact le_rfl
  · exact Nat.zero_le _
  · exact hlt

/-- Less than `2 ^ 31` bytes for which there is no room get exactly the room
they need. -/
theorem grownSize_of_lt
    {buffer : Buffer} (hbuffer : buffer.WellFormed) {len : ℕ}
    (hlt : buffer.size < buffer.write + len) (hlen : len < 2147483648) :
    buffer.grownSize len = buffer.write + len := by
  have hwrite := hbuffer.write_le
  unfold Buffer.grownSize
  rw [hbuffer.writableLength, toUInt64_of_bounds (by omega) (by omega),
    toInt32_of_bounds (by omega) (by omega)]
  dsimp only
  rw [if_pos (by omega)]
  omega

/-- However large the free space is, the computed growth never leaves too
little room. -/
theorem le_grownSize
    {buffer : Buffer} (hbuffer : buffer.WellFormed) {len : ℕ}
    (hlen : len < 2147483648) :
    buffer.write + len ≤ buffer.grownSize len := by
  by_cases hlt : buffer.size < buffer.write + len
  · exact (hbuffer.grownSize_of_lt hlt hlen).ge
  · unfold Buffer.grownSize
    dsimp only
    split <;> omega

/-- Bytes placed behind the readable ones become readable with them. -/
theorem readable_extend
    {buffer next : Buffer} (hbuffer : buffer.WellFormed)
    (hnext : next.WellFormed) {data : List Byte}
    (harray : next.array = store buffer.array buffer.write data)
    (hread : next.read = buffer.read)
    (hwrite : next.write = buffer.write + data.length) :
    next.readable = buffer.readable ++ data := by
  have hle := hbuffer.read_le
  have hlength :
      buffer.write + data.length - buffer.read =
        (buffer.write - buffer.read) + data.length := by
    omega
  have hplace :
      (buffer.write : ℤ) =
        buffer.read + (buffer.write - buffer.read : ℕ) := by
    omega
  unfold Buffer.readable
  rw [hnext.readableLength, hbuffer.readableLength, harray, hread, hwrite,
    hlength, hplace]
  exact slice_store_append ..

theorem append
    {buffer next : Buffer} (hbuffer : buffer.WellFormed)
    {data : List Byte} (hdata : data.length < 2147483648)
    (hnext : buffer.append data = some next) :
    next.WellFormed ∧ next.readable = buffer.readable ++ data := by
  have hread := hbuffer.read_le
  unfold Buffer.append at hnext
  split at hnext
  next hsize =>
    simp only [Option.some.injEq] at hnext
    subst next
    have hformed :
        WellFormed
          { array := store buffer.array buffer.write data
            write := buffer.write + data.length
            read := buffer.read
            size := buffer.grownSize data.length } := by
      constructor
      · dsimp only
        omega
      · dsimp only
        exact hbuffer.le_grownSize hdata
      · dsimp only
        exact hsize
    exact ⟨hformed, hbuffer.readable_extend hformed rfl rfl rfl⟩
  next => simp at hnext

theorem hasWritten
    {buffer : Buffer} (hbuffer : buffer.WellFormed) {data : List Byte}
    (hroom : data.length ≤ buffer.writableLength) :
    (Buffer.hasWritten data.length
        { buffer with
          array := store buffer.array buffer.write data }).WellFormed ∧
      (Buffer.hasWritten data.length
          { buffer with
            array := store buffer.array buffer.write data }).readable =
        buffer.readable ++ data := by
  have hread := hbuffer.read_le
  have hwrite := hbuffer.write_le
  rw [hbuffer.writableLength] at hroom
  have hformed :
      (Buffer.hasWritten data.length
        { buffer with
          array := store buffer.array buffer.write data }).WellFormed := by
    constructor
    · simp only [Buffer.hasWritten]
      omega
    · simp only [Buffer.hasWritten]
      omega
    · exact hbuffer.size_lt
  exact ⟨hformed, hbuffer.readable_extend hformed rfl rfl rfl⟩

theorem append_succeeds
    {buffer : Buffer} (data : List Byte)
    (hsize : buffer.size + 2147483648 ≤ 18446744073709551616) :
    ∃ next, buffer.append data = some next ∧
      next.size ≤ buffer.size + 2147483648 := by
  have hlt :=
    toInt32_lt (toUInt64 (data.length - buffer.writableLength))
  have hgrown :
      buffer.grownSize data.length < buffer.size + 2147483648 := by
    unfold Buffer.grownSize
    dsimp only
    split <;> omega
  unfold Buffer.append
  rw [if_pos (hgrown.trans_le hsize)]
  refine ⟨_, rfl, ?_⟩
  dsimp only
  exact hgrown.le

theorem hasRead
    {buffer : Buffer} (hbuffer : buffer.WellFormed) {count : ℕ}
    (hcount : count ≤ buffer.readableLength) :
    (buffer.hasRead count).WellFormed ∧
      (buffer.hasRead count).readable = buffer.readable.drop count := by
  have hread := hbuffer.read_le
  rw [hbuffer.readableLength] at hcount
  have hformed : (buffer.hasRead count).WellFormed := by
    constructor
    · simp only [Buffer.hasRead]
      omega
    · exact hbuffer.write_le
    · exact hbuffer.size_lt
  refine ⟨hformed, ?_⟩
  unfold Buffer.readable
  rw [hformed.readableLength, hbuffer.readableLength, drop_slice _ _ hcount]
  simp only [Buffer.hasRead, Nat.cast_add]
  congr 1
  omega

theorem readableLength_hasRead
    {buffer : Buffer} (hbuffer : buffer.WellFormed) {count : ℕ}
    (hcount : count ≤ buffer.readableLength) :
    (buffer.hasRead count).readableLength =
      buffer.readableLength - count := by
  rw [(hbuffer.hasRead hcount).1.readableLength, hbuffer.readableLength]
  simp only [Buffer.hasRead]
  omega

/-- Moving the readable bytes to the front does not change them. -/
theorem retrieve
    {buffer : Buffer} (hbuffer : buffer.WellFormed) :
    buffer.retrieve.WellFormed ∧
      buffer.retrieve.readable = buffer.readable := by
  have hread := hbuffer.read_le
  have hwrite := hbuffer.write_le
  have hlength := hbuffer.readableLength
  have hformed : buffer.retrieve.WellFormed := by
    constructor
    · exact Nat.zero_le _
    · simp only [Buffer.retrieve]
      omega
    · exact hbuffer.size_lt
  refine ⟨hformed, ?_⟩
  unfold Buffer.readable
  rw [hformed.readableLength]
  simp only [Buffer.retrieve, Nat.sub_zero, Nat.cast_zero]
  split
  next hzero => rw [hzero, Nat.cast_zero]
  next =>
    have hstored :=
      slice_store buffer.array 0
        (slice buffer.array buffer.read buffer.readableLength)
    rwa [length_slice] at hstored

end WellFormed

end Buffer

end GreenTurtle
