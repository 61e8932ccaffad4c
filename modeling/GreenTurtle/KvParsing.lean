import GreenTurtle.KvDecoding
import GreenTurtle.KvResponse
import Mathlib.Tactic

/-!
# The bytes that a request makes the server read

`DispatchMessage` is handed the address of a message and not its size.  Which
bytes it reads behind the head depends on the opcode and on the lengths that it
finds there.  This file lists them, shows that the answer depends on nothing
else, and says when all of them belong to the message.
-/

namespace GreenTurtle.Kv

open FixedWidth
open LittleEndian
open Memory

structure Stretch where
  start : ℤ
  len : ℕ
deriving DecidableEq

/-- The constructor of the string throws before it copies anything from a
range that ends before it begins. -/
def takeReads (cursor strLen : ℤ) : List Stretch :=
  if strLen < 0 then [] else [⟨cursor, strLen.toNat⟩]

/-- The reads of `Decode<std::string>`. -/
def stringReads (mem : ℤ → Byte) (cursor : ℤ) : List Stretch :=
  let decoded := decodeInt32 mem cursor
  ⟨cursor, 4⟩ :: takeReads decoded.2 decoded.1

/-- The reads of a number of successive calls. -/
def decodeReads (mem : ℤ → Byte) : ℕ → ℤ → List Stretch
  | 0, _ => []
  | count + 1, cursor =>
      stringReads mem cursor ++
        (decodeString mem cursor).elim [] fun first =>
          decodeReads mem count first.2

/-- The number of strings that `DispatchMessage` decodes. -/
def Command.strings : Command → ℕ
  | .get | .del | .inc | .dec => 1
  | .set | .append => 2
  | .version | .noop | .error | .flush => 0

def opcodeStrings (opcode : UInt8) : ℕ :=
  (Command.ofOpcode opcode).elim 0 Command.strings

/-- The reads behind the head. -/
def dispatchReads (mem : ℤ → Byte) (msg : ℤ) : List Stretch :=
  let reqHead := MessageHead.ofBytes (slice mem msg headSize)
  decodeReads mem (opcodeStrings reqHead.opcode) (msg + headSize)

/-! ## Nothing else is read -/

def SameOn (mem other : ℤ → Byte) (read : Stretch) : Prop :=
  slice other read.start read.len = slice mem read.start read.len

theorem takeString_congr
    {mem other : ℤ → Byte} {cursor strLen : ℤ}
    (hsame : ∀ read ∈ takeReads cursor strLen, SameOn mem other read) :
    takeString other cursor strLen = takeString mem cursor strLen := by
  by_cases hneg : strLen < 0
  · simp only [takeString, if_pos hneg]
  · have hbytes :
        slice other cursor strLen.toNat = slice mem cursor strLen.toNat := by
      apply hsame ⟨cursor, strLen.toNat⟩
      simp [takeReads, hneg]
    simp only [takeString, if_neg hneg, hbytes]

theorem decodeString_congr
    {mem other : ℤ → Byte} {cursor : ℤ}
    (hsame : ∀ read ∈ stringReads mem cursor, SameOn mem other read) :
    decodeString other cursor = decodeString mem cursor := by
  have hfield : decodeInt32 other cursor = decodeInt32 mem cursor := by
    have hbytes : slice other cursor 4 = slice mem cursor 4 :=
      hsame ⟨cursor, 4⟩ List.mem_cons_self
    rw [decodeInt32, hbytes, decodeInt32]
  rw [decodeString, hfield, decodeString]
  apply takeString_congr
  intro read hread
  exact hsame read (List.mem_cons_of_mem _ hread)

theorem decodeStrings_congr
    {mem other : ℤ → Byte} {count : ℕ} {cursor : ℤ}
    (hsame : ∀ read ∈ decodeReads mem count cursor, SameOn mem other read) :
    decodeStrings other count cursor = decodeStrings mem count cursor := by
  induction count generalizing cursor with
  | zero => rfl
  | succ count ih =>
      simp only [decodeReads, List.mem_append] at hsame
      have hfirst : decodeString other cursor = decodeString mem cursor :=
        decodeString_congr fun read hread => hsame read (.inl hread)
      rw [decodeStrings, decodeStrings, hfirst]
      generalize decodeString mem cursor = decoded at hsame ⊢
      cases decoded with
      | none => rw [Option.bind_none, Option.bind_none]
      | some first =>
          rw [Option.bind_some, Option.bind_some, ih]
          intro read hread
          exact hsame read (.inr hread)

theorem answer_congr
    {mem other : ℤ → Byte} {data : ℤ} {strings : ℕ}
    (hdecoded :
      decodeStrings other strings data = decodeStrings mem strings data)
    (frame : Option (List Byte)) :
    answer other data strings frame = answer mem data strings frame := by
  unfold answer
  rw [hdecoded]

/-- Every command is answered after as many strings as it has. -/
theorem dispatchMessage_decodes
    (object : StringObject) (version result : List Byte)
    (uninitialised : UInt32) {mem other : ℤ → Byte} {msg : ℤ}
    (hhead : slice other msg headSize = slice mem msg headSize)
    (hdecoded :
      decodeStrings other
          (opcodeStrings
            (MessageHead.ofBytes (slice mem msg headSize)).opcode)
          (msg + headSize) =
        decodeStrings mem
          (opcodeStrings
            (MessageHead.ofBytes (slice mem msg headSize)).opcode)
          (msg + headSize)) :
    dispatchMessage object version result uninitialised other msg =
      dispatchMessage object version result uninitialised mem msg := by
  unfold dispatchMessage
  rw [hhead]
  generalize MessageHead.ofBytes (slice mem msg headSize) = reqHead
    at hdecoded
  unfold opcodeStrings at hdecoded
  dsimp only
  generalize Command.ofOpcode reqHead.opcode = command at hdecoded
  cases command with
  | none => simp only
  | some command =>
      rw [Option.elim_some] at hdecoded
      cases command with
      | version | noop | flush | error => simp only
      | get | set | del | append | inc | dec =>
          exact answer_congr hdecoded _

/-- The answer depends on the head and on the listed reads only. -/
theorem dispatchMessage_congr
    (object : StringObject) (version result : List Byte)
    (uninitialised : UInt32) {mem other : ℤ → Byte} {msg : ℤ}
    (hhead : slice other msg headSize = slice mem msg headSize)
    (hsame : ∀ read ∈ dispatchReads mem msg, SameOn mem other read) :
    dispatchMessage object version result uninitialised other msg =
      dispatchMessage object version result uninitialised mem msg :=
  dispatchMessage_decodes object version result uninitialised hhead
    (decodeStrings_congr hsame)

/-! ## Staying inside the message -/

/-- The fields of a number of strings lie inside the bytes: four bytes for the
length, and then, because the cursor does not move over them, as many bytes as
the length says, counted from the same place. -/
def FieldsFit : ℕ → List Byte → Prop
  | 0, _ => True
  | count + 1, bytes =>
      4 ≤ bytes.length ∧
        (lengthField bytes < 0 ∨
          lengthField bytes ≤ bytes.length ∧
            FieldsFit count (bytes.drop (lengthField bytes).toNat))

instance decidableFieldsFit :
    ∀ (count : ℕ) (bytes : List Byte), Decidable (FieldsFit count bytes)
  | 0, _ => instDecidableTrue
  | count + 1, bytes =>
      have : Decidable
          (FieldsFit count (bytes.drop (lengthField bytes).toNat)) :=
        decidableFieldsFit count _
      inferInstanceAs (Decidable (_ ∧ (_ ∨ _ ∧ _)))

theorem decodeString_eq (mem : ℤ → Byte) (cursor : ℤ) :
    decodeString mem cursor =
      takeString mem cursor (decodeInt32 mem cursor).1 := by
  simp only [decodeString, decodeInt32]

/-- The length field that `Decode` finds in front of some bytes. -/
theorem decodeInt32_slice
    (mem : ℤ → Byte) (cursor : ℤ) {len : ℕ} (hlen : 4 ≤ len) :
    decodeInt32 mem cursor =
      (lengthField (slice mem cursor len), cursor) := by
  rw [lengthField, take_slice mem cursor hlen, decodeInt32]

/-- The reads of the first of several calls, and those of the others. -/
theorem mem_decodeReads_succ
    {mem : ℤ → Byte} {count : ℕ} {cursor strLen : ℤ} {read : Stretch}
    (hlen : (decodeInt32 mem cursor).1 = strLen) :
    read ∈ decodeReads mem (count + 1) cursor ↔
      read = ⟨cursor, 4⟩ ∨
        0 ≤ strLen ∧
          (read = ⟨cursor, strLen.toNat⟩ ∨
            read ∈ decodeReads mem count (cursor + strLen)) := by
  have hreads :
      stringReads mem cursor = ⟨cursor, 4⟩ :: takeReads cursor strLen := by
    rw [← hlen]
    simp only [stringReads, decodeInt32]
  rw [decodeReads, hreads, decodeString_eq, hlen]
  by_cases hneg : strLen < 0
  · simp [takeReads, takeString, hneg]
  · simp [takeReads, takeString, hneg, not_lt.mp hneg]

theorem decodeReads_start
    {mem : ℤ → Byte} {count : ℕ} {cursor : ℤ} {read : Stretch}
    (hread : read ∈ decodeReads mem count cursor) :
    cursor ≤ read.start := by
  induction count generalizing cursor with
  | zero => simp [decodeReads] at hread
  | succ count ih =>
      rw [mem_decodeReads_succ rfl] at hread
      rcases hread with rfl | ⟨hnonneg, rfl | hread⟩
      · exact le_rfl
      · exact le_rfl
      · have hlater := ih hread
        omega

theorem decodeReads_inside_iff
    (mem : ℤ → Byte) (count : ℕ) (cursor : ℤ) (len : ℕ) :
    (∀ read ∈ decodeReads mem count cursor,
        read.start + read.len ≤ cursor + len) ↔
      FieldsFit count (slice mem cursor len) := by
  induction count generalizing cursor len with
  | zero => simp [decodeReads, FieldsFit]
  | succ count ih =>
      by_cases hfield : 4 ≤ len
      · have hlen : (decodeInt32 mem cursor).1 =
            lengthField (slice mem cursor len) := by
          rw [decodeInt32_slice mem cursor hfield]
        simp only [mem_decodeReads_succ hlen, FieldsFit, length_slice,
          hfield, true_and]
        generalize lengthField (slice mem cursor len) = strLen
        rcases lt_or_ge strLen 0 with hneg | hnonneg
        · refine iff_of_true ?_ (.inl hneg)
          rintro read (rfl | ⟨hnonneg, -⟩)
          · dsimp only
            omega
          · omega
        · obtain ⟨str, rfl⟩ := Int.eq_ofNat_of_zero_le hnonneg
          rw [Int.toNat_natCast]
          constructor
          · intro hinside
            have hstring := hinside _ (.inr ⟨hnonneg, .inl rfl⟩)
            have hle : str ≤ len := by
              dsimp only at hstring
              omega
            rw [drop_slice _ _ hle, ← ih]
            refine .inr ⟨by omega, ?_⟩
            intro read hread
            have hrest := hinside read (.inr ⟨hnonneg, .inr hread⟩)
            omega
          · rintro (hneg | ⟨hle, hfits⟩) read hread
            · omega
            · rw [drop_slice _ _ (by omega), ← ih] at hfits
              rcases hread with rfl | ⟨-, rfl | hread⟩
              · dsimp only
                omega
              · dsimp only
                omega
              · have hrest := hfits read hread
                omega
      · simp only [FieldsFit, length_slice, hfield, false_and, iff_false]
        intro hinside
        have hread :=
          hinside ⟨cursor, 4⟩ ((mem_decodeReads_succ rfl).mpr (.inl rfl))
        dsimp only at hread
        omega

/-- A message whose head tells its size. -/
structure RequestBlock where
  bytes : List Byte
  size_ge : headSize ≤ bytes.length
  length_eq : (MessageHead.ofBytes bytes).length.toNat = bytes.length

def RequestBlock.strings (request : RequestBlock) : ℕ :=
  opcodeStrings (MessageHead.ofBytes request.bytes).opcode

/-- The opcode is part of the head. -/
theorem opcode_ofBytes_take (bytes : List Byte) :
    (MessageHead.ofBytes (bytes.take headSize)).opcode =
      (MessageHead.ofBytes bytes).opcode := by
  simp [MessageHead.ofBytes, headSize]

theorem dispatchReads_eq
    (request : RequestBlock) (outside : ℤ → Byte) (msg : ℤ) :
    dispatchReads (store outside msg request.bytes) msg =
      decodeReads (store outside msg request.bytes) request.strings
        (msg + headSize) := by
  have hhead :
      slice (store outside msg request.bytes) msg headSize =
        request.bytes.take headSize := by
    rw [← take_slice _ msg request.size_ge, slice_store]
  rw [dispatchReads, hhead, RequestBlock.strings, opcode_ofBytes_take]

/-- Wherever a request lies, and whatever lies around it: the reads stay inside
it exactly when the strings of its command fit its body. -/
theorem dispatch_reads_inside_iff
    (request : RequestBlock) (outside : ℤ → Byte) (msg : ℤ) :
    (∀ read ∈ dispatchReads (store outside msg request.bytes) msg,
        msg ≤ read.start ∧
          read.start + read.len ≤ msg + request.bytes.length) ↔
      FieldsFit request.strings (request.bytes.drop headSize) := by
  have hsize := request.size_ge
  have hbody :
      slice (store outside msg request.bytes) (msg + headSize)
          (request.bytes.length - headSize) =
        request.bytes.drop headSize := by
    rw [← drop_slice _ msg hsize, slice_store]
  rw [dispatchReads_eq, ← hbody, ← decodeReads_inside_iff]
  constructor
  · intro hinside read hread
    have hend := (hinside read hread).2
    omega
  · intro hinside read hread
    have hstart := decodeReads_start hread
    have hend := hinside read hread
    constructor <;> omega

/-- A request for a key that is said to be 100 bytes long and is not there. -/
def missingKey : RequestBlock where
  bytes := [16, 0, 0, 0, 128, 4, 0, 0, 0, 0, 0, 0, 100, 0, 0, 0]
  size_ge := by decide
  length_eq := by decide

/-- The reads go up to 112 bytes behind the beginning of a message of 16, and
the request is not rejected. -/
theorem dispatch_reads_behind_request :
    (⟨12, 100⟩ : Stretch) ∈
        dispatchReads (store (fun _ => 0) 0 missingKey.bytes) 0 ∧
      ¬ (12 + 100 : ℤ) ≤ 0 + missingKey.bytes.length ∧
      (decodeStrings (store (fun _ => 0) 0 missingKey.bytes)
        missingKey.strings 12).isSome := by
  refine ⟨?_, ?_, ?_⟩
  · decide +kernel
  · decide
  · decide +kernel

end GreenTurtle.Kv
