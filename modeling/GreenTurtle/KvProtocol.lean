import GreenTurtle.FixedWidth
import GreenTurtle.LittleEndian
import Mathlib.Tactic

/-!
# The protocol of the key-value server

`kv/protocol.h`: opcodes, the head of a message, and `Decode`.  A string is
documented as four bytes of length and then the raw bytes.  `Decode` is handed
the address of a cursor, but the step over the four bytes is added to its own
parameter, so the cursor stays where the length begins.
-/

namespace GreenTurtle.Kv

open FixedWidth
open LittleEndian
open Memory

def protocolRequest : UInt8 := 0x80
def protocolResponse : UInt8 := 0x81

/-- The enumeration `PROTOCOL_CMD`. -/
inductive Command where
  | version
  | noop
  | error
  | get
  | set
  | del
  | append
  | inc
  | dec
  | flush
deriving DecidableEq

def Command.opcode : Command → UInt8
  | .version => 0x01
  | .noop => 0x02
  | .error => 0x03
  | .get => 0x04
  | .set => 0x05
  | .del => 0x06
  | .append => 0x07
  | .inc => 0x08
  | .dec => 0x09
  | .flush => 0x0A

def Command.ofOpcode (opcode : UInt8) : Option Command :=
  [Command.version, .noop, .error, .get, .set, .del, .append, .inc, .dec,
    .flush].find? (·.opcode = opcode)

def protocolErrOk : Int8 := 0

structure MessageHead where
  length : UInt32
  magic : UInt8
  opcode : UInt8
  affinity : UInt16
  seq : UInt32
deriving DecidableEq

/-- `sizeof(MessageHead)`, which is packed. -/
def headSize : ℕ := 12

def MessageHead.bytes (head : MessageHead) : List Byte :=
  encode 4 head.length.toNat ++ [head.magic, head.opcode] ++
    encode 2 head.affinity.toNat ++ encode 4 head.seq.toNat

def MessageHead.ofBytes (bytes : List Byte) : MessageHead where
  length := UInt32.ofNat (decode (bytes.take 4))
  magic := bytes.getD 4 0
  opcode := bytes.getD 5 0
  affinity := UInt16.ofNat (decode ((bytes.drop 6).take 2))
  seq := UInt32.ofNat (decode ((bytes.drop 8).take 4))

@[simp] theorem MessageHead.length_bytes (head : MessageHead) :
    head.bytes.length = headSize := by
  simp [bytes, headSize]

theorem MessageHead.ofBytes_bytes_append
    (head : MessageHead) (rest : List Byte) :
    ofBytes (head.bytes ++ rest) = head := by
  have hlength : decode (encode 4 head.length.toNat) = head.length.toNat :=
    decode_encode_of_lt head.length.toNat_lt
  have haffinity :
      decode (encode 2 head.affinity.toNat) = head.affinity.toNat :=
    decode_encode_of_lt head.affinity.toNat_lt
  have hseq : decode (encode 4 head.seq.toNat) = head.seq.toNat :=
    decode_encode_of_lt head.seq.toNat_lt
  have hfields :
      ofBytes (head.bytes ++ rest) =
        ⟨UInt32.ofNat (decode (encode 4 head.length.toNat)), head.magic,
          head.opcode, UInt16.ofNat (decode (encode 2 head.affinity.toNat)),
          UInt32.ofNat (decode (encode 4 head.seq.toNat))⟩ := rfl
  rw [hfields, hlength, haffinity, hseq]
  simp

/-! ## Strings -/

/-- The documented encoding. -/
def encodeString (s : List Byte) : List Byte := encode 4 s.length ++ s

def encodeStrings (strings : List (List Byte)) : List Byte :=
  strings.flatMap encodeString

/-- `Decode<int32_t>`: the value, and the cursor after the call. -/
def decodeInt32 (mem : ℤ → Byte) (cursor : ℤ) : ℤ × ℤ :=
  (toInt32 (decode (slice mem cursor 4)), cursor)

/-- The string between the cursor and `strLen` bytes behind it, and the new
cursor.  A range that ends before it begins makes the constructor throw. -/
def takeString (mem : ℤ → Byte) (cursor strLen : ℤ) :
    Option (List Byte × ℤ) :=
  if strLen < 0 then none
  else some (slice mem cursor strLen.toNat, cursor + strLen)

/-- `Decode<std::string>`. -/
def decodeString (mem : ℤ → Byte) (cursor : ℤ) :
    Option (List Byte × ℤ) :=
  let decoded := decodeInt32 mem cursor
  takeString mem decoded.2 decoded.1

/-- A number of successive calls. -/
def decodeStrings (mem : ℤ → Byte) :
    ℕ → ℤ → Option (List (List Byte) × ℤ)
  | 0, cursor => some ([], cursor)
  | count + 1, cursor =>
      (decodeString mem cursor).bind fun first =>
        (decodeStrings mem count first.2).map fun rest =>
          (first.1 :: rest.1, rest.2)

theorem takeString_advances
    {mem : ℤ → Byte} {cursor strLen : ℤ} {taken : List Byte × ℤ}
    (htaken : takeString mem cursor strLen = some taken) :
    taken.2 = cursor + taken.1.length := by
  unfold takeString at htaken
  split at htaken
  next => simp at htaken
  next hnonneg =>
    obtain rfl := Option.some.inj htaken
    simp only [length_slice]
    omega

/-- The cursor moves over the strings and not over their lengths. -/
theorem decodeStrings_advances
    {mem : ℤ → Byte} {count : ℕ} {cursor : ℤ}
    {decoded : List (List Byte) × ℤ}
    (hdecoded : decodeStrings mem count cursor = some decoded) :
    decoded.1.length = count ∧
      decoded.2 = cursor + decoded.1.flatten.length := by
  induction count generalizing cursor decoded with
  | zero =>
      obtain rfl := Option.some.inj hdecoded
      simp
  | succ count ih =>
      obtain ⟨first, hfirst, hothers⟩ :=
        Option.bind_eq_some_iff.mp hdecoded
      obtain ⟨rest, hrest, rfl⟩ := Option.map_eq_some_iff.mp hothers
      have hstep := takeString_advances hfirst
      simp only [decodeInt32] at hstep
      have hsteps := ih hrest
      simp only [List.length_cons, List.flatten_cons, List.length_append]
      omega

theorem length_encodeStrings (strings : List (List Byte)) :
    (encodeStrings strings).length =
      4 * strings.length + strings.flatten.length := by
  induction strings with
  | nil => rfl
  | cons s strings ih =>
      simp only [encodeStrings, List.flatMap_cons, encodeString,
        List.length_append, length_encode, List.flatten_cons,
        List.length_cons] at ih ⊢
      omega

/-- What a call returns in front of an encoded string: the first bytes of the
encoding, and not the string. -/
theorem decodeString_encoded
    {mem : ℤ → Byte} {cursor : ℤ} {s : List Byte}
    (hshort : s.length < 2147483648)
    (hencoded :
      slice mem cursor (encodeString s).length = encodeString s) :
    decodeString mem cursor =
      some ((encodeString s).take s.length, cursor + s.length) := by
  have hlength : (encodeString s).length = 4 + s.length := by
    simp [encodeString]
  have hfield : slice mem cursor 4 = encode 4 s.length := by
    rw [← take_slice mem cursor (show 4 ≤ (encodeString s).length by omega),
      hencoded]
    simp [encodeString]
  have hbytes : slice mem cursor s.length = (encodeString s).take s.length := by
    rw [← take_slice mem cursor
      (show s.length ≤ (encodeString s).length by omega), hencoded]
  have hvalue : toInt32 (decode (slice mem cursor 4)) = s.length := by
    rw [hfield, decode_encode_of_lt (by omega),
      toInt32_of_bounds (by omega) (by omega)]
  simp only [decodeString, decodeInt32, hvalue, takeString]
  rw [if_neg (by omega), Int.toNat_natCast, hbytes]

/-- Calls on a body return the strings and leave the cursor at its end. -/
def DecodesBody
    (mem : ℤ → Byte) (start : ℤ) (strings : List (List Byte)) : Prop :=
  decodeStrings (store mem start (encodeStrings strings)) strings.length
      start =
    some (strings, start + (encodeStrings strings).length)

theorem decodesBody_iff
    (mem : ℤ → Byte) (start : ℤ) (strings : List (List Byte)) :
    DecodesBody mem start strings ↔ strings = [] := by
  constructor
  · intro hdecodes
    have hcursor := (decodeStrings_advances hdecodes).2
    simp only [length_encodeStrings] at hcursor
    have hempty : strings.length = 0 := by omega
    exact List.length_eq_zero_iff.mp hempty
  · rintro rfl
    simp [DecodesBody, decodeStrings, encodeStrings]

/-- The string `"a"` comes back as the byte one, and the cursor is one byte
behind the start of the body. -/
theorem decodeStrings_returns_length_byte :
    decodeStrings (store (fun _ => 0) 0 (encodeStrings [[97]])) 1 0 =
        some ([[1]], 1) ∧
      ¬ DecodesBody (fun _ => 0) 0 [[97]] := by
  constructor
  · decide
  · intro hdecodes
    have hcursor := (decodeStrings_advances hdecodes).2
    revert hcursor
    decide

end GreenTurtle.Kv
