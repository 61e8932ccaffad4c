import GreenTurtle.KvProtocol
import Mathlib.Tactic

/-!
# The responses of the key-value server

`kv/message_loop.cc` and the `MessageBuffer` of `net/message.h`.  A response is
the head followed by the appended values.  `__Append` names its parameter, so
every value arrives as an lvalue: the overload for `std::string&&` is never
chosen, and a string is appended like a number, by assigning the object to
bytes of the buffer that are zero and hold no object.
-/

namespace GreenTurtle.Kv

open FixedWidth
open LittleEndian
open Memory

/-- How a `std::string` lies in memory: an object of fixed size.  The image is
what an assignment to zeroed bytes leaves there; there is none when the
assignment takes the zeros for an object and stores through a null pointer. -/
structure StringObject where
  size : ℕ
  image : List Byte → Option (List Byte)
  length_image : ∀ s bytes, image s = some bytes → bytes.length = size
  size_le : size ≤ 2147483647

/-! ## The message buffer -/

/-- The offset of the new space, and the longer buffer. -/
def makeSpace (buffer : List Byte) (size : ℕ) : ℕ × List Byte :=
  (buffer.length, buffer ++ List.replicate size 0)

/-- A store through a pointer to some offset of the buffer. -/
def assign (buffer : List Byte) (offset : ℕ) (data : List Byte) :
    List Byte :=
  buffer.take offset ++ data ++ buffer.drop (offset + data.length)

inductive Value where
  | int8 (v : Int8)
  | int32 (v : ℤ)
  | string (s : List Byte)

def Value.size (object : StringObject) : Value → ℕ
  | .int8 _ => 1
  | .int32 _ => 4
  | .string _ => object.size

def Value.image (object : StringObject) : Value → Option (List Byte)
  | .int8 v => some [v.toUInt8]
  | .int32 v => some (encode 4 (v % 4294967296).toNat)
  | .string s => object.image s

/-- The template `Append(const T& v)`. -/
def append (object : StringObject) (buffer : List Byte) (v : Value) :
    Option (List Byte) :=
  let space := makeSpace buffer (v.size object)
  (v.image object).map (assign space.2 space.1)

/-- `__Append`. -/
def appendAll (object : StringObject) (buffer : List Byte) :
    List Value → Option (List Byte)
  | [] => some buffer
  | t :: tn =>
      (append object buffer t).bind fun longer => appendAll object longer tn

/-- The frame that `SendMessage` hands to the handler, if no assignment
crashes.  The length is patched when everything has been appended. -/
def sendMessage (object : StringObject) (head : MessageHead)
    (v : List Value) : Option (List Byte) :=
  let space := makeSpace [] headSize
  let buffer := assign space.2 space.1 head.bytes
  (appendAll object buffer v).map fun buffer =>
    assign buffer space.1 (encode 4 buffer.length)

def sendError (object : StringObject) (head : MessageHead) (error : Int8) :
    Option (List Byte) :=
  sendMessage object { head with opcode := Command.error.opcode }
    [.int8 error]

/-! ## Dispatching -/

inductive DispatchOutcome where
  | sent (frame : List Byte)
  | crashed
  | thrown
  | notFound
deriving DecidableEq

def DispatchOutcome.ofFrame : Option (List Byte) → DispatchOutcome
  | none => .crashed
  | some frame => .sent frame

/-- The answer, when the strings of the request can be decoded. -/
def answer
    (mem : ℤ → Byte) (data : ℤ) (strings : ℕ)
    (frame : Option (List Byte)) : DispatchOutcome :=
  match decodeStrings mem strings data with
  | none => .thrown
  | some _ => .ofFrame frame

/-- The strings are those of the store, which the source does not have yet: its
version is fixed and its results are empty.  The field `length` of the head on
the stack is not initialised. -/
def dispatchMessage
    (object : StringObject) (version result : List Byte)
    (uninitialised : UInt32) (mem : ℤ → Byte) (msg : ℤ) :
    DispatchOutcome :=
  let reqHead := MessageHead.ofBytes (slice mem msg headSize)
  let data := msg + headSize
  let head : MessageHead :=
    { length := uninitialised
      magic := protocolResponse
      opcode := reqHead.opcode
      affinity := 0
      seq := reqHead.seq }
  match Command.ofOpcode reqHead.opcode with
  | some .version =>
      .ofFrame (sendMessage object head
        [.int32 (toInt32 version.length), .string version])
  | some .noop => .ofFrame (sendMessage object head [])
  | some .get =>
      let error := protocolErrOk
      answer mem data 1
        (if error ≠ 0 then sendError object head error
          else sendMessage object head [.string result])
  | some .set => answer mem data 2 (sendMessage object head [])
  | some .del => answer mem data 1 (sendMessage object head [])
  | some .append => answer mem data 2 (sendMessage object head [])
  | some .inc => answer mem data 1 (sendMessage object head [.string result])
  | some .dec => answer mem data 1 (sendMessage object head [.string result])
  | some .flush => .ofFrame (sendMessage object head [])
  | some .error | none => .notFound

/-! ## What the protocol says -/

/-- The string of a response, for the commands whose response is one string. -/
def documentedString (version result : List Byte) :
    Command → Option (List Byte)
  | .version => some version
  | .get | .inc | .dec => some result
  | _ => none

def documentedBody : Option (List Byte) → List Byte
  | none => []
  | some s => encodeString s

/-- The frame is a head that tells its length and names the request, followed
by the documented body. -/
def Conforms
    (request : MessageHead) (string : Option (List Byte))
    (frame : List Byte) : Prop :=
  ∃ head : MessageHead,
    frame = head.bytes ++ documentedBody string ∧
      head.length.toNat = frame.length ∧
      head.magic = protocolResponse ∧ head.seq = request.seq

/-- The string of a response as a client reads it. -/
def readString (bytes : List Byte) : Option (List Byte) :=
  let length := decode (bytes.take 4)
  if bytes.length = 4 + length then some (bytes.drop 4) else none

/-- A client reads the head off the frame. -/
theorem Conforms.readHead
    {request : MessageHead} {string : Option (List Byte)}
    {frame : List Byte} (hconforms : Conforms request string frame) :
    (MessageHead.ofBytes frame).length.toNat = frame.length ∧
      (MessageHead.ofBytes frame).magic = protocolResponse ∧
      (MessageHead.ofBytes frame).seq = request.seq := by
  obtain ⟨head, hframe, hlength, hmagic, hseq⟩ := hconforms
  have hhead : MessageHead.ofBytes frame = head := by
    rw [hframe, MessageHead.ofBytes_bytes_append]
  rw [hhead]
  exact ⟨hlength, hmagic, hseq⟩

theorem Conforms.readString
    {request : MessageHead} {s frame : List Byte}
    (hconforms : Conforms request (some s) frame)
    (hshort : s.length < 4294967296) :
    Kv.readString (frame.drop headSize) = some s := by
  obtain ⟨head, hframe, -, -, -⟩ := hconforms
  have hbody : frame.drop headSize = encodeString s := by
    rw [hframe, List.drop_left' head.length_bytes]
    rfl
  have hfield : decode ((encodeString s).take 4) = s.length := by
    rw [encodeString, List.take_left' (length_encode 4 s.length),
      decode_encode_of_lt hshort]
  have htext : (encodeString s).drop 4 = s := by
    rw [encodeString, List.drop_left' (length_encode 4 s.length)]
  simp [Kv.readString, hbody, hfield, htext]
  simp [encodeString]

/-! ## The frame that is sent -/

theorem assign_append
    (before : List Byte) {old data : List Byte} (rest : List Byte)
    (hsize : old.length = data.length) :
    assign (before ++ (old ++ rest)) before.length data =
      before ++ (data ++ rest) := by
  unfold assign
  rw [List.take_left, ← hsize, ← List.length_append,
    ← List.append_assoc before old rest, List.drop_left,
    List.append_assoc]

theorem Value.length_image
    {object : StringObject} {v : Value} {image : List Byte}
    (himage : v.image object = some image) :
    image.length = v.size object := by
  cases v with
  | int8 v =>
      cases himage
      rfl
  | int32 v =>
      cases himage
      rw [length_encode]
      rfl
  | string s => exact object.length_image s image himage

theorem append_eq
    (object : StringObject) (buffer : List Byte) (v : Value) :
    append object buffer v = (v.image object).map (buffer ++ ·) := by
  cases himage : v.image object with
  | none => rw [append, himage, Option.map_none, Option.map_none]
  | some image =>
      have hsize :
          (List.replicate (v.size object) (0 : Byte)).length =
            image.length := by
        rw [List.length_replicate, Value.length_image himage]
      have hassigned := assign_append buffer [] hsize
      simpa [append, makeSpace, himage] using hassigned

/-- The images of several values, one behind the other. -/
def images (object : StringObject) : List Value → Option (List Byte)
  | [] => some []
  | t :: tn =>
      (t.image object).bind fun first => (images object tn).map (first ++ ·)

theorem appendAll_eq
    (object : StringObject) (buffer : List Byte) (v : List Value) :
    appendAll object buffer v = (images object v).map (buffer ++ ·) := by
  induction v generalizing buffer with
  | nil => simp [appendAll, images]
  | cons t tn ih =>
      rw [appendAll, append_eq, images]
      cases t.image object with
      | none => rfl
      | some first =>
          simp [ih, Function.comp_def]

/-- The head with its length patched, and the images of the values. -/
theorem sendMessage_eq
    (object : StringObject) (head : MessageHead) (v : List Value) :
    sendMessage object head v =
      (images object v).map fun body =>
        { head with length := UInt32.ofNat (headSize + body.length) }.bytes ++
          body := by
  have hspace :
      assign (List.replicate headSize 0) 0 head.bytes = head.bytes := by
    simp [assign]
  have hpatch (rest : List Byte) (length : ℕ) :
      assign (head.bytes ++ rest) 0 (encode 4 length) =
        { head with length := UInt32.ofNat length }.bytes ++ rest := by
    have hassigned :=
      assign_append [] ([head.magic, head.opcode] ++
        encode 2 head.affinity.toNat ++ encode 4 head.seq.toNat ++ rest)
        (show (encode 4 head.length.toNat).length =
          (encode 4 length).length by simp)
    have hlength :
        encode 4 (length % 4294967296) = encode 4 length :=
      encode_mod 4 length
    simpa [MessageHead.bytes, hlength] using hassigned
  simp only [sendMessage, makeSpace, List.nil_append, List.length_nil,
    hspace, appendAll_eq, Option.map_map, Function.comp_def, hpatch,
    List.length_append, MessageHead.length_bytes]

/-- The values of a response. -/
def responseValues (version result : List Byte) : Command → List Value
  | .version => [.int32 (toInt32 version.length), .string version]
  | .get | .inc | .dec => [.string result]
  | _ => []

theorem DispatchOutcome.eq_some_of_ofFrame
    {built : Option (List Byte)} {frame : List Byte}
    (hsent : ofFrame built = .sent frame) :
    built = some frame := by
  cases built with
  | none => simp [ofFrame] at hsent
  | some built => exact congrArg some (DispatchOutcome.sent.inj hsent)

theorem eq_some_of_answer_eq_sent
    {mem : ℤ → Byte} {data : ℤ} {strings : ℕ}
    {built : Option (List Byte)} {frame : List Byte}
    (hsent : answer mem data strings built = .sent frame) :
    built = some frame := by
  unfold answer at hsent
  split at hsent
  next => simp at hsent
  next => exact DispatchOutcome.eq_some_of_ofFrame hsent

/-- The command was recognised, and the frame carries its values. -/
theorem dispatchMessage_sent
    {object : StringObject} {version result : List Byte}
    {uninitialised : UInt32} {mem : ℤ → Byte} {msg : ℤ}
    {frame : List Byte}
    (hsent :
      dispatchMessage object version result uninitialised mem msg =
        .sent frame) :
    let request := MessageHead.ofBytes (slice mem msg headSize)
    ∃ command, Command.ofOpcode request.opcode = some command ∧
      sendMessage object
          ⟨uninitialised, protocolResponse, request.opcode, 0, request.seq⟩
          (responseValues version result command) = some frame := by
  intro request
  simp only [dispatchMessage] at hsent
  cases hcommand : Command.ofOpcode request.opcode with
  | none => simp [request, hcommand] at hsent
  | some command =>
      simp only [request, hcommand] at hsent
      refine ⟨command, rfl, ?_⟩
      cases command with
      | version => exact DispatchOutcome.eq_some_of_ofFrame hsent
      | noop => exact DispatchOutcome.eq_some_of_ofFrame hsent
      | error => simp at hsent
      | get => exact eq_some_of_answer_eq_sent hsent
      | set => exact eq_some_of_answer_eq_sent hsent
      | del => exact eq_some_of_answer_eq_sent hsent
      | append => exact eq_some_of_answer_eq_sent hsent
      | inc => exact eq_some_of_answer_eq_sent hsent
      | dec => exact eq_some_of_answer_eq_sent hsent
      | flush => exact DispatchOutcome.eq_some_of_ofFrame hsent

/-! ## Conformance -/

/-- Of a frame that is short enough for its length field, only the body can be
wrong. -/
theorem conforms_sendMessage_iff
    {object : StringObject} {request head : MessageHead} {v : List Value}
    {string : Option (List Byte)} {body frame : List Byte}
    (hbody : images object v = some body)
    (hframe : sendMessage object head v = some frame)
    (hmagic : head.magic = protocolResponse)
    (hseq : head.seq = request.seq)
    (hshort : headSize + body.length < 4294967296) :
    Conforms request string frame ↔ body = documentedBody string := by
  rw [sendMessage_eq, hbody, Option.map_some, Option.some_inj] at hframe
  rw [← hframe]
  constructor
  · rintro ⟨sent, hframe, -, -, -⟩
    have hheads :
        ({ head with
            length := UInt32.ofNat (headSize + body.length) } :
              MessageHead).bytes.length =
          sent.bytes.length := by
      rw [MessageHead.length_bytes, MessageHead.length_bytes]
    exact (List.append_inj hframe hheads).2
  · intro hbody
    refine ⟨_, congrArg _ hbody, ?_, hmagic, hseq⟩
    rw [List.length_append, MessageHead.length_bytes]
    exact Nat.mod_eq_of_lt hshort

theorem length_images
    {object : StringObject} {v : List Value} {body : List Byte}
    (hbody : images object v = some body) :
    body.length = (v.map (Value.size object)).sum := by
  induction v generalizing body with
  | nil =>
      cases hbody
      rfl
  | cons t tn ih =>
      simp only [images, Option.bind_eq_some_iff, Option.map_eq_some_iff]
        at hbody
      obtain ⟨first, hfirst, rest, hrest, rfl⟩ := hbody
      rw [List.length_append, List.map_cons, List.sum_cons, ih hrest,
        Value.length_image hfirst]

theorem length_responseValues_le
    (object : StringObject) (version result : List Byte)
    (command : Command) :
    ((responseValues version result command).map
        (Value.size object)).sum ≤ 4 + object.size := by
  cases command <;> simp [responseValues, Value.size]

/-- The length that is sent in front of a version is the documented one. -/
theorem image_int32_length (object : StringObject) (s : List Byte) :
    (Value.int32 (toInt32 s.length)).image object =
      some (encode 4 s.length) := by
  have hresidue :
      (toInt32 s.length % 4294967296).toNat = s.length % 256 ^ 4 := by
    unfold toInt32
    rw [Int.bmod_def]
    norm_num
    split <;> omega
  rw [Value.image, hresidue, encode_mod]

theorem images_string (object : StringObject) (s : List Byte) :
    images object [.string s] = object.image s := by
  simp [images, Value.image]

/-- The object that holds the string reads like what the protocol wants at its
place. -/
def ImageAgrees
    (object : StringObject) (version result : List Byte) : Command → Prop
  | .version => object.image version = some version
  | .get | .inc | .dec => object.image result = some (encodeString result)
  | _ => True

theorem responseValues_documented_iff
    (object : StringObject) (version result : List Byte)
    (command : Command) :
    images object (responseValues version result command) =
        some (documentedBody (documentedString version result command)) ↔
      ImageAgrees object version result command := by
  cases command with
  | version =>
      rw [responseValues, images, image_int32_length, Option.bind_some,
        images_string, documentedString, documentedBody, encodeString,
        ImageAgrees]
      simp
  | get | inc | dec =>
      rw [responseValues, images_string]
      rfl
  | noop | error | set | del | append | flush =>
      exact iff_of_true rfl trivial

/-- An object of fixed size can look right for strings of one length only. -/
theorem ImageAgrees.size_eq
    {object : StringObject} {version result : List Byte}
    {command : Command} {s : List Byte}
    (hagrees : ImageAgrees object version result command)
    (hstring : documentedString version result command = some s) :
    object.size = s.length ∨ object.size = 4 + s.length := by
  cases command with
  | version =>
      cases hstring
      left
      exact (object.length_image _ _ hagrees).symm
  | get | inc | dec =>
      cases hstring
      right
      rw [← object.length_image _ _ hagrees]
      simp [encodeString]
  | noop | error | set | del | append | flush => cases hstring

theorem response_conforms_iff
    (object : StringObject) (version result : List Byte)
    (uninitialised : UInt32) (mem : ℤ → Byte) (msg : ℤ)
    (command : Command) (frame : List Byte)
    (hcommand :
      Command.ofOpcode
          (MessageHead.ofBytes (slice mem msg headSize)).opcode =
        some command)
    (hsent :
      dispatchMessage object version result uninitialised mem msg =
        .sent frame) :
    Conforms (MessageHead.ofBytes (slice mem msg headSize))
        (documentedString version result command) frame ↔
      ImageAgrees object version result command := by
  obtain ⟨found, hfound, hframe⟩ := dispatchMessage_sent hsent
  rw [hcommand] at hfound
  cases hfound
  cases hbody : images object (responseValues version result command) with
  | none => simp [sendMessage_eq, hbody] at hframe
  | some body =>
      have hshort : headSize + body.length < 4294967296 := by
        have hlength :=
          length_responseValues_le object version result command
        have hsize := object.size_le
        rw [length_images hbody]
        unfold headSize
        omega
      rw [← responseValues_documented_iff, hbody, Option.some_inj]
      exact conforms_sendMessage_iff hbody hframe rfl rfl hshort

/-- The object of the GNU library after an assignment to zeroed bytes: an
address, the length, the capacity, and a field that is not used.  The zeros
read as an object without capacity, so that a string gets memory of its own;
the empty string needs none, and its terminator is stored through the null
pointer. -/
def gnuString : StringObject where
  size := 32
  image s :=
    if s = [] then none
    else some
      (encode 8 4096 ++ encode 8 s.length ++ encode 8 s.length ++ encode 8 0)
  length_image s bytes himage := by
    split at himage
    next => cases himage
    next =>
      cases himage
      simp
  size_le := by decide

/-- With the empty results of the source no request for one is answered. -/
theorem dispatchMessage_empty_result_not_sent
    {version : List Byte} {uninitialised : UInt32} {mem : ℤ → Byte}
    {msg : ℤ} {command : Command} (frame : List Byte)
    (hcommand :
      Command.ofOpcode
          (MessageHead.ofBytes (slice mem msg headSize)).opcode =
        some command)
    (hresult : command = .get ∨ command = .inc ∨ command = .dec) :
    dispatchMessage gnuString version [] uninitialised mem msg ≠
      .sent frame := by
  intro hsent
  obtain ⟨found, hfound, hframe⟩ := dispatchMessage_sent hsent
  rw [hcommand] at hfound
  cases hfound
  have hvalues : responseValues version [] command = [.string []] := by
    rcases hresult with rfl | rfl | rfl <;> rfl
  rw [hvalues, sendMessage_eq, images_string] at hframe
  cases hframe

/-- A request of twelve bytes at address zero. -/
def requestMemory (command : Command) : ℤ → Byte :=
  store (fun _ => 0) 0
    (MessageHead.bytes ⟨12, protocolRequest, command.opcode, 0, 7⟩)

theorem response_conforms_iff_noop :
    ∃ frame,
      dispatchMessage gnuString [48, 46, 49] [] 0 (requestMemory .noop) 0 =
          .sent frame ∧
        Conforms
          (MessageHead.ofBytes (slice (requestMemory .noop) 0 headSize))
          none frame := by
  refine ⟨[12, 0, 0, 0, 129, 2, 0, 0, 7, 0, 0, 0], by decide, ?_⟩
  exact (response_conforms_iff gnuString [48, 46, 49] [] 0
    (requestMemory .noop) 0 .noop _ (by decide) (by decide)).mpr trivial

/-- The version `0.1` is sent as an object of 32 bytes. -/
theorem version_response_not_conforming :
    ∃ frame,
      dispatchMessage gnuString [48, 46, 49] [] 0 (requestMemory .version)
          0 = .sent frame ∧
        frame.length = 48 ∧
        ¬ Conforms
          (MessageHead.ofBytes (slice (requestMemory .version) 0 headSize))
          (some [48, 46, 49]) frame := by
  refine ⟨[48, 0, 0, 0, 129, 1, 0, 0, 7, 0, 0, 0,
    3, 0, 0, 0,
    0, 16, 0, 0, 0, 0, 0, 0, 3, 0, 0, 0, 0, 0, 0, 0,
    3, 0, 0, 0, 0, 0, 0, 0, 0, 0, 0, 0, 0, 0, 0, 0], by decide, rfl, ?_⟩
  rintro ⟨head, hframe, -, -, -⟩
  have hlength := congrArg List.length hframe
  simp [documentedBody, encodeString, headSize] at hlength

end GreenTurtle.Kv
