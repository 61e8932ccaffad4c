import GreenTurtle.Framing
import GreenTurtle.KvProtocol
import GreenTurtle.OnReadCall
import Mathlib.Tactic

/-!
# Framing of requests

`IoTask::Decoding` of `kv/server.cc`.  The decoder takes message after message
off the receive buffer, as long as the length in front of the readable bytes is
not larger than their number, and pushes each one to the message loop that its
affinity selects.  The number of readable bytes goes through an `int32_t`.
-/

namespace GreenTurtle.Kv

open BufferedSocket
open Execution
open FixedWidth
open Framing
open LittleEndian
open Memory

/-- A call of `PushMessage`. -/
structure Push where
  loop : ℕ
  msg : List Byte
deriving DecidableEq

/-- `GetMessageLoop` with the affinity of the message. -/
def route (poolSize : ℕ) (msg : List Byte) : Push :=
  ⟨(MessageHead.ofBytes msg).affinity.toNat % poolSize, msg⟩

/-- The variable `size` of the loop. -/
def readableSize (data : Buffer) : ℤ := toInt32 data.readableLength

/-- The variable `msg_len` of the loop. -/
def messageLength (data : Buffer) : ℤ :=
  toInt32 (decode (slice data.array data.read 4))

/-- The loop of `Decoding`.  There is no result when it throws, when there is no
message loop, or when it goes on longer than the fuel.  An iteration that finds
less than a head changes nothing, and ends the call here. -/
def decodingLoop (poolSize : ℕ) :
    ℕ → Buffer → List Push → Option (Buffer × List Push)
  | 0, _, _ => none
  | fuel + 1, data, pushed =>
      if (headSize : ℤ) ≤ readableSize data then
        if messageLength data ≤ readableSize data then
          if messageLength data < 0 ∨ poolSize = 0 then none
          else
            decodingLoop poolSize fuel
              (data.hasRead (messageLength data).toNat)
              (pushed ++
                [route poolSize
                  (slice data.array data.read
                    (messageLength data).toNat)])
        else some (data, pushed)
      else some (data, pushed)

/-- Every message has at least one byte, so one iteration more than there are
bytes is enough, unless a length of zero is sent. -/
def decoding (poolSize : ℕ) : Decoder (List Push) := fun data pushed =>
  decodingLoop poolSize (data.readableLength + 1) data pushed

def onRead (poolSize : ℕ) :
    Receiver × List Push → Delivery → Option (Receiver × List Push) :=
  onReadCall (decoding poolSize)

/-! ## The decoder consumes -/

theorem readableSize_le (data : Buffer) :
    readableSize data ≤ data.readableLength := by
  unfold readableSize toInt32
  rw [Int.bmod_def]
  split <;> omega

theorem decodingLoop_consumes
    {poolSize fuel : ℕ} {data : Buffer} {pushed : List Push}
    {decoded : Buffer × List Push} (hformed : data.WellFormed)
    (hdecoded : decodingLoop poolSize fuel data pushed = some decoded) :
    ∃ count, count ≤ data.readableLength ∧
      decoded.1 = data.hasRead count := by
  induction fuel generalizing data pushed with
  | zero => simp [decodingLoop] at hdecoded
  | succ fuel ih =>
      have hsize := readableSize_le data
      simp only [decodingLoop] at hdecoded
      generalize messageLength data = msgLen at hdecoded
      split at hdecoded
      next =>
        split at hdecoded
        next hle =>
          split at hdecoded
          next => simp at hdecoded
          next hvalid =>
            have hbound : msgLen.toNat ≤ data.readableLength := by omega
            have hread := hformed.hasRead hbound
            obtain ⟨count, hcount, hrest⟩ := ih hread.1 hdecoded
            refine ⟨msgLen.toNat + count, ?_, ?_⟩
            · rw [hformed.readableLength_hasRead hbound] at hcount
              omega
            · rw [hrest, Buffer.hasRead_hasRead]
        next =>
          obtain rfl := Option.some.inj hdecoded
          exact ⟨0, Nat.zero_le _, rfl⟩
      next =>
        obtain rfl := Option.some.inj hdecoded
        exact ⟨0, Nat.zero_le _, rfl⟩

theorem decoding_consumes (poolSize : ℕ) : Consumes (decoding poolSize) := by
  intro buffer pushed decoded hformed hdecoded
  exact decodingLoop_consumes hformed hdecoded

/-! ## Frames -/

structure IsFrame (bytes : List Byte) : Prop where
  size_ge : headSize ≤ bytes.length
  size_lt : bytes.length < 2147483648
  length_field : decode (bytes.take 4) = bytes.length

/-- The length field of a frame can be read from any beginning of it that
covers the field. -/
theorem IsFrame.decode_take
    {f part : List Byte} (hframe : IsFrame f) (hpart : part <+: f)
    (hlength : 4 ≤ part.length) :
    decode (part.take 4) = f.length := by
  rw [← hframe.length_field]
  obtain ⟨rest, rfl⟩ := hpart
  rw [List.take_append_of_le_length hlength]

theorem isFrame_prefixFree : PrefixFree IsFrame := by
  intro f g hf hg hbegins
  have hsize := hf.size_ge
  unfold headSize at hsize
  have hlength := hg.decode_take hbegins (by omega)
  rw [hf.length_field] at hlength
  exact hbegins.eq_of_length hlength

theorem Unfinished.length_lt
    {part : List Byte} (hpart : Unfinished IsFrame part) :
    ∃ f, IsFrame f ∧ part <+: f ∧ part.length < f.length := by
  obtain ⟨f, hframe, hbegins, hproper⟩ := hpart
  refine ⟨f, hframe, hbegins, lt_of_le_of_ne hbegins.length_le ?_⟩
  intro hlength
  exact hproper (hbegins.eq_of_length hlength)

/-! ## The loop on a stream of frames -/

theorem take_readable
    {data : Buffer} {count : ℕ} (hcount : count ≤ data.readableLength) :
    slice data.array data.read count = data.readable.take count :=
  (take_slice data.array data.read hcount).symm

theorem decodingLoop_frame
    {poolSize : ℕ} (hpool : 0 < poolSize) (fuel : ℕ) {data : Buffer}
    (pushed : List Push) {f rest : List Byte} (hframe : IsFrame f)
    (hreadable : data.readable = f ++ rest)
    (hint : data.readableLength < 2147483648) :
    decodingLoop poolSize (fuel + 1) data pushed =
      decodingLoop poolSize fuel (data.hasRead f.length)
        (pushed ++ [route poolSize f]) := by
  have hlength : data.readableLength = f.length + rest.length := by
    rw [← data.length_readable, hreadable, List.length_append]
  have hge := hframe.size_ge
  have hlt := hframe.size_lt
  unfold headSize at hge
  have hfield : decode (slice data.array data.read 4) = f.length := by
    rw [take_readable (by omega), hreadable,
      List.take_append_of_le_length (by omega), hframe.length_field]
  have hmsg : slice data.array data.read f.length = f := by
    rw [take_readable (by omega), hreadable, List.take_left]
  have hsize : readableSize data = data.readableLength :=
    toInt32_of_bounds (by omega) (by omega)
  have hmsgLen : messageLength data = f.length := by
    rw [messageLength, hfield]
    exact toInt32_of_bounds (by omega) (by omega)
  simp only [decodingLoop, hsize, hmsgLen, Int.toNat_natCast, hmsg]
  rw [if_pos (by unfold headSize; omega), if_pos (by omega),
    if_neg (by omega)]

theorem decodingLoop_unfinished
    (poolSize fuel : ℕ) {data : Buffer} (pushed : List Push)
    (hpart : Unfinished IsFrame data.readable) :
    decodingLoop poolSize (fuel + 1) data pushed = some (data, pushed) := by
  obtain ⟨f, hframe, hbegins, hlt⟩ := Unfinished.length_lt hpart
  have hslice := data.length_readable
  have hflt := hframe.size_lt
  have hsize : readableSize data = data.readableLength :=
    toInt32_of_bounds (by omega) (by omega)
  simp only [decodingLoop, hsize]
  by_cases hhead : headSize ≤ data.readableLength
  · have hge := hhead
    unfold headSize at hge
    have hmsgLen : messageLength data = f.length := by
      rw [messageLength, take_readable (by omega),
        hframe.decode_take hbegins (by omega)]
      exact toInt32_of_bounds (by omega) (by omega)
    rw [hmsgLen, if_pos (by omega), if_neg (by omega)]
  · rw [if_neg (by omega)]

/-- All frames are taken, and what is left is not. -/
theorem decodingLoop_frames
    {poolSize : ℕ} (hpool : 0 < poolSize) {whole : List (List Byte)}
    {fuel : ℕ} {data : Buffer} {pushed : List Push} {part : List Byte}
    (hwhole : ∀ f ∈ whole, IsFrame f) (hpart : Unfinished IsFrame part)
    (hformed : data.WellFormed)
    (hreadable : data.readable = whole.flatten ++ part)
    (hint : data.readableLength < 2147483648)
    (hfuel : whole.length < fuel) :
    decodingLoop poolSize fuel data pushed =
      some (data.hasRead whole.flatten.length,
        pushed ++ whole.map (route poolSize)) := by
  induction whole generalizing fuel data pushed with
  | nil =>
      obtain ⟨fuel, rfl⟩ := Nat.exists_eq_add_of_lt hfuel
      rw [List.flatten_nil, List.nil_append] at hreadable
      rw [decodingLoop_unfinished _ _ _ (hreadable ▸ hpart)]
      simp [Buffer.hasRead]
  | cons f whole ih =>
      obtain ⟨fuel, rfl⟩ : ∃ less, fuel = less + 1 :=
        Nat.exists_eq_succ_of_ne_zero (by omega)
      have hframe := hwhole f List.mem_cons_self
      rw [List.flatten_cons, List.append_assoc] at hreadable
      have hbound : f.length ≤ data.readableLength := by
        rw [← data.length_readable, hreadable, List.length_append]
        omega
      have hread := hformed.hasRead hbound
      have hrest : (data.hasRead f.length).readable =
          whole.flatten ++ part := by
        rw [hread.2, hreadable, List.drop_left]
      have hless : (data.hasRead f.length).readableLength < 2147483648 := by
        rw [hformed.readableLength_hasRead hbound]
        omega
      rw [decodingLoop_frame hpool fuel pushed hframe hreadable hint,
        ih (fun g hg => hwhole g (List.mem_cons_of_mem f hg)) hread.1 hrest
          hless (by simpa using hfuel),
        Buffer.hasRead_hasRead]
      simp

theorem length_le_flatten
    {whole : List (List Byte)} (hwhole : ∀ f ∈ whole, IsFrame f) :
    whole.length ≤ whole.flatten.length := by
  induction whole with
  | nil => exact le_rfl
  | cons f whole ih =>
      have hsize := (hwhole f List.mem_cons_self).size_ge
      have hrest := ih fun g hg => hwhole g (List.mem_cons_of_mem f hg)
      unfold headSize at hsize
      rw [List.length_cons, List.flatten_cons, List.length_append]
      omega

theorem decoding_frames
    {poolSize : ℕ} (hpool : 0 < poolSize) {whole : List (List Byte)}
    {data : Buffer} {pushed : List Push} {part : List Byte}
    (hwhole : ∀ f ∈ whole, IsFrame f) (hpart : Unfinished IsFrame part)
    (hformed : data.WellFormed)
    (hreadable : data.readable = whole.flatten ++ part)
    (hint : data.readable.length < 2147483648) :
    decoding poolSize data pushed =
      some (data.hasRead whole.flatten.length,
        pushed ++ whole.map (route poolSize)) := by
  have hslice := data.length_readable
  have hcount := length_le_flatten hwhole
  have hlength := congrArg List.length hreadable
  rw [List.length_append] at hlength
  exact decodingLoop_frames hpool hwhole hpart hformed hreadable (by omega)
    (by omega)

/-! ## Calls -/

abbrev start : Receiver × List Push := (Receiver.new, [])

/-- The bytes that wait together with the new ones can be counted by an
`int32_t`. -/
def SizeFits (state : Receiver × List Push) (delivery : Delivery) : Prop :=
  Fits state.1 delivery ∧
    state.1.rcvBuffer.readable.length + delivery.data.length < 2147483648

instance (state : Receiver × List Push) (delivery : Delivery) :
    Decidable (SizeFits state delivery) :=
  inferInstanceAs (Decidable (_ ∧ _))

/-- A call hands on the frames that it completes. -/
theorem onRead_delivers
    {poolSize : ℕ} (hpool : 0 < poolSize) {state : Receiver × List Push}
    (delivery : Delivery) (whole : List (List Byte)) {part : List Byte}
    (hrest : AtRest state.1) (hsizes : SizeFits state delivery)
    (hkept : Unfinished IsFrame state.1.rcvBuffer.readable)
    (hwhole : ∀ f ∈ whole, IsFrame f) (hpart : Unfinished IsFrame part)
    (hseen :
      state.1.rcvBuffer.readable ++ delivery.data =
        whole.flatten ++ part) :
    ∃ next, onRead poolSize state delivery = some next ∧ AtRest next.1 ∧
      next.2 = state.2 ++ whole.map (route poolSize) ∧
        next.1.rcvBuffer.readable = part := by
  by_cases hpos : 0 < delivery.data.length
  · have hlength := congrArg List.length hseen
    simp only [List.length_append] at hlength
    obtain ⟨next, hcall, hreadable, hatRest⟩ :=
      hrest.call (decoding_consumes poolSize) hpos hsizes.1
        (by have hsmall := hsizes.2; omega)
        (show whole.flatten.length ≤ _ by rw [hseen]; simp)
        (fun buffer hformed hbuffer =>
          decoding_frames hpool hwhole hpart hformed (hbuffer.trans hseen)
            (by
              have hsmall := hsizes.2
              rw [hbuffer, List.length_append]
              exact hsmall))
    refine ⟨_, hcall, hatRest hsizes.2, rfl, ?_⟩
    rw [hreadable, hseen, List.drop_left]
  · have hempty : delivery.data = [] :=
      List.length_eq_zero_iff.mp (by omega)
    rw [hempty, List.append_nil] at hseen
    have hnone : whole = [] :=
      Unfinished.eq_nil_of_flatten isFrame_prefixFree hwhole
        (hseen ▸ hkept)
    subst hnone
    refine ⟨state, ?_, hrest, by simp, hseen⟩
    have hfill := hrest.fill_nil delivery.errno
    rw [← hempty] at hfill
    simp [onRead, onReadCall, hfill, hrest.idle]

/-- A request without a body, for the loop with the number five. -/
def noopFrame : List Byte := [12, 0, 0, 0, 128, 2, 5, 0, 7, 0, 0, 0]

theorem isFrame_noopFrame : IsFrame noopFrame := by
  constructor <;> decide

/-- A call that finds `2 ^ 31` bytes or more takes none of them. -/
theorem onRead_uncounted
    (poolSize : ℕ) {state : Receiver × List Push} {delivery : Delivery}
    (hrest : AtRest state.1) (hpos : 0 < delivery.data.length)
    (hfits : Fits state.1 delivery)
    (hint : delivery.data.length < 2147483648)
    (hmany :
      2147483648 ≤
        state.1.rcvBuffer.readable.length + delivery.data.length)
    (hless :
      state.1.rcvBuffer.readable.length + delivery.data.length <
        4294967296) :
    ∃ next, onRead poolSize state delivery = some next ∧
      next.2 = state.2 ∧
        next.1.rcvBuffer.readable =
          state.1.rcvBuffer.readable ++ delivery.data := by
  obtain ⟨next, hcall, hreadable, -⟩ :=
    hrest.call (decoding_consumes poolSize) hpos hfits hint (Nat.zero_le _)
      (fun buffer hformed hbuffer => by
        have hslice := buffer.length_readable
        have hlength := congrArg List.length hbuffer
        rw [List.length_append] at hlength
        have hsize : readableSize buffer < headSize := by
          unfold readableSize toInt32 headSize
          rw [Int.bmod_def]
          split <;> omega
        show decodingLoop poolSize (buffer.readableLength + 1) buffer
          state.2 = some (buffer.hasRead 0, state.2)
        simp only [decodingLoop, if_neg (not_le.mpr hsize)]
        rfl)
  exact ⟨_, hcall, rfl, by rw [hreadable, List.drop_zero]⟩

theorem fits_of_short
    (receiver : Receiver) {delivery : Delivery}
    (hshort : delivery.data.length ≤ 65536) :
    Fits receiver delivery := by
  unfold Fits kExtraBufferSize
  omega

/-- A frame may arrive byte by byte. -/
theorem run_single_bytes
    {poolSize : ℕ} (hpool : 0 < poolSize) {state : Receiver × List Push}
    (hrest : AtRest state.1) {bytes : List Byte}
    (hpart :
      Unfinished IsFrame (state.1.rcvBuffer.readable ++ bytes)) :
    ∃ final,
      run (onRead poolSize) state
          (bytes.map fun byte => ⟨[byte], .other⟩) = some final ∧
        AtRest final.1 ∧ final.2 = state.2 ∧
        final.1.rcvBuffer.readable =
          state.1.rcvBuffer.readable ++ bytes := by
  induction bytes generalizing state with
  | nil => exact ⟨state, rfl, hrest, rfl, by simp⟩
  | cons byte bytes ih =>
      have hlonger :
          Unfinished IsFrame (state.1.rcvBuffer.readable ++ [byte]) :=
        hpart.of_isPrefix (by simp)
      obtain ⟨f, hframe, -, hlength⟩ := Unfinished.length_lt hlonger
      have hlimit := hframe.size_lt
      rw [List.length_append] at hlength
      obtain ⟨next, hnext, hnextRest, hpushed, hkept⟩ :=
        onRead_delivers hpool ⟨[byte], .other⟩ [] hrest
          ⟨fits_of_short _ (by simp), hlength.trans hlimit⟩
          (hpart.of_isPrefix (List.prefix_append _ _)) (by simp) hlonger
          rfl
      rw [← List.singleton_append, ← List.append_assoc, ← hkept] at hpart
      obtain ⟨final, hrun, hfinal, hsame, hall⟩ := ih hnextRest hpart
      refine ⟨final, ?_, hfinal, ?_, ?_⟩
      · rw [List.map_cons, run_cons_eq_some_iff]
        exact ⟨next, hnext, hrun⟩
      · rw [hsame, hpushed, List.map_nil, List.append_nil]
      · rw [hall, hkept, List.append_assoc, List.singleton_append]

/-- A frame of the largest size. -/
def longFrame : List Byte :=
  encode 4 2147483647 ++ List.replicate 2147483643 0

theorem length_longFrame : longFrame.length = 2147483647 := by
  rw [longFrame, List.length_append, length_encode, List.length_replicate]

theorem isFrame_longFrame : IsFrame longFrame := by
  constructor
  · rw [length_longFrame]
    decide
  · rw [length_longFrame]
    decide
  · rw [length_longFrame, longFrame,
      List.take_left' (length_encode 4 2147483647)]
    decide

end GreenTurtle.Kv
