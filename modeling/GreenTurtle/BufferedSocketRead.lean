import GreenTurtle.Buffer
import GreenTurtle.Execution
import GreenTurtle.SocketOption
import Mathlib.Tactic

/-!
# The incoming stream of a buffered socket

`BufferedSocket::OnRead`.  One `readv` fills the free space of the receive
buffer and, beyond it, an area of 64 KiB on the stack, from which the rest is
appended.  The decoder then consumes any prefix of the readable bytes, and what
remains is moved to the front.
-/

namespace GreenTurtle.BufferedSocket

open Execution
open FixedWidth
open Memory
open SocketConfig

/-- The size of the area on the stack. -/
def kExtraBufferSize : ℕ := 65536

/-- How far `OnRead` has come.  `spilled` holds the part of the stack area that
is still to be appended. -/
inductive ReadStage where
  | idle
  | spilled (rest : List Byte)
  | decoding
  | decoded
  | failed

/-- The receiving half of the socket, with all bytes that the operating system
has delivered and all bytes that the decoder has consumed. -/
structure Receiver where
  rcvBuffer : Buffer
  stage : ReadStage
  received : List Byte
  consumed : List Byte

/-- `readv` delivers data or fails, the decoder consumes a number of bytes, or
`OnRead` makes its next step. -/
inductive ReadLabel where
  | readv (data : List Byte) (errno : SocketOption.Errno)
  | readFails (errno : SocketOption.Errno)
  | decode (count : ℕ)
  | onRead

namespace Receiver

def new : Receiver where
  rcvBuffer := Buffer.new kBufferedSocketBufferSize
  stage := .idle
  received := []
  consumed := []

/-- `OnRead` from the return of `readv` to the call of `Append` or of the
decoder.  `extrabuff` is the area on the stack. -/
def afterReadv
    (nread : ℤ) (extrabuff : List Byte) (receiver : Receiver) : Receiver :=
  if nread < 0 then { receiver with stage := .failed }
  else if nread = 0 then { receiver with stage := .idle }
  else
    let writable := receiver.rcvBuffer.writableLength
    if writable ≤ toUInt64 nread then
      let left := toInt32 (toUInt64 (nread - writable))
      { receiver with
        rcvBuffer := receiver.rcvBuffer.hasWritten writable
        stage :=
          if left = 0 then .decoding
          else .spilled (extrabuff.take (toUInt64 left)) }
    else
      { receiver with
        rcvBuffer := receiver.rcvBuffer.hasWritten (toUInt64 nread)
        stage := .decoding }

/-- The operating system fills the two areas in order. -/
def readvReturns
    (data : List Byte) (errno : SocketOption.Errno) (receiver : Receiver) :
    Option Receiver :=
  match receiver.stage with
  | .idle =>
      let buffer := receiver.rcvBuffer
      let writable := buffer.writableLength
      if data.length ≤ writable + kExtraBufferSize then
        some
          (afterReadv (SocketOption.readv data.length errno)
            (data.drop writable)
            { receiver with
              rcvBuffer :=
                { buffer with
                  array :=
                    store buffer.array buffer.write (data.take writable) }
              received := receiver.received ++ data })
      else none
  | _ => none

def readvFails
    (errno : SocketOption.Errno) (receiver : Receiver) : Option Receiver :=
  match receiver.stage with
  | .idle => some (afterReadv (SocketOption.readv (-1) errno) [] receiver)
  | _ => none

/-- Whatever the decoder does, in the end it has consumed a prefix. -/
def decode (count : ℕ) (receiver : Receiver) : Option Receiver :=
  match receiver.stage with
  | .decoding =>
      if count ≤ receiver.rcvBuffer.readableLength then
        some
          { receiver with
            rcvBuffer := receiver.rcvBuffer.hasRead count
            stage := .decoded
            consumed :=
              receiver.consumed ++ receiver.rcvBuffer.readable.take count }
      else none
  | _ => none

def onReadStep (receiver : Receiver) : Option Receiver :=
  match receiver.stage with
  | .spilled rest =>
      (receiver.rcvBuffer.append rest).map fun buffer =>
        { receiver with rcvBuffer := buffer, stage := .decoding }
  | .decoded =>
      some
        { receiver with
          rcvBuffer := receiver.rcvBuffer.retrieve
          stage := .idle }
  | _ => none

def step (receiver : Receiver) : ReadLabel → Option Receiver
  | .readv data errno => receiver.readvReturns data errno
  | .readFails errno => receiver.readvFails errno
  | .decode count => receiver.decode count
  | .onRead => receiver.onReadStep

end Receiver

def ReadStage.spill : ReadStage → List Byte
  | .spilled rest => rest
  | _ => []

/-- A single `readv` delivers less than `2 ^ 31` bytes. -/
def ReadFits : ReadLabel → Prop
  | .readv data _ => data.length < 2147483648
  | _ => True

structure Undistorted (receiver : Receiver) : Prop where
  wellFormed : receiver.rcvBuffer.WellFormed
  spill_le : receiver.stage.spill.length ≤ kExtraBufferSize
  stream :
    receiver.consumed ++ receiver.rcvBuffer.readable ++
        receiver.stage.spill =
      receiver.received

theorem Undistorted.new : Undistorted Receiver.new := by
  constructor
  · exact Buffer.WellFormed.new (by decide)
  · simp [Receiver.new, ReadStage.spill]
  · rfl

/-! ## Every step keeps the stream -/

theorem readvReturns_inv
    {receiver next : Receiver} {data : List Byte}
    {errno : SocketOption.Errno}
    (hstep : receiver.readvReturns data errno = some next) :
    receiver.stage = .idle ∧
      data.length ≤
        receiver.rcvBuffer.writableLength + kExtraBufferSize := by
  unfold Receiver.readvReturns at hstep
  split at hstep
  next hstage =>
    dsimp only at hstep
    split at hstep
    next hroom => exact ⟨hstage, hroom⟩
    next => simp at hstep
  next => simp at hstep

theorem readvReturns_nil
    {receiver : Receiver} (hstage : receiver.stage = .idle)
    (errno : SocketOption.Errno) :
    receiver.readvReturns [] errno = some receiver := by
  have hcount : SocketOption.readv 0 errno = 0 :=
    SocketOption.transferred_of_bounds errno le_rfl (by omega)
  cases receiver with
  | mk buffer stage received consumed =>
      cases hstage
      simp [Receiver.readvReturns, Receiver.afterReadv, hcount]

/-- A read whose count fits an `int`: the free space is filled first, and what
is left waits on the stack. -/
theorem readvReturns_eq
    {receiver : Receiver} (hstage : receiver.stage = .idle)
    {data : List Byte} (errno : SocketOption.Errno)
    (hpos : 0 < data.length)
    (hroom :
      data.length ≤
        receiver.rcvBuffer.writableLength + kExtraBufferSize)
    (hfits : data.length < 2147483648) :
    receiver.readvReturns data errno =
      some
        { receiver with
          rcvBuffer :=
            Buffer.hasWritten
              (min data.length receiver.rcvBuffer.writableLength)
              { receiver.rcvBuffer with
                array :=
                  store receiver.rcvBuffer.array receiver.rcvBuffer.write
                    (data.take receiver.rcvBuffer.writableLength) }
          stage :=
            if data.length ≤ receiver.rcvBuffer.writableLength then
              .decoding
            else .spilled (data.drop receiver.rcvBuffer.writableLength)
          received := receiver.received ++ data } := by
  have hcount : SocketOption.readv data.length errno = data.length :=
    SocketOption.transferred_of_bounds errno (by omega) (by omega)
  have hwritable :
      ∀ array : ℤ → Byte,
        ({ receiver.rcvBuffer with array := array } :
            Buffer).writableLength =
          receiver.rcvBuffer.writableLength := fun _ => rfl
  have hall : toUInt64 data.length = data.length := by
    rw [toUInt64_of_bounds (by omega) (by omega)]
    omega
  simp only [Receiver.readvReturns, hstage, hroom, if_true, hcount,
    Receiver.afterReadv, hwritable, hall]
  generalize receiver.rcvBuffer.writableLength = writable at *
  rw [if_neg (by omega), if_neg (by omega)]
  by_cases hle : writable ≤ data.length
  · have hleft :
        toInt32 (toUInt64 ((data.length : ℤ) - writable)) =
          (data.length - writable : ℕ) := by
      rw [toUInt64_of_bounds (by omega) (by omega),
        toInt32_of_bounds (by omega) (by omega)]
      omega
    have hrest :
        (data.drop writable).take
            (toUInt64 (data.length - writable : ℕ)) =
          data.drop writable := by
      rw [toUInt64_of_bounds (by omega) (by omega)]
      exact List.take_of_length_le (by simp)
    rw [if_pos hle, hleft, hrest, Nat.min_eq_right hle]
    by_cases hexact : data.length ≤ writable
    · rw [if_pos hexact, if_pos (by omega)]
    · rw [if_neg hexact, if_neg (by omega)]
  · rw [if_neg hle, Nat.min_eq_left (by omega), if_pos (by omega)]

/-- The data are divided between the buffer and the stack without loss. -/
theorem Undistorted.readvReturns
    {receiver next : Receiver} {data : List Byte}
    {errno : SocketOption.Errno} (hstream : Undistorted receiver)
    (hfits : data.length < 2147483648)
    (hstep : receiver.readvReturns data errno = some next) :
    Undistorted next := by
  obtain ⟨hstage, hroom⟩ := readvReturns_inv hstep
  cases data with
  | nil =>
      rw [readvReturns_nil hstage, Option.some.injEq] at hstep
      exact hstep ▸ hstream
  | cons byte bytes =>
      generalize hdata : byte :: bytes = data at *
      have hpos : 0 < data.length := by simp [← hdata]
      have hbytes := hstream.stream
      rw [hstage] at hbytes
      simp only [ReadStage.spill, List.append_nil] at hbytes
      rw [readvReturns_eq hstage errno hpos hroom hfits,
        Option.some.injEq] at hstep
      subst next
      by_cases hle : data.length ≤ receiver.rcvBuffer.writableLength
      · have hwritten := hstream.wellFormed.hasWritten hle
        rw [Nat.min_eq_left hle, List.take_of_length_le hle, if_pos hle]
        constructor
        · exact hwritten.1
        · simp [ReadStage.spill]
        · dsimp only
          rw [hwritten.2, ← List.append_assoc, hbytes]
          simp [ReadStage.spill]
      · have htake :
            (data.take receiver.rcvBuffer.writableLength).length =
              receiver.rcvBuffer.writableLength :=
          List.length_take_of_le (by omega)
        have hwritten := hstream.wellFormed.hasWritten htake.le
        rw [htake] at hwritten
        rw [Nat.min_eq_right (by omega), if_neg hle]
        constructor
        · exact hwritten.1
        · simp only [ReadStage.spill, List.length_drop]
          omega
        · simp only [ReadStage.spill]
          rw [hwritten.2, List.append_assoc,
            List.append_assoc (Buffer.readable _), List.take_append_drop,
            ← List.append_assoc, hbytes]

theorem Undistorted.readvFails
    {receiver next : Receiver} {errno : SocketOption.Errno}
    (hstream : Undistorted receiver)
    (hstep : receiver.readvFails errno = some next) :
    Undistorted next := by
  unfold Receiver.readvFails at hstep
  split at hstep
  next hstage =>
    simp only [Option.some.injEq] at hstep
    subst next
    have hnone := SocketOption.transferred_neg_one errno
    have hbytes := hstream.stream
    rw [hstage] at hbytes
    unfold Receiver.afterReadv SocketOption.readv
    split
    next =>
      exact ⟨hstream.wellFormed, by simp [ReadStage.spill], hbytes⟩
    next =>
      rw [if_pos (by omega)]
      exact ⟨hstream.wellFormed, by simp [ReadStage.spill], hbytes⟩
  next => simp at hstep

theorem Undistorted.decode
    {receiver next : Receiver} {count : ℕ}
    (hstream : Undistorted receiver)
    (hstep : receiver.decode count = some next) :
    Undistorted next := by
  unfold Receiver.decode at hstep
  split at hstep
  next hstage =>
    split at hstep
    next hcount =>
      simp only [Option.some.injEq] at hstep
      subst next
      have hread := hstream.wellFormed.hasRead hcount
      have hbytes := hstream.stream
      rw [hstage] at hbytes
      constructor
      · exact hread.1
      · simp [ReadStage.spill]
      · dsimp only
        rw [hread.2, List.append_assoc receiver.consumed,
          List.take_append_drop]
        exact hbytes
    next => simp at hstep
  next => simp at hstep

theorem Undistorted.onReadStep
    {receiver next : Receiver} (hstream : Undistorted receiver)
    (hstep : receiver.onReadStep = some next) :
    Undistorted next := by
  have hspill := hstream.spill_le
  have hbytes := hstream.stream
  unfold Receiver.onReadStep at hstep
  split at hstep
  next rest hstage =>
    rw [hstage] at hspill hbytes
    simp only [ReadStage.spill, kExtraBufferSize] at hspill hbytes
    rw [Option.map_eq_some_iff] at hstep
    rcases hstep with ⟨buffer, hbuffer, heq⟩
    subst next
    have happended := hstream.wellFormed.append (by omega) hbuffer
    constructor
    · exact happended.1
    · simp [ReadStage.spill]
    · simpa [ReadStage.spill, happended.2] using hbytes
  next hstage =>
    rw [hstage] at hbytes
    simp only [Option.some.injEq] at hstep
    subst next
    have hretrieved := hstream.wellFormed.retrieve
    constructor
    · exact hretrieved.1
    · simp [ReadStage.spill]
    · dsimp only
      rw [hretrieved.2]
      exact hbytes
  next => simp at hstep

theorem Undistorted.step
    {receiver next : Receiver} {label : ReadLabel}
    (hstream : Undistorted receiver) (hfits : ReadFits label)
    (hstep : receiver.step label = some next) :
    Undistorted next := by
  cases label with
  | readv data errno => exact hstream.readvReturns hfits hstep
  | readFails errno => exact hstream.readvFails hstep
  | decode count => exact hstream.decode hstep
  | onRead => exact hstream.onReadStep hstep

theorem Undistorted.run
    {receiver final : Receiver} {labels : List ReadLabel}
    (hstream : Undistorted receiver)
    (hrun : Execution.run Receiver.step receiver labels = some final)
    (hfits : ∀ label ∈ labels, ReadFits label) :
    Undistorted final := by
  apply run_preserves Receiver.step Undistorted (fun _ => ReadFits)
  · intro receiver label next hnow hlabel hstep
    exact hnow.step hlabel hstep
  · exact hstream
  · exact hrun
  · apply EachStep.of_forall
    intro label hmem _
    exact hfits label hmem

theorem Undistorted.decoding
    {receiver : Receiver} (hstream : Undistorted receiver)
    (hstage : receiver.stage = .decoding) :
    receiver.consumed ++ receiver.rcvBuffer.readable =
      receiver.received := by
  have hbytes := hstream.stream
  rw [hstage] at hbytes
  simpa [ReadStage.spill] using hbytes

/-- However the stream is split, as long as no single `readv` delivers
`2 ^ 31` bytes or more, the positions stay in order, the decoder always sees
what was received and not yet consumed, and what decoders consume from two
differently split deliveries of one stream never differs. -/
theorem incoming_stream_undistorted
    {labels : List ReadLabel} {receiver : Receiver}
    (hrun :
      Execution.run Receiver.step Receiver.new labels = some receiver)
    (hcounts : ∀ label ∈ labels, ReadFits label) :
    receiver.rcvBuffer.read ≤ receiver.rcvBuffer.write ∧
      receiver.rcvBuffer.write ≤ receiver.rcvBuffer.size ∧
      (receiver.stage = .decoding →
        receiver.rcvBuffer.readable =
          receiver.received.drop receiver.consumed.length) ∧
      (receiver.stage = .decoding →
        ∀ (otherLabels : List ReadLabel) (other : Receiver),
          Execution.run Receiver.step Receiver.new otherLabels =
              some other →
            (∀ label ∈ otherLabels, ReadFits label) →
              other.stage = .decoding →
                ∀ stream, receiver.received <+: stream →
                  other.received <+: stream →
                    receiver.consumed <+: other.consumed ∨
                      other.consumed <+: receiver.consumed) := by
  have hstream := Undistorted.new.run hrun hcounts
  refine ⟨hstream.wellFormed.read_le, hstream.wellFormed.write_le, ?_, ?_⟩
  · intro hstage
    rw [← hstream.decoding hstage, List.drop_left]
  · intro hstage otherLabels other hotherRun hotherCounts hotherStage stream
      hpart hotherPart
    have hother := Undistorted.new.run hotherRun hotherCounts
    rw [← hstream.decoding hstage] at hpart
    rw [← hother.decoding hotherStage] at hotherPart
    exact List.prefix_or_prefix_of_prefix
      ((List.prefix_append _ _).trans hpart)
      ((List.prefix_append _ _).trans hotherPart)

/-- One byte is left over and then found in front of the next ones. -/
theorem incoming_stream_undistorted_leftover :
    ∃ receiver,
      Execution.run Receiver.step Receiver.new
          [.readv [1, 2, 3] .other, .decode 2, .onRead,
            .readFails .eagain, .readv [4] .other] =
        some receiver ∧
      receiver.stage = .decoding ∧ receiver.consumed = [1, 2] ∧
      receiver.rcvBuffer.readable = [3, 4] := by
  have hrun :
      ∃ receiver,
        Execution.run Receiver.step Receiver.new
            [.readv [1, 2, 3] .other, .decode 2, .onRead,
              .readFails .eagain, .readv [4] .other] =
          some receiver ∧
        receiver.stage = .decoding ∧ receiver.consumed = [1, 2] ∧
        receiver.received = [1, 2, 3, 4] :=
    ⟨_, rfl, rfl, rfl, rfl⟩
  rcases hrun with ⟨receiver, hrun, hstage, hconsumed, hreceived⟩
  have hstream := incoming_stream_undistorted hrun (by simp [ReadFits])
  have hreadable := hstream.2.2.1 hstage
  rw [hreceived, hconsumed] at hreadable
  exact ⟨receiver, hrun, hstage, hconsumed, hreadable⟩

/-! ## A count that does not fit an `int` -/

/-- A full buffer grows by what waits on the stack. -/
theorem onReadStep_spilled
    {receiver : Receiver} {rest : List Byte}
    (hstage : receiver.stage = .spilled rest)
    (hformed : receiver.rcvBuffer.WellFormed)
    (hfull : receiver.rcvBuffer.write = receiver.rcvBuffer.size)
    (hpos : 0 < rest.length) (hrest : rest.length < 2147483648)
    (hsize : receiver.rcvBuffer.size < 4294967296) :
    ∃ next, receiver.onReadStep = some next ∧ next.stage = .decoding ∧
      next.received = receiver.received ∧
      next.consumed = receiver.consumed ∧
      next.rcvBuffer.WellFormed ∧
      next.rcvBuffer.read = receiver.rcvBuffer.read ∧
      next.rcvBuffer.size = receiver.rcvBuffer.size + rest.length ∧
      next.rcvBuffer.write = next.rcvBuffer.size := by
  have hgrown :
      receiver.rcvBuffer.grownSize rest.length =
        receiver.rcvBuffer.size + rest.length := by
    rw [hformed.grownSize_of_lt (by omega) (by omega), hfull]
  have happend :
      receiver.rcvBuffer.append rest =
        some
          { array :=
              store receiver.rcvBuffer.array receiver.rcvBuffer.write rest
            write := receiver.rcvBuffer.write + rest.length
            read := receiver.rcvBuffer.read
            size := receiver.rcvBuffer.size + rest.length } := by
    unfold Buffer.append
    rw [hgrown, if_pos (by omega)]
  have hnext := hformed.append hrest happend
  refine
    ⟨{ receiver with
        rcvBuffer :=
          { array :=
              store receiver.rcvBuffer.array receiver.rcvBuffer.write rest
            write := receiver.rcvBuffer.write + rest.length
            read := receiver.rcvBuffer.read
            size := receiver.rcvBuffer.size + rest.length }
        stage := .decoding }, ?_, rfl, rfl, rfl, hnext.1, rfl, rfl, ?_⟩
  · simp [Receiver.onReadStep, hstage, happend]
  · dsimp only
    rw [hfull]

/-- A read can fill the free part of the buffer and the whole of that area. -/
theorem exists_full_readv
    {receiver : Receiver} (hformed : receiver.rcvBuffer.WellFormed)
    (hstage : receiver.stage = .idle)
    (hfree : receiver.rcvBuffer.size ≤ receiver.rcvBuffer.write + 1024) :
    ∃ (data rest : List Byte) (filled : Receiver),
      data.length < 2147483648 ∧
        receiver.readvReturns data .other = some filled ∧
        filled.stage = .spilled rest ∧ rest.length = kExtraBufferSize ∧
        filled.rcvBuffer.WellFormed ∧
        filled.rcvBuffer.read = receiver.rcvBuffer.read ∧
        filled.rcvBuffer.size = receiver.rcvBuffer.size ∧
        filled.rcvBuffer.write = filled.rcvBuffer.size := by
  have hwrite := hformed.write_le
  have hwritable := hformed.writableLength
  have hdata :
      ∃ data : List Byte,
        data.length =
          receiver.rcvBuffer.writableLength + kExtraBufferSize :=
    ⟨List.replicate _ 0, List.length_replicate⟩
  rcases hdata with ⟨data, hlength⟩
  have hfits : data.length < 2147483648 := by
    rw [hlength, kExtraBufferSize]
    omega
  have htaken :
      (data.take receiver.rcvBuffer.writableLength).length =
        receiver.rcvBuffer.writableLength :=
    List.length_take_of_le (by omega)
  have hfilledFormed := (hformed.hasWritten htaken.le).1
  rw [htaken] at hfilledFormed
  have hwhole := readvReturns_eq hstage .other
    (by rw [hlength, kExtraBufferSize]; omega) hlength.le hfits
  rw [Nat.min_eq_right (by omega),
    if_neg (by rw [hlength, kExtraBufferSize]; omega)] at hwhole
  refine ⟨data, data.drop receiver.rcvBuffer.writableLength, _, hfits,
    hwhole, rfl, ?_, hfilledFormed, rfl, rfl, ?_⟩
  · rw [List.length_drop]
    omega
  · simp only [Buffer.hasWritten]
    omega

/-- The decoder may keep any number of the bytes of the buffer. -/
theorem run_decode_keeping
    {receiver : Receiver} (hformed : receiver.rcvBuffer.WellFormed)
    (hstage : receiver.stage = .decoding)
    (hread : receiver.rcvBuffer.read = 0)
    {keep : ℕ} (hkeep : keep ≤ receiver.rcvBuffer.write) :
    ∃ (count : ℕ) (next : Receiver),
      Execution.run Receiver.step receiver [.decode count, .onRead] =
          some next ∧
        next.stage = .idle ∧ next.rcvBuffer.read = 0 ∧
        next.rcvBuffer.size = receiver.rcvBuffer.size ∧
        next.rcvBuffer.write = keep := by
  let count := receiver.rcvBuffer.write - keep
  have hcount : count ≤ receiver.rcvBuffer.readableLength := by
    rw [hformed.readableLength, hread]
    omega
  have hdecoded :
      receiver.decode count =
        some
          { receiver with
            rcvBuffer := receiver.rcvBuffer.hasRead count
            stage := .decoded
            consumed :=
              receiver.consumed ++
                receiver.rcvBuffer.readable.take count } := by
    simp [Receiver.decode, hstage, hcount]
  have hleft := (hformed.hasRead hcount).1.readableLength
  refine ⟨count,
    { receiver with
      rcvBuffer := (receiver.rcvBuffer.hasRead count).retrieve
      stage := .idle
      consumed :=
        receiver.consumed ++ receiver.rcvBuffer.readable.take count },
    ?_, rfl, rfl, rfl, ?_⟩
  · simp only [Execution.run, Receiver.step, hdecoded]
    rfl
  · change (receiver.rcvBuffer.hasRead count).readableLength = keep
    rw [hleft]
    simp only [Buffer.hasRead, hread, count]
    omega

/-- Such a read makes the buffer grow by the size of that area, and the decoder
may keep any number of bytes in it. -/
theorem run_full_read
    {receiver : Receiver} (hformed : receiver.rcvBuffer.WellFormed)
    (hstage : receiver.stage = .idle)
    (hread : receiver.rcvBuffer.read = 0)
    (hfree : receiver.rcvBuffer.size ≤ receiver.rcvBuffer.write + 1024)
    (hsize : receiver.rcvBuffer.size < 4294967296)
    {keep : ℕ}
    (hkeep : keep ≤ receiver.rcvBuffer.size + kExtraBufferSize) :
    ∃ (labels : List ReadLabel) (next : Receiver),
      Execution.run Receiver.step receiver labels = some next ∧
        (∀ label ∈ labels, ReadFits label) ∧ next.stage = .idle ∧
        next.rcvBuffer.read = 0 ∧
        next.rcvBuffer.size =
          receiver.rcvBuffer.size + kExtraBufferSize ∧
        next.rcvBuffer.write = keep := by
  rcases exists_full_readv hformed hstage hfree with
    ⟨data, rest, filled, hfits, hfilled, hspilled, hrest, hfilledFormed,
      hfilledRead, hfilledSize, hfilledWrite⟩
  rcases onReadStep_spilled hspilled hfilledFormed hfilledWrite
      (by rw [hrest]; decide) (by rw [hrest]; decide) (by omega) with
    ⟨grown, hgrown, hdecoding, -, -, hgrownFormed, hgrownRead, hgrownSize,
      hgrownWrite⟩
  rw [hfilledSize, hrest] at hgrownSize
  rcases run_decode_keeping hgrownFormed hdecoding
      (hgrownRead.trans (hfilledRead.trans hread))
      (by omega : keep ≤ grown.rcvBuffer.write) with
    ⟨count, next, hdecoded, hidle, hnextRead, hnextSize, hnextWrite⟩
  have hfull :
      Execution.run Receiver.step receiver [.readv data .other, .onRead] =
        some grown := by
    simp only [Execution.run, Receiver.step, hfilled, hgrown]
  have hrun :
      Execution.run Receiver.step receiver
          [.readv data .other, .onRead, .decode count, .onRead] =
        some next :=
    (run_append _ hfull).trans hdecoded
  refine ⟨_, next, hrun, ?_, hidle, hnextRead, hnextSize.trans hgrownSize,
    hnextWrite⟩
  simp [ReadFits, hfits]

/-- Reads that are never decoded let the buffer grow without bound. -/
theorem run_full_reads (count : ℕ) (hcount : count ≤ 65535) :
    ∃ (labels : List ReadLabel) (receiver : Receiver),
      Execution.run Receiver.step Receiver.new labels = some receiver ∧
        Undistorted receiver ∧ receiver.stage = .idle ∧
        receiver.rcvBuffer.read = 0 ∧
        receiver.rcvBuffer.size =
          kBufferedSocketBufferSize + count * kExtraBufferSize ∧
        receiver.rcvBuffer.size ≤ receiver.rcvBuffer.write + 1024 := by
  induction count with
  | zero =>
      exact ⟨[], Receiver.new, rfl, Undistorted.new, rfl, rfl, rfl, le_rfl⟩
  | succ count ih =>
      rcases ih (by omega) with
        ⟨labels, receiver, hrun, hstream, hstage, hread, hsize, hfree⟩
      rw [kBufferedSocketBufferSize, kExtraBufferSize] at hsize
      rcases run_full_read hstream.wellFormed hstage hread hfree (by omega)
          le_rfl with
        ⟨more, next, hmore, hfits, hidle, hnextRead, hnextSize,
          hnextWrite⟩
      refine ⟨labels ++ more, next, ?_, hstream.run hmore hfits, hidle,
        hnextRead, ?_, ?_⟩
      · rw [run_append _ hrun]
        exact hmore
      · rw [hnextSize, hsize, kBufferedSocketBufferSize, kExtraBufferSize]
        omega
      · omega

/-- The decoder lets the buffer grow to almost `2 ^ 32` bytes and then empties
it.  A `readv` that delivers `2 ^ 32` bytes is now reported as zero; the next
one overwrites what it delivered. -/
theorem incoming_stream_distorted :
    ¬ ∀ (labels : List ReadLabel) (receiver : Receiver),
      Execution.run Receiver.step Receiver.new labels = some receiver →
        receiver.stage = .decoding →
          receiver.rcvBuffer.readable =
            receiver.received.drop receiver.consumed.length := by
  intro hclaim
  rcases run_full_reads 65534 (by omega) with
    ⟨labels, receiver, hrun, hstream, hstage, hread, hsize, hfree⟩
  rw [kBufferedSocketBufferSize, kExtraBufferSize] at hsize
  rcases run_full_read hstream.wellFormed hstage hread hfree (by omega)
      (Nat.zero_le _) with
    ⟨more, emptied, hmore, hfits, hidle, hemptyRead, hemptySize,
      hemptyWrite⟩
  have hemptied := hstream.run hmore hfits
  have hformed := hemptied.wellFormed
  rw [hsize, kExtraBufferSize] at hemptySize
  have hwritable : emptied.rcvBuffer.writableLength = 4294902784 := by
    rw [hformed.writableLength, hemptySize, hemptyWrite]
  have hconsumed : emptied.consumed = emptied.received := by
    have hbytes := hemptied.stream
    have hnothing : emptied.rcvBuffer.readable = [] := by
      unfold Buffer.readable
      rw [hformed.readableLength, hemptyWrite, hemptyRead]
      rfl
    simpa [hidle, ReadStage.spill, hnothing] using hbytes
  have hdata : ∃ data : List Byte, data.length = 4294967296 :=
    ⟨List.replicate 4294967296 0, List.length_replicate⟩
  rcases hdata with ⟨data, hlength⟩
  have hlost :
      ∃ lost, emptied.step (.readv data .other) = some lost ∧
        lost.stage = .idle ∧ lost.consumed = emptied.received ∧
        lost.received = emptied.received ++ data ∧
        lost.rcvBuffer.writableLength = 4294902784 ∧
        lost.rcvBuffer.read = 0 ∧ lost.rcvBuffer.write = 0 := by
    have hreported : SocketOption.readv 4294967296 .other = 0 := by
      decide
    have hroom :
        data.length ≤
          emptied.rcvBuffer.writableLength + kExtraBufferSize := by
      rw [hwritable, hlength, kExtraBufferSize]
      omega
    simp only [Receiver.step, Receiver.readvReturns, hidle, hroom, if_true]
    rw [hlength]
    simp only [Nat.cast_ofNat, hreported, Receiver.afterReadv]
    exact ⟨_, rfl, rfl, hconsumed, rfl, hwritable, hemptyRead, hemptyWrite⟩
  rcases hlost with
    ⟨lost, hlostStep, hlostStage, hlostConsumed, hlostReceived,
      hlostWritable, hlostRead, hlostWrite⟩
  have hseen :
      ∃ seen, lost.step (.readv [7] .other) = some seen ∧
        seen.stage = .decoding ∧ seen.consumed = emptied.received ∧
        seen.received = emptied.received ++ data ++ [7] ∧
        seen.rcvBuffer.read = 0 ∧ seen.rcvBuffer.write = 1 := by
    have hsmall := readvReturns_eq hlostStage .other
      (show 0 < [(7 : Byte)].length by simp)
      (by rw [hlostWritable, kExtraBufferSize]; simp) (by simp)
    rw [hlostWritable, if_pos (by simp)] at hsmall
    refine ⟨_, hsmall, rfl, hlostConsumed, ?_, hlostRead, ?_⟩
    · dsimp only
      rw [hlostReceived]
    · simp only [Buffer.hasWritten, hlostWrite]
      rfl
  rcases hseen with
    ⟨seen, hseenStep, hdecoding, hseenConsumed, hseenReceived, hseenRead,
      hseenWrite⟩
  have hwhole :
      Execution.run Receiver.step Receiver.new
          (labels ++ more ++
            [.readv data .other, .readv [7] .other]) =
        some seen := by
    have hfirst :
        Execution.run Receiver.step Receiver.new (labels ++ more) =
          some emptied := by
      rw [run_append _ hrun]
      exact hmore
    rw [run_append _ hfirst]
    simp only [Execution.run, hlostStep, hseenStep]
  have hbytes :=
    congrArg List.length (hclaim _ seen hwhole hdecoding)
  have hone : seen.rcvBuffer.readableLength = 1 := by
    unfold Buffer.readableLength
    rw [hseenRead, hseenWrite]
    rfl
  rw [Buffer.readable, length_slice, hone, hseenReceived, hseenConsumed,
    List.append_assoc, List.drop_left] at hbytes
  simp only [List.length_append, hlength, List.length_singleton] at hbytes
  omega

end GreenTurtle.BufferedSocket
