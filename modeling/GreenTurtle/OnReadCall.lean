import GreenTurtle.BufferedSocketRead
import Mathlib.Tactic

/-!
# Whole calls of `OnRead`

A subclass of `BufferedSocket` supplies the decoder.  Here a call of `OnRead`
runs from `readv` to `Retrieve` with a decoder that has a state of its own.  A
decoder that only consumes makes the call a run of the single steps.
-/

namespace GreenTurtle.BufferedSocket

open Execution
open Memory
open SocketConfig

/-- The virtual function `Decoding`, with what the subclass remembers. -/
abbrev Decoder (β : Type) := Buffer → β → Option (Buffer × β)

/-- What one `readv` delivers. -/
structure Delivery where
  data : List Byte
  errno : SocketOption.Errno

/-- `OnRead` up to the call of the decoder. -/
def Receiver.fill (delivery : Delivery) (receiver : Receiver) :
    Option Receiver :=
  (receiver.readvReturns delivery.data delivery.errno).bind fun filled =>
    match filled.stage with
    | .spilled _ => filled.onReadStep
    | _ => some filled

variable {β : Type}

/-- The decoder is called only when something was read. -/
def onReadCall (decoding : Decoder β) (state : Receiver × β)
    (delivery : Delivery) : Option (Receiver × β) :=
  (state.1.fill delivery).bind fun ready =>
    match ready.stage with
    | .decoding =>
        (decoding ready.rcvBuffer state.2).map fun decoded =>
          ({ ready with
              rcvBuffer := decoded.1.retrieve
              stage := .idle
              consumed :=
                ready.consumed ++
                  ready.rcvBuffer.readable.take
                    (decoded.1.read - ready.rcvBuffer.read) },
            decoded.2)
    | _ => some (ready, state.2)

/-! ## Calls are runs of single steps -/

/-- All that the decoder does to the buffer is to read a part of it. -/
def Consumes (decoding : Decoder β) : Prop :=
  ∀ buffer memory decoded, buffer.WellFormed →
    decoding buffer memory = some decoded →
      ∃ count, count ≤ buffer.readableLength ∧
        decoded.1 = buffer.hasRead count

theorem Receiver.run_of_fill
    {receiver ready : Receiver} {delivery : Delivery}
    (hfill : receiver.fill delivery = some ready) :
    ∃ labels, run Receiver.step receiver labels = some ready ∧
      ∀ label ∈ labels,
        label = .readv delivery.data delivery.errno ∨ label = .onRead := by
  obtain ⟨filled, hfilled, hready⟩ := Option.bind_eq_some_iff.mp hfill
  split at hready
  next =>
    refine ⟨[.readv delivery.data delivery.errno, .onRead], ?_, by simp⟩
    simp only [run, Receiver.step, hfilled, hready]
  next =>
    obtain rfl := Option.some.inj hready
    refine ⟨[.readv delivery.data delivery.errno], ?_, by simp⟩
    simp only [run, Receiver.step, hfilled]

/-- So everything that holds of the stream in all runs of single steps holds
after every call. -/
theorem run_of_onReadCall
    {decoding : Decoder β} (hconsumes : Consumes decoding)
    {state next : Receiver × β} {delivery : Delivery}
    (hstream : Undistorted state.1)
    (hfits : delivery.data.length < 2147483648)
    (hcall : onReadCall decoding state delivery = some next) :
    ∃ labels, run Receiver.step state.1 labels = some next.1 ∧
      ∀ label ∈ labels, ReadFits label := by
  obtain ⟨ready, hfill, hdecoded⟩ := Option.bind_eq_some_iff.mp hcall
  obtain ⟨labels, hrun, hlabels⟩ := Receiver.run_of_fill hfill
  have hallowed : ∀ label ∈ labels, ReadFits label := by
    intro label hlabel
    cases hlabels label hlabel with
    | inl hreadv => exact hreadv ▸ hfits
    | inr honRead => exact honRead ▸ trivial
  have hready := hstream.run hrun hallowed
  split at hdecoded
  next hstage =>
    obtain ⟨decoded, hdecoding, rfl⟩ := Option.map_eq_some_iff.mp hdecoded
    obtain ⟨count, hcount, hbuffer⟩ :=
      hconsumes _ _ _ hready.wellFormed hdecoding
    refine ⟨labels ++ [.decode count, .onRead], ?_, ?_⟩
    · rw [run_append _ hrun, hbuffer]
      simp [run, Receiver.step, Receiver.decode, hstage, hcount,
        Receiver.onReadStep, Buffer.hasRead]
    · intro label hlabel
      rw [List.mem_append] at hlabel
      cases hlabel with
      | inl hbefore => exact hallowed label hbefore
      | inr hafter =>
          simp only [List.mem_cons, List.not_mem_nil, or_false] at hafter
          cases hafter with
          | inl hdecode => exact hdecode ▸ trivial
          | inr honRead => exact honRead ▸ trivial
  next =>
    obtain rfl := Option.some.inj hdecoded
    exact ⟨labels, hrun, hallowed⟩

/-! ## What a call finds -/

/-- Between two calls. -/
structure AtRest (receiver : Receiver) : Prop where
  stream : Undistorted receiver
  idle : receiver.stage = .idle
  read_eq : receiver.rcvBuffer.read = 0
  size_lt : receiver.rcvBuffer.size < 2147483648

theorem AtRest.new : AtRest Receiver.new where
  stream := Undistorted.new
  idle := rfl
  read_eq := rfl
  size_lt := by decide

/-- The buffers can take so much at once. -/
def Fits (receiver : Receiver) (delivery : Delivery) : Prop :=
  delivery.data.length ≤
    receiver.rcvBuffer.writableLength + kExtraBufferSize

instance (receiver : Receiver) (delivery : Delivery) :
    Decidable (Fits receiver delivery) :=
  inferInstanceAs (Decidable (_ ≤ _))

theorem AtRest.fill_nil
    {receiver : Receiver} (hrest : AtRest receiver)
    (errno : SocketOption.Errno) :
    receiver.fill ⟨[], errno⟩ = some receiver := by
  simp [Receiver.fill, readvReturns_nil hrest.idle, hrest.idle]

theorem AtRest.length_readable
    {receiver : Receiver} (hrest : AtRest receiver) :
    receiver.rcvBuffer.readable.length = receiver.rcvBuffer.write := by
  rw [Buffer.length_readable, hrest.stream.wellFormed.readableLength,
    hrest.read_eq, Nat.sub_zero]

/-- When the decoder is called, it sees what was kept followed by what was
delivered. -/
theorem AtRest.readable_eq
    {receiver ready : Receiver} (hrest : AtRest receiver)
    {data : List Byte} (hready : Undistorted ready)
    (hstage : ready.stage = .decoding)
    (hconsumed : ready.consumed = receiver.consumed)
    (hreceived : ready.received = receiver.received ++ data) :
    ready.rcvBuffer.readable = receiver.rcvBuffer.readable ++ data := by
  have hbefore := hrest.stream.stream
  rw [hrest.idle] at hbefore
  simp only [ReadStage.spill, List.append_nil] at hbefore
  have hafter := hready.decoding hstage
  rw [hconsumed, hreceived, ← hbefore, List.append_assoc] at hafter
  exact List.append_cancel_left hafter

theorem AtRest.readvReturns
    {receiver : Receiver} (hrest : AtRest receiver) {delivery : Delivery}
    (hpos : 0 < delivery.data.length) (hfits : Fits receiver delivery)
    (hint : delivery.data.length < 2147483648) :
    ∃ filled,
      receiver.readvReturns delivery.data delivery.errno = some filled ∧
        Undistorted filled ∧
        filled.stage =
          (if delivery.data.length ≤ receiver.rcvBuffer.writableLength then
            .decoding
          else
            .spilled
              (delivery.data.drop receiver.rcvBuffer.writableLength)) ∧
        filled.consumed = receiver.consumed ∧
        filled.received = receiver.received ++ delivery.data ∧
        filled.rcvBuffer.read = 0 ∧
        filled.rcvBuffer.size = receiver.rcvBuffer.size ∧
        filled.rcvBuffer.write =
          receiver.rcvBuffer.write +
            min delivery.data.length receiver.rcvBuffer.writableLength := by
  have hreturned :=
    readvReturns_eq hrest.idle delivery.errno hpos hfits hint
  exact ⟨_, hreturned, hrest.stream.readvReturns hint hreturned, rfl, rfl,
    rfl, hrest.read_eq, rfl, rfl⟩

theorem AtRest.fill
    {receiver : Receiver} (hrest : AtRest receiver) {delivery : Delivery}
    (hpos : 0 < delivery.data.length) (hfits : Fits receiver delivery)
    (hint : delivery.data.length < 2147483648) :
    ∃ ready, receiver.fill delivery = some ready ∧
      ready.stage = .decoding ∧ Undistorted ready ∧
      ready.rcvBuffer.readable =
        receiver.rcvBuffer.readable ++ delivery.data ∧
      ready.rcvBuffer.read = 0 ∧
      (ready.rcvBuffer.size = receiver.rcvBuffer.size ∨
        ready.rcvBuffer.size =
          receiver.rcvBuffer.readable.length + delivery.data.length) := by
  have hsize := hrest.size_lt
  have hwritable := hrest.stream.wellFormed.writableLength
  have hwrite := hrest.stream.wellFormed.write_le
  obtain ⟨filled, hreturned, hfilled, hstage, hconsumed, hreceived, hread,
      hsame, hwritten⟩ :=
    hrest.readvReturns hpos hfits hint
  by_cases hroom :
      delivery.data.length ≤ receiver.rcvBuffer.writableLength
  · rw [if_pos hroom] at hstage
    refine ⟨filled, ?_, hstage, hfilled,
      hrest.readable_eq hfilled hstage hconsumed hreceived, hread,
      .inl hsame⟩
    simp [Receiver.fill, hreturned, hstage]
  · rw [if_neg hroom] at hstage
    have hspill :
        (delivery.data.drop receiver.rcvBuffer.writableLength).length =
          delivery.data.length - receiver.rcvBuffer.writableLength :=
      List.length_drop
    obtain ⟨ready, hstep, hdecoding, hkeptReceived, hkeptConsumed, -,
        hkeptRead, hgrown, -⟩ :=
      onReadStep_spilled hstage hfilled.wellFormed (by omega) (by omega)
        (by omega) (by omega)
    have hready := hfilled.onReadStep hstep
    refine ⟨ready, ?_, hdecoding, hready,
      hrest.readable_eq hready hdecoding (hkeptConsumed.trans hconsumed)
        (hkeptReceived.trans hreceived),
      hkeptRead.trans hread, .inr ?_⟩
    · simp [Receiver.fill, hreturned, hstage, hstep]
    · rw [hgrown, hrest.length_readable]
      omega

/-- A call whose decoder consumes `count` of the bytes it sees. -/
theorem AtRest.call
    {decoding : Decoder β} (hconsumes : Consumes decoding)
    {state : Receiver × β} {delivery : Delivery}
    (hrest : AtRest state.1) (hpos : 0 < delivery.data.length)
    (hfits : Fits state.1 delivery)
    (hint : delivery.data.length < 2147483648) {count : ℕ} {memory : β}
    (hcount :
      count ≤ (state.1.rcvBuffer.readable ++ delivery.data).length)
    (hdecoding :
      ∀ buffer, buffer.WellFormed →
        buffer.readable = state.1.rcvBuffer.readable ++ delivery.data →
          decoding buffer state.2 = some (buffer.hasRead count, memory)) :
    ∃ next, onReadCall decoding state delivery = some (next, memory) ∧
      next.rcvBuffer.readable =
        (state.1.rcvBuffer.readable ++ delivery.data).drop count ∧
      (state.1.rcvBuffer.readable.length + delivery.data.length <
          2147483648 →
        AtRest next) := by
  obtain ⟨ready, hfill, hstage, hready, hreadable, hread, hsize⟩ :=
    hrest.fill hpos hfits hint
  have hbound : count ≤ ready.rcvBuffer.readableLength := by
    rw [← hreadable, Buffer.length_readable] at hcount
    exact hcount
  have hformed := hready.wellFormed.hasRead hbound
  have hcall :
      ∃ next : Receiver,
        onReadCall decoding state delivery = some (next, memory) ∧
          next.rcvBuffer = (ready.rcvBuffer.hasRead count).retrieve ∧
          next.stage = .idle := by
    refine
      ⟨{ ready with
          rcvBuffer := (ready.rcvBuffer.hasRead count).retrieve
          stage := .idle
          consumed :=
            ready.consumed ++
              ready.rcvBuffer.readable.take
                ((ready.rcvBuffer.hasRead count).read -
                  ready.rcvBuffer.read) }, ?_, rfl, rfl⟩
    simp [onReadCall, hfill, hstage,
      hdecoding ready.rcvBuffer hready.wellFormed hreadable]
  obtain ⟨next, hnext, hbuffer, hidle⟩ := hcall
  refine ⟨next, hnext, ?_, ?_⟩
  · rw [hbuffer, hformed.1.retrieve.2, hformed.2, hreadable]
  · intro hsmall
    obtain ⟨labels, hrun, hlabels⟩ :=
      run_of_onReadCall hconsumes hrest.stream hint hnext
    replace hrun : run Receiver.step state.1 labels = some next := hrun
    have hlimit := hrest.size_lt
    constructor
    · exact hrest.stream.run hrun hlabels
    · exact hidle
    · rw [hbuffer]
      rfl
    · rw [hbuffer]
      simp only [Buffer.retrieve, Buffer.hasRead]
      cases hsize with
      | inl hsame => omega
      | inr hgrown => omega

end GreenTurtle.BufferedSocket
