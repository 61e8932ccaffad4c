import GreenTurtle.SocketLink
import Mathlib.Tactic

/-!
# The echo server

`EchoTask::Decoding` of `test/net/echo_server.cc` on one end of a connection.
The decoder takes everything that is readable and sends it back as one message.
The other end is any client.
-/

namespace GreenTurtle.Echo

open BufferedSocket
open Execution
open FixedWidth

/-- The global counters `message_count` and `message_size`. -/
structure Counters where
  messageCount : ℕ
  messageSize : ℕ

def Counters.new : Counters where
  messageCount := 0
  messageSize := 0

def Counters.add (size : ℕ) (counters : Counters) : Counters where
  messageCount := (counters.messageCount + 1) % 18446744073709551616
  messageSize := (counters.messageSize + size) % 18446744073709551616

/-- `EchoTask::Decoding`.  The length of the message goes through an `int`, and
there is no result when a negative one makes `append` throw. -/
def decoding : Application Counters := fun data state =>
  let size := data.readableLength
  if size = 0 then some (data, state)
  else if toInt32 size < 0 then none
  else
    some
      (data.hasRead size,
        (state.1.add size,
          state.2 ++ [data.readable.take (toInt32 size).toNat]))

theorem toInt32_lt (size : ℕ) : (toInt32 size).toNat < 2147483648 := by
  unfold toInt32
  rw [Int.bmod_def]
  split <;> omega

theorem decoding_cases
    {data : Buffer} {state : Counters × List Message}
    {decoded : Buffer × (Counters × List Message)}
    (hdecoded : decoding data state = some decoded) :
    decoded = (data, state) ∨
      decoded =
        (data.hasRead data.readableLength,
          (state.1.add data.readableLength,
            state.2 ++
              [data.readable.take (toInt32 data.readableLength).toNat])) := by
  unfold decoding at hdecoded
  dsimp only at hdecoded
  split at hdecoded
  next => exact .inl (Option.some.inj hdecoded).symm
  next =>
    split at hdecoded
    next => cases hdecoded
    next => exact .inr (Option.some.inj hdecoded).symm

theorem orderly : Orderly decoding := by
  constructor
  · intro buffer state decoded _ hdecoded
    rcases decoding_cases hdecoded with rfl | rfl
    · exact ⟨0, Nat.zero_le _, rfl⟩
    · exact ⟨buffer.readableLength, le_rfl, rfl⟩
  · intro buffer memory decoded hdecoded message hmessage
    rcases decoding_cases hdecoded with rfl | rfl
    · simp at hmessage
    · rw [List.nil_append, List.mem_singleton] at hmessage
      have hbound := toInt32_lt buffer.readableLength
      rw [hmessage, List.length_take]
      omega

/-- A buffer whose length fits an `int` comes back as a whole. -/
theorem decoding_eq
    {data : Buffer} (counters : Counters) (hpos : 0 < data.readableLength)
    (hlt : data.readableLength < 2147483648) :
    decoding data (counters, []) =
      some
        (data.hasRead data.readableLength,
          (counters.add data.readableLength, [data.readable])) := by
  have hint : toInt32 data.readableLength = data.readableLength :=
    toInt32_of_bounds (by omega) (by omega)
  have hwhole : data.readable.take data.readableLength = data.readable :=
    List.take_of_length_le (by simp)
  simp only [decoding, hint]
  rw [if_neg (by omega), if_neg (by omega), List.nil_append,
    Int.toNat_natCast, hwhole]

/-! ## The server's end -/

/-- What was consumed has been sent back or is about to be, and between two
calls of `OnRead` nothing is left in the buffer. -/
structure Echoing (peer : Peer Counters) : Prop where
  undistorted : Undistorted peer.receiver
  returned :
    peer.sent.flatten ++ peer.replies.flatten = peer.receiver.consumed
  small : peer.incoming.length < 2147483648
  replies_nil : peer.receiver.stage ≠ .decoded → peer.replies = []
  readable_nil :
    (∀ rest, peer.receiver.stage ≠ .spilled rest) →
      peer.receiver.stage ≠ .decoding →
        peer.receiver.rcvBuffer.readable = []

namespace Echoing

variable {peer next : Peer Counters}

theorem new : Echoing (Peer.new Counters.new) where
  undistorted := Undistorted.new
  returned := rfl
  small := by decide
  replies_nil := fun _ => rfl
  readable_nil := fun _ _ => rfl

/-- Steps of the sending half. -/
theorem withSender (hecho : Echoing peer) (sender : Sender) :
    Echoing (peer.withSender sender) :=
  ⟨hecho.undistorted, hecho.returned, hecho.small, hecho.replies_nil,
    hecho.readable_nil⟩

/-- What `readv` delivers is all that the decoder will see. -/
theorem readv
    (hecho : Echoing peer) {data : List Byte}
    {errno : SocketOption.Errno} (hfits : data.length < 2147483648)
    {receiver : Receiver}
    (hstep : peer.receiver.readvReturns data errno = some receiver) :
    Echoing (peer.withReceiver receiver) := by
  have hafter := hecho.undistorted.readvReturns hfits hstep
  have hreceived := Peer.received_readv hstep
  obtain ⟨hidle, hcases⟩ := Peer.readvReturns_cases hfits hstep
  rcases hcases with rfl | ⟨hconsumed, hstage⟩
  · exact hecho
  · have hempty := hecho.readable_nil (by simp [hidle]) (by simp [hidle])
    have hbytes :
        receiver.rcvBuffer.readable ++ receiver.stage.spill = data := by
      have hbefore := hecho.undistorted.stream
      have hnow := hafter.stream
      rw [hidle, hempty] at hbefore
      rw [hconsumed, hreceived, ← hbefore] at hnow
      simpa [ReadStage.spill] using hnow
    constructor
    · exact hafter
    · exact hecho.returned.trans hconsumed.symm
    · simp only [Peer.incoming, Peer.withReceiver, hbytes]
      exact hfits
    · intro _
      exact hecho.replies_nil (by simp [hidle])
    · intro hspilled hdecoding
      rcases hstage with hstage | ⟨rest, hstage⟩
      · exact (hdecoding hstage).elim
      · exact (hspilled rest hstage).elim

theorem readFails
    (hecho : Echoing peer) {errno : SocketOption.Errno}
    {receiver : Receiver}
    (hstep : peer.receiver.readvFails errno = some receiver) :
    Echoing (peer.withReceiver receiver) := by
  have hafter := hecho.undistorted.readvFails hstep
  obtain ⟨hidle, stage, hstage, rfl⟩ := Peer.readvFails_cases hstep
  have hempty := hecho.readable_nil (by simp [hidle]) (by simp [hidle])
  have hspill : stage.spill = [] := by
    rcases hstage with rfl | rfl <;> rfl
  refine ⟨hafter, hecho.returned, ?_,
    fun _ => hecho.replies_nil (by simp [hidle]), fun _ _ => hempty⟩
  simp [Peer.incoming, Peer.withReceiver, hempty, hspill]

/-- Everything that is readable becomes one reply. -/
theorem decode
    (hecho : Echoing peer) (hstep : peer.decode decoding = some next) :
    Echoing next := by
  obtain ⟨count, hcount⟩ :=
    Peer.decode_receiver orderly hecho.undistorted.wellFormed hstep
  have hafter := hecho.undistorted.decode hcount
  obtain ⟨hstage, decoded, hdecoded, rfl⟩ := Peer.decode_eq_some hstep
  have hreplies := hecho.replies_nil (by simp [hstage])
  have hsmall := hecho.small
  have hreturned := hecho.returned
  simp only [Peer.incoming, hstage, ReadStage.spill, List.append_nil,
    Buffer.length_readable] at hsmall
  rw [hreplies, List.flatten_nil, List.append_nil] at hreturned
  by_cases hpos : 0 < peer.receiver.rcvBuffer.readableLength
  · rw [decoding_eq peer.memory hpos hsmall] at hdecoded
    obtain rfl := Option.some.inj hdecoded
    have hnothing :
        (peer.receiver.rcvBuffer.hasRead
          peer.receiver.rcvBuffer.readableLength).readable = [] := by
      rw [(hecho.undistorted.wellFormed.hasRead le_rfl).2]
      exact List.drop_of_length_le (by simp)
    constructor
    · exact hafter
    · have hall :
          peer.receiver.rcvBuffer.readable.take
              (peer.receiver.rcvBuffer.readableLength) =
            peer.receiver.rcvBuffer.readable :=
        List.take_of_length_le (by simp)
      simp [hreturned, Buffer.hasRead, hall]
    · simp [Peer.incoming, hnothing, ReadStage.spill]
    · intro hne
      exact (hne rfl).elim
    · intro _ _
      exact hnothing
  · have hzero : peer.receiver.rcvBuffer.readableLength = 0 := by omega
    have hnothing : peer.receiver.rcvBuffer.readable = [] := by
      apply List.eq_nil_of_length_eq_zero
      rw [Buffer.length_readable, hzero]
    have hsame :
        decoded = (peer.receiver.rcvBuffer, (peer.memory, [])) := by
      simp only [decoding, hzero, if_true, Option.some.injEq] at hdecoded
      exact hdecoded.symm
    subst decoded
    constructor
    · exact hafter
    · simp [hreturned]
    · simp [Peer.incoming, hnothing, ReadStage.spill]
    · intro hne
      exact (hne rfl).elim
    · intro _ _
      exact hnothing

theorem onRead
    (hecho : Echoing peer) (hstep : peer.step decoding .onRead = some next) :
    Echoing next := by
  rcases Peer.onRead_cases hstep with
    ⟨message, rest, hstage, hreplies, rfl⟩ |
      ⟨receiver, hreceiver, rfl, hdone⟩
  · have hreturned := hecho.returned
    rw [hreplies, List.flatten_cons] at hreturned
    refine ⟨hecho.undistorted, ?_, hecho.small, ?_, hecho.readable_nil⟩
    · simp [Peer.send, ← hreturned]
    · intro hne
      exact (hne hstage).elim
  · have hafter := hecho.undistorted.onReadStep hreceiver
    obtain ⟨hreceived, hconsumed, hstages⟩ :=
      Peer.onReadStep_cases hreceiver
    have hincoming : (peer.withReceiver receiver).incoming = peer.incoming := by
      have hbefore := hecho.undistorted.stream
      have hbytes := hafter.stream
      rw [hconsumed, hreceived, ← hbefore, List.append_assoc,
        List.append_assoc] at hbytes
      exact List.append_cancel_left hbytes
    have hreplies : peer.replies = [] := by
      rcases hstages with ⟨rest, hstage, -⟩ | ⟨hstage, -⟩
      · exact hecho.replies_nil (by simp [hstage])
      · exact hdone hstage
    refine ⟨hafter, hecho.returned.trans hconsumed.symm, ?_,
      fun _ => hreplies, ?_⟩
    · rw [hincoming]
      exact hecho.small
    · intro _ hdecoding
      rcases hstages with ⟨rest, -, hnow⟩ | ⟨hstage, hidle⟩
      · exact (hdecoding hnow).elim
      · have hempty :=
          hecho.readable_nil (by simp [hstage]) (by simp [hstage])
        simp only [Peer.incoming, Peer.withReceiver, hidle, hstage, hempty,
          ReadStage.spill, List.append_nil] at hincoming
        exact hincoming

/-- Only the decoder sends on the server's end. -/
theorem step
    (hecho : Echoing peer) {label : PeerLabel} (hfits : label.Fits)
    (halone : ∀ message, label ≠ .sendMessage message)
    (hstep : peer.step decoding label = some next) :
    Echoing next := by
  cases label with
  | sendMessage message => exact (halone message rfl).elim
  | onWrite =>
      obtain ⟨sender, -, rfl⟩ := Option.map_eq_some_iff.mp hstep
      exact hecho.withSender sender
  | write returned errno =>
      obtain ⟨sender, -, rfl⟩ := Option.map_eq_some_iff.mp hstep
      exact hecho.withSender sender
  | readv data errno =>
      obtain ⟨receiver, hreceiver, rfl⟩ := Option.map_eq_some_iff.mp hstep
      exact hecho.readv hfits hreceiver
  | readFails errno =>
      obtain ⟨receiver, hreceiver, rfl⟩ := Option.map_eq_some_iff.mp hstep
      exact hecho.readFails hreceiver
  | decode => exact hecho.decode hstep
  | onRead => exact hecho.onRead hstep

/-- The decoder never throws. -/
theorem decode_isSome
    (hecho : Echoing peer) (hstage : peer.receiver.stage = .decoding) :
    (peer.step decoding .decode).isSome := by
  have hsmall := hecho.small
  simp only [Peer.incoming, hstage, ReadStage.spill, List.append_nil,
    Buffer.length_readable] at hsmall
  have hdefined :
      (decoding peer.receiver.rcvBuffer (peer.memory, [])).isSome := by
    by_cases hpos : 0 < peer.receiver.rcvBuffer.readableLength
    · simp [decoding_eq peer.memory hpos hsmall]
    · have hzero : peer.receiver.rcvBuffer.readableLength = 0 := by omega
      simp [decoding, hzero]
  simp only [Peer.step, Peer.decode, hstage, Option.isSome_map]
  exact hdefined

end Echoing

/-! ## The round trip -/

variable {β : Type} {client : Application β}

/-- No other thread of the server sends on this connection. -/
def ServerAlone : LinkLabel → Prop
  | .right (.sendMessage _) => False
  | _ => True

theorem step_echoing
    {link next : Link β Counters} {label : LinkLabel}
    (hecho : Echoing link.right) (hfits : Link.Fits label)
    (halone : ServerAlone label)
    (hstep : link.step client decoding label = some next) :
    Echoing next.right := by
  cases label with
  | left label =>
      simp only [Link.step] at hstep
      split at hstep
      next =>
        obtain ⟨left, -, rfl⟩ := Option.map_eq_some_iff.mp hstep
        exact hecho
      next => cases hstep
  | right label =>
      simp only [Link.step] at hstep
      split at hstep
      next =>
        obtain ⟨right, hpeer, rfl⟩ := Option.map_eq_some_iff.mp hstep
        apply hecho.step hfits _ hpeer
        rintro message rfl
        exact halone
      next => cases hstep

/-- Whatever the client does and however the connection cuts the stream, as
long as every message and every single transfer is shorter than `2 ^ 31` bytes
and the server sends nothing but its echo: what the client has got back is a
beginning of what it has sent, and the rest of it is in order on its way.  The
decoder of the server never throws. -/
theorem echo_returns_stream
    (hclient : Orderly client) (first : β) {labels : List LinkLabel}
    {final : Link β Counters}
    (hfits : ∀ label ∈ labels, Link.Fits label)
    (halone : ∀ label ∈ labels, ServerAlone label)
    (hrun :
      run (Link.step client decoding) (Link.new first Counters.new) labels =
        some final) :
    final.left.receiver.consumed ++ final.left.incoming ++
            wire final.right final.left ++ final.right.outgoing ++
            final.right.replies.flatten ++ final.right.incoming ++
            wire final.left final.right ++ final.left.outgoing =
          final.left.sent.flatten ∧
      final.left.receiver.consumed <+: final.left.sent.flatten ∧
      (final.right.receiver.stage = .decoding →
        (final.right.step decoding .decode).isSome) := by
  have hsound :=
    (Link.Sound.new first Counters.new).run hclient orderly hfits hrun
  have hecho : Echoing final.right := by
    refine run_preserves (Link.step client decoding)
      (fun link => Echoing link.right)
      (fun _ label => Link.Fits label ∧ ServerAlone label) ?_
      (?_ : Echoing (Link.new first Counters.new).right) hrun ?_
    · intro link label next hnow hlabel hnext
      exact step_echoing hnow hlabel.1 hlabel.2 hnext
    · exact Echoing.new
    · exact EachStep.of_forall _
        (fun label hlabel _ => ⟨hfits label hlabel, halone label hlabel⟩) _
  have hthere := stream_across hsound.left hsound.right hsound.toRight
  have hback := stream_across hsound.right hsound.left hsound.toLeft
  have hwhole :
      final.left.receiver.consumed ++ final.left.incoming ++
            wire final.right final.left ++ final.right.outgoing ++
            final.right.replies.flatten ++ final.right.incoming ++
            wire final.left final.right ++ final.left.outgoing =
          final.left.sent.flatten := by
    rw [hback, hecho.returned]
    exact hthere
  refine ⟨hwhole, ?_, hecho.decode_isSome⟩
  rw [← hwhole]
  simp only [List.append_assoc]
  exact List.prefix_append _ _

/-- Three bytes go to the server and come back in two pieces. -/
theorem echo_returns_stream_two_pieces :
    ∃ final,
      run (Link.step silentReader decoding) (Link.new () Counters.new)
          [.left (.sendMessage [1, 2, 3]), .left .onWrite, .left .onWrite,
            .left .onWrite, .left (.write 3 .other),
            .right (.readv [1, 2, 3] .other), .right .decode,
            .right .onRead, .right .onRead, .right .onWrite,
            .right .onWrite, .right .onWrite, .right (.write 2 .other),
            .left (.readv [1] .other), .left .decode, .left .onRead,
            .left (.readv [2] .other), .left .decode] =
        some final ∧
      final.left.receiver.consumed = [1, 2] ∧
      final.left.receiver.consumed <+: final.left.sent.flatten := by
  have hrun :
      ∃ final,
        run (Link.step silentReader decoding) (Link.new () Counters.new)
            [.left (.sendMessage [1, 2, 3]), .left .onWrite, .left .onWrite,
              .left .onWrite, .left (.write 3 .other),
              .right (.readv [1, 2, 3] .other), .right .decode,
              .right .onRead, .right .onRead, .right .onWrite,
              .right .onWrite, .right .onWrite, .right (.write 2 .other),
              .left (.readv [1] .other), .left .decode, .left .onRead,
              .left (.readv [2] .other), .left .decode] =
          some final ∧
        final.left.receiver.consumed = [1, 2] :=
    ⟨_, rfl, rfl⟩
  obtain ⟨final, hfinal, hconsumed⟩ := hrun
  have hreturns :=
    echo_returns_stream silentReader_orderly () (by simp [Link.Fits,
      PeerLabel.Fits]) (by simp [ServerAlone]) hfinal
  exact ⟨final, hfinal, hconsumed, hreturns.2.1⟩

end GreenTurtle.Echo
