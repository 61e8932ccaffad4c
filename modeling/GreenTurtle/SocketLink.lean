import GreenTurtle.BufferedSocketWrite
import GreenTurtle.OnReadCall
import Mathlib.Tactic

/-!
# Two sockets and the connection between them

A `BufferedSocket` with both of its halves and the decoder of a subclass, and
two of them joined by a connection.  The connection delivers in order what the
operating system has accepted on the other side, in pieces of any size and as
late as it likes.  The decoder may call `SendMessage`, and so may all other
threads at any time.
-/

namespace GreenTurtle.BufferedSocket

open Execution

/-- A decoder together with the messages that it sends, in order. -/
abbrev Application (β : Type) := Decoder (β × List Message)

/-- One end of a connection.  `replies` are the messages that the decoder has
still to send before it returns, and `sent` records all that were sent. -/
structure Peer (β : Type) where
  sender : Sender
  receiver : Receiver
  memory : β
  replies : List Message
  sent : List Message

inductive PeerLabel where
  | sendMessage (message : Message)
  | onWrite
  | write (returned : ℤ) (errno : SocketOption.Errno)
  | readv (data : List Byte) (errno : SocketOption.Errno)
  | readFails (errno : SocketOption.Errno)
  | decode
  | onRead

/-- What a step takes off the connection. -/
def PeerLabel.payload : PeerLabel → List Byte
  | .readv data _ => data
  | _ => []

namespace Peer

variable {β : Type}

def new (memory : β) : Peer β where
  sender := Sender.new
  receiver := Receiver.new
  memory := memory
  replies := []
  sent := []

def send (message : Message) (peer : Peer β) : Peer β :=
  { peer with
    sender := peer.sender.sendMessage message
    sent := peer.sent ++ [message] }

def withSender (peer : Peer β) (sender : Sender) : Peer β :=
  { peer with sender := sender }

def withReceiver (peer : Peer β) (receiver : Receiver) : Peer β :=
  { peer with receiver := receiver }

/-- The call of `Decoding`. -/
def decode (decoding : Application β) (peer : Peer β) : Option (Peer β) :=
  match peer.receiver.stage with
  | .decoding =>
      (decoding peer.receiver.rcvBuffer (peer.memory, [])).map fun decoded =>
        { peer with
          receiver :=
            { peer.receiver with
              rcvBuffer := decoded.1
              stage := .decoded
              consumed :=
                peer.receiver.consumed ++
                  peer.receiver.rcvBuffer.readable.take
                    (decoded.1.read - peer.receiver.rcvBuffer.read) }
          memory := decoded.2.1
          replies := decoded.2.2 }
  | _ => none

/-- A decoder sends its messages one by one, so other threads may come
between. -/
def step (decoding : Application β) (peer : Peer β) :
    PeerLabel → Option (Peer β)
  | .sendMessage message => some (peer.send message)
  | .onWrite => (peer.sender.step .onWrite).map peer.withSender
  | .write returned errno =>
      (peer.sender.step (.write returned errno)).map peer.withSender
  | .readv data errno =>
      (peer.receiver.step (.readv data errno)).map peer.withReceiver
  | .readFails errno =>
      (peer.receiver.step (.readFails errno)).map peer.withReceiver
  | .decode => peer.decode decoding
  | .onRead =>
      match peer.receiver.stage, peer.replies with
      | .decoded, message :: rest =>
          some { peer.send message with replies := rest }
      | _, _ => (peer.receiver.step .onRead).map peer.withReceiver

/-- What has left the sender and is not yet accepted. -/
def outgoing (peer : Peer β) : List Byte :=
  peer.sender.sndBuffer.readable ++ peer.sender.stage.inTransit.flatten ++
    peer.sender.sndMessages.flatten

/-- What has been delivered and is not yet consumed. -/
def incoming (peer : Peer β) : List Byte :=
  peer.receiver.rcvBuffer.readable ++ peer.receiver.stage.spill

end Peer

/-- Messages are shorter than `2 ^ 31` bytes, and so is what a single system
call transfers. -/
def PeerLabel.Fits : PeerLabel → Prop
  | .sendMessage message => message.length < 2147483648
  | .write returned _ => returned < 2147483648
  | .readv data _ => data.length < 2147483648
  | _ => True

/-- The decoder reads a part of the buffer and sends short messages. -/
structure Orderly {β : Type} (decoding : Application β) : Prop where
  consumes : Consumes decoding
  short :
    ∀ buffer memory decoded, decoding buffer (memory, []) = some decoded →
      ∀ message ∈ decoded.2.2, message.length < 2147483648

/-! ## One end -/

namespace Peer

variable {β : Type} {decoding : Application β} {peer next : Peer β}
    {label : PeerLabel}

structure Sound (peer : Peer β) : Prop where
  intact : Intact peer.sent peer.sender
  undistorted : Undistorted peer.receiver
  short : ∀ message ∈ peer.replies, message.length < 2147483648

theorem Sound.new (memory : β) : (new memory).Sound where
  intact := Intact.new
  undistorted := Undistorted.new
  short := by simp [Peer.new]

theorem decode_eq_some
    (hdecode : peer.decode decoding = some next) :
    peer.receiver.stage = .decoding ∧
      ∃ decoded,
        decoding peer.receiver.rcvBuffer (peer.memory, []) = some decoded ∧
        next =
          { peer with
            receiver :=
              { peer.receiver with
                rcvBuffer := decoded.1
                stage := .decoded
                consumed :=
                  peer.receiver.consumed ++
                    peer.receiver.rcvBuffer.readable.take
                      (decoded.1.read - peer.receiver.rcvBuffer.read) }
            memory := decoded.2.1
            replies := decoded.2.2 } := by
  unfold decode at hdecode
  split at hdecode
  next hstage =>
    obtain ⟨decoded, hdecoded, rfl⟩ := Option.map_eq_some_iff.mp hdecode
    exact ⟨hstage, decoded, hdecoded, rfl⟩
  next => contradiction

/-- A decoder that consumes is a step of the receiver. -/
theorem decode_receiver
    (horderly : Orderly decoding) (hformed : peer.receiver.rcvBuffer.WellFormed)
    (hdecode : peer.decode decoding = some next) :
    ∃ count, peer.receiver.step (.decode count) = some next.receiver := by
  obtain ⟨hstage, decoded, hdecoded, rfl⟩ := decode_eq_some hdecode
  obtain ⟨count, hcount, hbuffer⟩ :=
    horderly.consumes _ _ _ hformed hdecoded
  refine ⟨count, ?_⟩
  simp [Receiver.step, Receiver.decode, hstage, hcount, hbuffer,
    Buffer.hasRead]

theorem Sound.send
    (hsound : peer.Sound) {message : Message}
    (hshort : message.length < 2147483648) : (peer.send message).Sound where
  intact := hsound.intact.sendMessage hshort
  undistorted := hsound.undistorted
  short := hsound.short

theorem Sound.withSender
    (hsound : peer.Sound) (label : SendLabel) {sender : Sender}
    (hfits : MessageFits label ∧ CountFits label)
    (hnone : sentMessages [label] = [])
    (hstep : peer.sender.step label = some sender) :
    (peer.withSender sender).Sound where
  intact := by
    have hintact := hsound.intact.step hfits hstep
    rwa [hnone, List.append_nil] at hintact
  undistorted := hsound.undistorted
  short := hsound.short

theorem Sound.withReceiver
    (hsound : peer.Sound) (label : ReadLabel) {receiver : Receiver}
    (hfits : ReadFits label)
    (hstep : peer.receiver.step label = some receiver) :
    (peer.withReceiver receiver).Sound where
  intact := hsound.intact
  undistorted := hsound.undistorted.step hfits hstep
  short := hsound.short

/-- The last step of `OnRead` or of the decoder. -/
theorem onRead_cases (hstep : peer.step decoding .onRead = some next) :
    (∃ message rest, peer.receiver.stage = .decoded ∧
        peer.replies = message :: rest ∧
        next = { peer.send message with replies := rest }) ∨
      ∃ receiver, peer.receiver.step .onRead = some receiver ∧
        next = peer.withReceiver receiver ∧
        (peer.receiver.stage = .decoded → peer.replies = []) := by
  simp only [step] at hstep
  split at hstep
  next message rest hstage hreplies =>
    exact .inl ⟨message, rest, hstage, hreplies,
      (Option.some.inj hstep).symm⟩
  next hcases =>
    obtain ⟨receiver, hreceiver, rfl⟩ := Option.map_eq_some_iff.mp hstep
    refine .inr ⟨receiver, hreceiver, rfl, ?_⟩
    intro hstage
    cases hreplies : peer.replies with
    | nil => rfl
    | cons message rest => exact (hcases message rest hstage hreplies).elim

theorem Sound.step
    (horderly : Orderly decoding) (hsound : peer.Sound)
    (hfits : label.Fits) (hstep : peer.step decoding label = some next) :
    next.Sound := by
  cases label with
  | sendMessage message =>
      obtain rfl := Option.some.inj hstep
      exact hsound.send hfits
  | onWrite =>
      obtain ⟨sender, hsender, rfl⟩ := Option.map_eq_some_iff.mp hstep
      exact hsound.withSender .onWrite ⟨trivial, trivial⟩ rfl hsender
  | write returned errno =>
      obtain ⟨sender, hsender, rfl⟩ := Option.map_eq_some_iff.mp hstep
      exact hsound.withSender (.write returned errno) ⟨trivial, hfits⟩ rfl
        hsender
  | readv data errno =>
      obtain ⟨receiver, hreceiver, rfl⟩ := Option.map_eq_some_iff.mp hstep
      exact hsound.withReceiver (.readv data errno) hfits hreceiver
  | readFails errno =>
      obtain ⟨receiver, hreceiver, rfl⟩ := Option.map_eq_some_iff.mp hstep
      exact hsound.withReceiver (.readFails errno) trivial hreceiver
  | decode =>
      obtain ⟨count, hcount⟩ :=
        decode_receiver horderly hsound.undistorted.wellFormed hstep
      have hreceiver := hsound.undistorted.decode hcount
      obtain ⟨-, decoded, hdecoded, rfl⟩ := decode_eq_some hstep
      exact ⟨hsound.intact, hreceiver,
        horderly.short _ _ _ hdecoded⟩
  | onRead =>
      rcases onRead_cases hstep with
        ⟨message, rest, -, hreplies, rfl⟩ | ⟨receiver, hreceiver, rfl, -⟩
      · have hshort := hsound.short
        rw [hreplies, List.forall_mem_cons] at hshort
        have hsent := hsound.send hshort.1
        exact ⟨hsent.intact, hsent.undistorted, hshort.2⟩
      · exact hsound.withReceiver .onRead trivial hreceiver

/-- What the operating system has accepted only grows. -/
theorem accepted_sender
    {sender after : Sender} {label : SendLabel}
    (hstep : sender.step label = some after) :
    sender.accepted <+: after.accepted := by
  cases label with
  | sendMessage message =>
      obtain rfl := Option.some.inj hstep
      exact List.prefix_rfl
  | onWrite =>
      simp only [Sender.step, Sender.onWriteStep] at hstep
      split at hstep
      · split at hstep
        · obtain rfl := Option.some.inj hstep
          exact List.prefix_rfl
        · obtain rfl := Option.some.inj hstep
          exact List.prefix_rfl
      · obtain rfl := Option.some.inj hstep
        exact List.prefix_rfl
      · obtain ⟨buffer, -, rfl⟩ := Option.map_eq_some_iff.mp hstep
        exact List.prefix_rfl
      · contradiction
      · contradiction
  | write returned errno =>
      simp only [Sender.step, Sender.writeReturns] at hstep
      split at hstep
      · split at hstep
        · obtain rfl := Option.some.inj hstep
          unfold Sender.afterWrite
          split
          · exact List.prefix_append _ _
          · split
            · exact List.prefix_append _ _
            · exact List.prefix_append _ _
        · contradiction
      · contradiction

theorem accepted_step (hstep : peer.step decoding label = some next) :
    peer.sender.accepted <+: next.sender.accepted := by
  cases label with
  | sendMessage message =>
      obtain rfl := Option.some.inj hstep
      exact List.prefix_rfl
  | onWrite =>
      obtain ⟨sender, hsender, rfl⟩ := Option.map_eq_some_iff.mp hstep
      exact accepted_sender hsender
  | write returned errno =>
      obtain ⟨sender, hsender, rfl⟩ := Option.map_eq_some_iff.mp hstep
      exact accepted_sender hsender
  | readv data errno =>
      obtain ⟨receiver, -, rfl⟩ := Option.map_eq_some_iff.mp hstep
      exact List.prefix_rfl
  | readFails errno =>
      obtain ⟨receiver, -, rfl⟩ := Option.map_eq_some_iff.mp hstep
      exact List.prefix_rfl
  | decode =>
      obtain ⟨-, decoded, -, rfl⟩ := decode_eq_some hstep
      exact List.prefix_rfl
  | onRead =>
      rcases onRead_cases hstep with
        ⟨message, rest, -, -, rfl⟩ | ⟨receiver, -, rfl, -⟩
      · exact List.prefix_rfl
      · exact List.prefix_rfl

/-- Whatever is delivered waits for the decoder. -/
theorem readvReturns_cases
    {receiver after : Receiver} {data : List Byte}
    {errno : SocketOption.Errno} (hfits : data.length < 2147483648)
    (hstep : receiver.readvReturns data errno = some after) :
    receiver.stage = .idle ∧
      (after = receiver ∨
        after.consumed = receiver.consumed ∧
          (after.stage = .decoding ∨
            ∃ rest, after.stage = .spilled rest)) := by
  obtain ⟨hidle, hroom⟩ := readvReturns_inv hstep
  refine ⟨hidle, ?_⟩
  cases data with
  | nil =>
      rw [readvReturns_nil hidle, Option.some.injEq] at hstep
      exact .inl hstep.symm
  | cons byte bytes =>
      rw [readvReturns_eq hidle errno (by simp) hroom hfits,
        Option.some.injEq] at hstep
      refine .inr ?_
      rw [← hstep]
      refine ⟨rfl, ?_⟩
      dsimp only
      split
      · exact .inl rfl
      · exact .inr ⟨_, rfl⟩

theorem readvFails_cases
    {receiver after : Receiver} {errno : SocketOption.Errno}
    (hstep : receiver.readvFails errno = some after) :
    receiver.stage = .idle ∧
      ∃ stage : ReadStage, (stage = .idle ∨ stage = .failed) ∧
        after = { receiver with stage := stage } := by
  unfold Receiver.readvFails at hstep
  split at hstep
  next hidle =>
    refine ⟨hidle, ?_⟩
    obtain rfl := Option.some.inj hstep
    have hnone := SocketOption.transferred_neg_one errno
    unfold Receiver.afterReadv SocketOption.readv
    split
    · exact ⟨.failed, .inr rfl, rfl⟩
    · rw [if_pos (by omega)]
      exact ⟨.idle, .inl rfl, rfl⟩
  next => cases hstep

theorem received_afterReadv
    (nread : ℤ) (extrabuff : List Byte) (receiver : Receiver) :
    (receiver.afterReadv nread extrabuff).received = receiver.received := by
  unfold Receiver.afterReadv
  split
  · rfl
  · split
    · rfl
    · dsimp only
      split <;> rfl

theorem received_readv
    {receiver after : Receiver} {data : List Byte}
    {errno : SocketOption.Errno}
    (hstep : receiver.readvReturns data errno = some after) :
    after.received = receiver.received ++ data := by
  unfold Receiver.readvReturns at hstep
  split at hstep
  next =>
    dsimp only at hstep
    split at hstep
    next =>
      rw [← Option.some.inj hstep, received_afterReadv]
    next => cases hstep
  next => cases hstep

theorem onReadStep_cases
    {receiver after : Receiver} (hstep : receiver.onReadStep = some after) :
    after.received = receiver.received ∧
      after.consumed = receiver.consumed ∧
      ((∃ rest, receiver.stage = .spilled rest ∧ after.stage = .decoding) ∨
        receiver.stage = .decoded ∧ after.stage = .idle) := by
  unfold Receiver.onReadStep at hstep
  split at hstep
  next rest hstage =>
    obtain ⟨buffer, -, rfl⟩ := Option.map_eq_some_iff.mp hstep
    exact ⟨rfl, rfl, .inl ⟨rest, hstage, rfl⟩⟩
  next hstage =>
    obtain rfl := Option.some.inj hstep
    exact ⟨rfl, rfl, .inr ⟨hstage, rfl⟩⟩
  next => contradiction

theorem received_step (hstep : peer.step decoding label = some next) :
    next.receiver.received = peer.receiver.received ++ label.payload := by
  cases label with
  | sendMessage message =>
      obtain rfl := Option.some.inj hstep
      exact (List.append_nil _).symm
  | onWrite =>
      obtain ⟨sender, -, rfl⟩ := Option.map_eq_some_iff.mp hstep
      exact (List.append_nil _).symm
  | write returned errno =>
      obtain ⟨sender, -, rfl⟩ := Option.map_eq_some_iff.mp hstep
      exact (List.append_nil _).symm
  | readv data errno =>
      obtain ⟨receiver, hreceiver, rfl⟩ := Option.map_eq_some_iff.mp hstep
      exact received_readv hreceiver
  | readFails errno =>
      obtain ⟨receiver, hreceiver, rfl⟩ := Option.map_eq_some_iff.mp hstep
      obtain ⟨-, stage, -, rfl⟩ := readvFails_cases hreceiver
      exact (List.append_nil _).symm
  | decode =>
      obtain ⟨-, decoded, -, rfl⟩ := decode_eq_some hstep
      exact (List.append_nil _).symm
  | onRead =>
      rcases onRead_cases hstep with
        ⟨message, rest, -, -, rfl⟩ | ⟨receiver, hreceiver, rfl, -⟩
      · exact (List.append_nil _).symm
      · simp only [withReceiver, (onReadStep_cases hreceiver).1,
          PeerLabel.payload, List.append_nil]

theorem sent_step (hstep : peer.step decoding label = some next) :
    peer.sent <+: next.sent := by
  cases label with
  | sendMessage message =>
      obtain rfl := Option.some.inj hstep
      exact List.prefix_append _ _
  | onWrite =>
      obtain ⟨sender, -, rfl⟩ := Option.map_eq_some_iff.mp hstep
      exact List.prefix_rfl
  | write returned errno =>
      obtain ⟨sender, -, rfl⟩ := Option.map_eq_some_iff.mp hstep
      exact List.prefix_rfl
  | readv data errno =>
      obtain ⟨receiver, -, rfl⟩ := Option.map_eq_some_iff.mp hstep
      exact List.prefix_rfl
  | readFails errno =>
      obtain ⟨receiver, -, rfl⟩ := Option.map_eq_some_iff.mp hstep
      exact List.prefix_rfl
  | decode =>
      obtain ⟨-, decoded, -, rfl⟩ := decode_eq_some hstep
      exact List.prefix_rfl
  | onRead =>
      rcases onRead_cases hstep with
        ⟨message, rest, -, -, rfl⟩ | ⟨receiver, -, rfl, -⟩
      · exact List.prefix_append _ _
      · exact List.prefix_rfl

theorem memory_step
    (inv : β → Prop)
    (hdecoding :
      ∀ data memory decoded, inv memory →
        decoding data (memory, []) = some decoded → inv decoded.2.1)
    (hinv : inv peer.memory) (hstep : peer.step decoding label = some next) :
    inv next.memory := by
  cases label with
  | sendMessage message =>
      obtain rfl := Option.some.inj hstep
      exact hinv
  | onWrite =>
      obtain ⟨sender, -, rfl⟩ := Option.map_eq_some_iff.mp hstep
      exact hinv
  | write returned errno =>
      obtain ⟨sender, -, rfl⟩ := Option.map_eq_some_iff.mp hstep
      exact hinv
  | readv data errno =>
      obtain ⟨receiver, -, rfl⟩ := Option.map_eq_some_iff.mp hstep
      exact hinv
  | readFails errno =>
      obtain ⟨receiver, -, rfl⟩ := Option.map_eq_some_iff.mp hstep
      exact hinv
  | decode =>
      obtain ⟨-, decoded, hdecoded, rfl⟩ := decode_eq_some hstep
      exact hdecoding _ _ _ hinv hdecoded
  | onRead =>
      rcases onRead_cases hstep with
        ⟨message, rest, -, -, rfl⟩ | ⟨receiver, -, rfl, -⟩
      · exact hinv
      · exact hinv

end Peer

/-! ## The connection -/

structure Link (β γ : Type) where
  left : Peer β
  right : Peer γ

inductive LinkLabel where
  | left (label : PeerLabel)
  | right (label : PeerLabel)

def LinkLabel.swap : LinkLabel → LinkLabel
  | .left label => .right label
  | .right label => .left label

/-- What has been accepted on one side and not yet delivered on the other. -/
def wire {β γ : Type} (source : Peer β) (target : Peer γ) : List Byte :=
  source.sender.accepted.drop target.receiver.received.length

namespace Link

variable {β γ : Type}

def new (first : β) (second : γ) : Link β γ where
  left := Peer.new first
  right := Peer.new second

section Steps

variable (decodingLeft : Application β) (decodingRight : Application γ)

/-- A `readv` takes the next bytes off the wire. -/
def step (link : Link β γ) : LinkLabel → Option (Link β γ)
  | .left label =>
      if label.payload <+: wire link.right link.left then
        (link.left.step decodingLeft label).map fun left =>
          { link with left := left }
      else none
  | .right label =>
      if label.payload <+: wire link.left link.right then
        (link.right.step decodingRight label).map fun right =>
          { link with right := right }
      else none

end Steps

def Fits : LinkLabel → Prop
  | .left label => label.Fits
  | .right label => label.Fits

structure Sound (link : Link β γ) : Prop where
  left : link.left.Sound
  right : link.right.Sound
  toRight : link.right.receiver.received <+: link.left.sender.accepted
  toLeft : link.left.receiver.received <+: link.right.sender.accepted

variable {decodingLeft : Application β} {decodingRight : Application γ}
    {link next : Link β γ} {label : LinkLabel}

theorem Sound.new (first : β) (second : γ) : (new first second).Sound where
  left := Peer.Sound.new first
  right := Peer.Sound.new second
  toRight := List.nil_prefix
  toLeft := List.nil_prefix

/-- The bytes on the wire follow those that were delivered. -/
theorem deliver
    {accepted received data : List Byte} (hbefore : received <+: accepted)
    (hdata : data <+: accepted.drop received.length) :
    received ++ data <+: accepted := by
  obtain ⟨rest, rfl⟩ := hbefore
  rw [List.drop_left] at hdata
  exact (List.prefix_append_right_inj received).mpr hdata

theorem Sound.step
    (hleft : Orderly decodingLeft) (hright : Orderly decodingRight)
    (hsound : link.Sound) (hfits : Fits label)
    (hstep : link.step decodingLeft decodingRight label = some next) :
    next.Sound := by
  cases label with
  | left label =>
      simp only [Link.step] at hstep
      split at hstep
      next hwire =>
        obtain ⟨left, hpeer, rfl⟩ := Option.map_eq_some_iff.mp hstep
        refine ⟨hsound.left.step hleft hfits hpeer, hsound.right,
          hsound.toRight.trans (Peer.accepted_step hpeer), ?_⟩
        rw [Peer.received_step hpeer]
        exact deliver hsound.toLeft hwire
      next => contradiction
  | right label =>
      simp only [Link.step] at hstep
      split at hstep
      next hwire =>
        obtain ⟨right, hpeer, rfl⟩ := Option.map_eq_some_iff.mp hstep
        refine ⟨hsound.left, hsound.right.step hright hfits hpeer, ?_,
          hsound.toLeft.trans (Peer.accepted_step hpeer)⟩
        rw [Peer.received_step hpeer]
        exact deliver hsound.toRight hwire
      next => contradiction

theorem Sound.run
    (hleft : Orderly decodingLeft) (hright : Orderly decodingRight)
    {labels : List LinkLabel} {final : Link β γ} (hsound : link.Sound)
    (hfits : ∀ label ∈ labels, Fits label)
    (hrun :
      Execution.run (Link.step decodingLeft decodingRight) link labels =
        some final) :
    final.Sound := by
  apply run_preserves (Link.step decodingLeft decodingRight) Sound
    (fun _ => Fits)
  · intro link label next hnow hlabel hnext
    exact hnow.step hleft hright hlabel hnext
  · exact hsound
  · exact hrun
  · exact EachStep.of_forall _ (fun label hlabel _ => hfits label hlabel) _

end Link

/-! ## The two sides -/

namespace Link

variable {β γ : Type} {decodingLeft : Application β}
    {decodingRight : Application γ}

def swap (link : Link β γ) : Link γ β := ⟨link.right, link.left⟩

theorem step_swap
    {link next : Link β γ} {label : LinkLabel}
    (hstep : link.step decodingLeft decodingRight label = some next) :
    link.swap.step decodingRight decodingLeft label.swap =
      some next.swap := by
  cases label with
  | left label =>
      simp only [Link.step] at hstep
      split at hstep
      next hwire =>
        obtain ⟨left, hleft, rfl⟩ := Option.map_eq_some_iff.mp hstep
        simp only [LinkLabel.swap, Link.step, swap, if_pos hwire, hleft,
          Option.map_some]
      next => contradiction
  | right label =>
      simp only [Link.step] at hstep
      split at hstep
      next hwire =>
        obtain ⟨right, hright, rfl⟩ := Option.map_eq_some_iff.mp hstep
        simp only [LinkLabel.swap, Link.step, swap, if_pos hwire, hright,
          Option.map_some]
      next => contradiction

/-- A run is a run with the sides exchanged. -/
theorem run_swap
    {link final : Link β γ} {labels : List LinkLabel}
    (hrun :
      Execution.run (Link.step decodingLeft decodingRight) link labels =
        some final) :
    Execution.run (Link.step decodingRight decodingLeft) link.swap
        (labels.map LinkLabel.swap) =
      some final.swap := by
  induction labels generalizing link with
  | nil =>
      obtain rfl := Option.some.inj hrun
      rfl
  | cons label labels ih =>
      obtain ⟨next, hnext, hrest⟩ := (run_cons_eq_some_iff _).mp hrun
      exact (run_cons_eq_some_iff _).mpr
        ⟨next.swap, step_swap hnext, ih hrest⟩

theorem fits_swap
    {labels : List LinkLabel} (hfits : ∀ label ∈ labels, Fits label) :
    ∀ label ∈ labels.map LinkLabel.swap, Fits label := by
  intro label hlabel
  obtain ⟨other, hother, rfl⟩ := List.mem_map.mp hlabel
  have hfit := hfits other hother
  cases other with
  | left label => exact hfit
  | right label => exact hfit

/-- A property of what the decoder remembers. -/
theorem run_memory
    (inv : γ → Prop)
    (hdecoding :
      ∀ data memory decoded, inv memory →
        decodingRight data (memory, []) = some decoded → inv decoded.2.1)
    {link final : Link β γ} {labels : List LinkLabel}
    (hinv : inv link.right.memory)
    (hrun :
      Execution.run (Link.step decodingLeft decodingRight) link labels =
        some final) :
    inv final.right.memory := by
  apply run_invariant (Link.step decodingLeft decodingRight)
    (fun link => inv link.right.memory) _ hinv hrun
  intro link label next hnow hstep
  cases label with
  | left label =>
      simp only [Link.step] at hstep
      split at hstep
      next =>
        obtain ⟨left, -, rfl⟩ := Option.map_eq_some_iff.mp hstep
        exact hnow
      next => contradiction
  | right label =>
      simp only [Link.step] at hstep
      split at hstep
      next =>
        obtain ⟨right, hright, rfl⟩ := Option.map_eq_some_iff.mp hstep
        exact Peer.memory_step inv hdecoding hnow hright
      next => contradiction

end Link

/-- What was sent on one side is, in this order, consumed on the other, waiting
in its buffers, on the wire, or waiting to be accepted. -/
theorem stream_across
    {β γ : Type} {source : Peer β} {target : Peer γ} (hsource : source.Sound)
    (htarget : target.Sound)
    (hbetween : target.receiver.received <+: source.sender.accepted) :
    target.receiver.consumed ++ target.incoming ++ wire source target ++
        source.outgoing =
      source.sent.flatten := by
  obtain ⟨rest, hrest⟩ := hbetween
  have hwire : wire source target = rest := by
    unfold wire
    rw [← hrest, List.drop_left]
  have hreceived := htarget.undistorted.stream
  have haccepted := hsource.intact.stream
  unfold Sender.stream at haccepted
  rw [hwire, ← haccepted, ← hrest, ← hreceived]
  simp only [Peer.incoming, Peer.outgoing, List.append_assoc]

/-- In every run of two connected sockets in which every message and every
single transfer is shorter than `2 ^ 31` bytes, with any decoders that read a
part of the buffer and send such messages: every byte that was sent on either
side is in exactly one place and all are in order. -/
theorem link_keeps_streams
    {β γ : Type} {decodingLeft : Application β}
    {decodingRight : Application γ} (hleft : Orderly decodingLeft)
    (hright : Orderly decodingRight) (first : β) (second : γ)
    {labels : List LinkLabel} {final : Link β γ}
    (hfits : ∀ label ∈ labels, Link.Fits label)
    (hrun :
      Execution.run (Link.step decodingLeft decodingRight)
        (Link.new first second) labels = some final) :
    final.right.receiver.consumed ++ final.right.incoming ++
          wire final.left final.right ++ final.left.outgoing =
        final.left.sent.flatten ∧
      final.left.receiver.consumed ++ final.left.incoming ++
          wire final.right final.left ++ final.right.outgoing =
        final.right.sent.flatten := by
  have hsound := (Link.Sound.new first second).run hleft hright hfits hrun
  exact ⟨stream_across hsound.left hsound.right hsound.toRight,
    stream_across hsound.right hsound.left hsound.toLeft⟩

/-- A decoder that takes everything and sends nothing. -/
def silentReader : Application Unit := fun data state =>
  some (data.hasRead data.readableLength, state)

theorem silentReader_orderly : Orderly silentReader := by
  constructor
  · intro buffer state decoded _ hdecoded
    obtain rfl := Option.some.inj hdecoded
    exact ⟨buffer.readableLength, le_rfl, rfl⟩
  · intro buffer memory decoded hdecoded message hmessage
    obtain rfl := Option.some.inj hdecoded
    simp at hmessage

/-- Two of three bytes have been accepted, and one of them delivered. -/
theorem link_keeps_streams_partly_delivered :
    ∃ final,
      Execution.run (Link.step silentReader silentReader) (Link.new () ())
          [.left (.sendMessage [1, 2, 3]), .left .onWrite, .left .onWrite,
            .left .onWrite, .left (.write 2 .other),
            .right (.readv [1] .other), .right .decode] =
        some final ∧
      final.right.receiver.consumed = [1] ∧
      wire final.left final.right = [2] ∧
      final.right.receiver.consumed ++ final.right.incoming ++
          wire final.left final.right ++ final.left.outgoing =
        final.left.sent.flatten := by
  have hrun :
      ∃ final,
        Execution.run (Link.step silentReader silentReader) (Link.new () ())
            [.left (.sendMessage [1, 2, 3]), .left .onWrite, .left .onWrite,
              .left .onWrite, .left (.write 2 .other),
              .right (.readv [1] .other), .right .decode] =
          some final ∧
        final.right.receiver.consumed = [1] ∧
        wire final.left final.right = [2] :=
    ⟨_, rfl, rfl, rfl⟩
  obtain ⟨final, hfinal, hconsumed, hwire⟩ := hrun
  have hstreams :=
    link_keeps_streams silentReader_orderly silentReader_orderly () ()
      (by simp [Link.Fits, PeerLabel.Fits]) hfinal
  exact ⟨final, hfinal, hconsumed, hwire, hstreams.1⟩

end GreenTurtle.BufferedSocket
