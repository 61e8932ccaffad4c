import GreenTurtle.Framing
import GreenTurtle.SocketLink
import Mathlib.Tactic

/-!
# Messages as frames across a connection

The messages that one end sends are frames, and the decoder at the other end
takes whole frames off its buffer.  The connection may cut the stream anywhere.
What has been handed on is then a beginning of what was sent, message by
message, and between two calls of `OnRead` no complete message is left waiting.
-/

namespace GreenTurtle.BufferedSocket

open Execution
open Framing

variable {β γ : Type}

/-- The decoder takes the whole frames in front and hands them on. -/
structure Cuts
    (IsFrame : List Byte → Prop) (decoding : Application γ)
    (handed : γ → List (List Byte)) : Prop where
  orderly : Orderly decoding
  cut :
    ∀ (data : Buffer) (memory : γ) (whole : List (List Byte)) (part),
      data.WellFormed → (∀ f ∈ whole, IsFrame f) →
        Unfinished IsFrame part → data.readable = whole.flatten ++ part →
          ∃ decoded, decoding data (memory, []) = some decoded ∧
            decoded.1 = data.hasRead whole.flatten.length ∧
            handed decoded.2.1 = handed memory ++ whole

/-- What one end has handed on of the messages of the other. -/
structure Delivered
    (IsFrame : List Byte → Prop) (handed : γ → List (List Byte))
    (sent : List Message) (target : Peer γ) : Prop where
  handed_begins : handed target.memory <+: sent
  handed_flatten :
    (handed target.memory).flatten = target.receiver.consumed
  nothing_waits :
    (∀ rest, target.receiver.stage ≠ .spilled rest) →
      target.receiver.stage ≠ .decoding →
        Unfinished IsFrame target.receiver.rcvBuffer.readable

namespace Delivered

variable {IsFrame : List Byte → Prop} {handed : γ → List (List Byte)}
    {sent : List Message} {target next : Peer γ}
    {decoding : Application γ}

theorem new
    {memory : γ} (hnothing : handed memory = [])
    (hempty : Unfinished IsFrame []) :
    Delivered IsFrame handed [] (Peer.new memory) where
  handed_begins := by simp [Peer.new, hnothing]
  handed_flatten := by simp [Peer.new, hnothing, Receiver.new]
  nothing_waits := fun _ _ => hempty

theorem mono
    (hdelivered : Delivered IsFrame handed sent target)
    {later : List Message} (hsent : sent <+: later) :
    Delivered IsFrame handed later target :=
  ⟨hdelivered.handed_begins.trans hsent, hdelivered.handed_flatten,
    hdelivered.nothing_waits⟩

/-- What the decoder will see consists of whole frames and an unfinished
one. -/
theorem cut_readable
    (hdelivered : Delivered IsFrame handed sent target)
    (hsent : ∀ f ∈ sent, IsFrame f) (hempty : Unfinished IsFrame [])
    (hsound : target.Sound) (hstage : target.receiver.stage = .decoding)
    (hreceived : target.receiver.received <+: sent.flatten) :
    ∃ whole part, handed target.memory ++ whole <+: sent ∧
      (∀ f ∈ whole, IsFrame f) ∧ Unfinished IsFrame part ∧
      target.receiver.rcvBuffer.readable = whole.flatten ++ part := by
  obtain ⟨later, rfl⟩ := hdelivered.handed_begins
  obtain ⟨rest, hrest⟩ := hreceived
  have hstream := hsound.undistorted.decoding hstage
  rw [← hstream, ← hdelivered.handed_flatten, List.flatten_append,
    List.append_assoc] at hrest
  have hlater : ∀ f ∈ later, IsFrame f := fun f hf =>
    hsent f (List.mem_append_right _ hf)
  have hseen :
      target.receiver.rcvBuffer.readable ++ rest = later.flatten ++ [] := by
    rw [List.append_nil]
    exact List.append_cancel_left hrest
  obtain ⟨whole, others, part, rfl, hwhole, hpart, -⟩ :=
    exists_cut hlater hempty hseen
  refine ⟨whole, part, ?_, ?_, hpart, hwhole⟩
  · exact (List.prefix_append_right_inj _).mpr (List.prefix_append _ _)
  · intro f hf
    exact hlater f (List.mem_append_left _ hf)

theorem decode
    (hcuts : Cuts IsFrame decoding handed)
    (hdelivered : Delivered IsFrame handed sent target)
    (hsent : ∀ f ∈ sent, IsFrame f) (hempty : Unfinished IsFrame [])
    (hsound : target.Sound) (hstage : target.receiver.stage = .decoding)
    (hreceived : target.receiver.received <+: sent.flatten) :
    ∃ after, target.decode decoding = some after ∧
      Delivered IsFrame handed sent after := by
  obtain ⟨whole, part, hhanded, hwhole, hpart, hreadable⟩ :=
    hdelivered.cut_readable hsent hempty hsound hstage hreceived
  have hformed := hsound.undistorted.wellFormed
  obtain ⟨decoded, hdecoded, hbuffer, hmemory⟩ :=
    hcuts.cut _ target.memory whole part hformed hwhole hpart hreadable
  have hbound :
      whole.flatten.length ≤ target.receiver.rcvBuffer.readableLength := by
    rw [← Buffer.length_readable, hreadable, List.length_append]
    omega
  refine ⟨_, by simp only [Peer.decode, hstage, hdecoded, Option.map_some]; rfl,
    ?_⟩
  constructor
  · dsimp only
    rw [hmemory]
    exact hhanded
  · dsimp only
    rw [hmemory, hbuffer, List.flatten_append, hdelivered.handed_flatten,
      hreadable, Buffer.hasRead, Nat.add_sub_cancel_left, List.take_left]
  · intro _ _
    dsimp only
    rw [hbuffer, (hformed.hasRead hbound).2, hreadable, List.drop_left]
    exact hpart

theorem readv
    (hdelivered : Delivered IsFrame handed sent target) {data : List Byte}
    {errno : SocketOption.Errno} (hfits : data.length < 2147483648)
    {receiver : Receiver}
    (hstep : target.receiver.readvReturns data errno = some receiver) :
    Delivered IsFrame handed sent (target.withReceiver receiver) := by
  obtain ⟨-, rfl | ⟨hconsumed, hstage⟩⟩ :=
    Peer.readvReturns_cases hfits hstep
  · exact hdelivered
  · refine ⟨hdelivered.handed_begins,
      hdelivered.handed_flatten.trans hconsumed.symm, ?_⟩
    intro hspilled hdecoding
    rcases hstage with hstage | ⟨rest, hstage⟩
    · exact (hdecoding hstage).elim
    · exact (hspilled rest hstage).elim

theorem onRead
    (hdelivered : Delivered IsFrame handed sent target)
    (hsound : target.Sound)
    (hstep : target.step decoding .onRead = some next) :
    Delivered IsFrame handed sent next := by
  rcases Peer.onRead_cases hstep with
    ⟨message, rest, -, -, rfl⟩ | ⟨receiver, hreceiver, rfl, -⟩
  · exact ⟨hdelivered.handed_begins, hdelivered.handed_flatten,
      hdelivered.nothing_waits⟩
  · obtain ⟨hreceived, hconsumed, hstages⟩ :=
      Peer.onReadStep_cases hreceiver
    refine ⟨hdelivered.handed_begins,
      hdelivered.handed_flatten.trans hconsumed.symm, ?_⟩
    intro _ hdecoding
    rcases hstages with ⟨rest, -, hnow⟩ | ⟨hstage, hidle⟩
    · exact (hdecoding hnow).elim
    · -- retrieving moves the bytes that are left to the front
      have hwaits :=
        hdelivered.nothing_waits (by simp [hstage]) (by simp [hstage])
      have hbefore := hsound.undistorted.stream
      have hafter := (hsound.undistorted.onReadStep hreceiver).stream
      rw [hconsumed, hreceived, ← hbefore, hidle, hstage] at hafter
      simp only [ReadStage.spill, List.append_nil] at hafter
      change Unfinished IsFrame receiver.rcvBuffer.readable
      rwa [List.append_cancel_left hafter]

theorem step
    (hcuts : Cuts IsFrame decoding handed)
    (hdelivered : Delivered IsFrame handed sent target)
    (hsent : ∀ f ∈ sent, IsFrame f) (hempty : Unfinished IsFrame [])
    (hsound : target.Sound)
    (hreceived : target.receiver.received <+: sent.flatten)
    {label : PeerLabel} (hfits : label.Fits)
    (hstep : target.step decoding label = some next) :
    Delivered IsFrame handed sent next := by
  have hsame :
      ∀ peer : Peer γ, peer.receiver = target.receiver →
        peer.memory = target.memory →
          Delivered IsFrame handed sent peer := by
    intro peer hpeer hmemory
    constructor
    · rw [hmemory]
      exact hdelivered.handed_begins
    · rw [hmemory, hpeer]
      exact hdelivered.handed_flatten
    · rw [hpeer]
      exact hdelivered.nothing_waits
  cases label with
  | sendMessage message =>
      obtain rfl := Option.some.inj hstep
      exact hsame _ rfl rfl
  | onWrite =>
      obtain ⟨sender, -, rfl⟩ := Option.map_eq_some_iff.mp hstep
      exact hsame _ rfl rfl
  | write returned errno =>
      obtain ⟨sender, -, rfl⟩ := Option.map_eq_some_iff.mp hstep
      exact hsame _ rfl rfl
  | readv data errno =>
      obtain ⟨receiver, hreceiver, rfl⟩ := Option.map_eq_some_iff.mp hstep
      exact hdelivered.readv hfits hreceiver
  | readFails errno =>
      obtain ⟨receiver, hreceiver, rfl⟩ := Option.map_eq_some_iff.mp hstep
      obtain ⟨hidle, stage, -, rfl⟩ := Peer.readvFails_cases hreceiver
      have hwaits :=
        hdelivered.nothing_waits (by simp [hidle]) (by simp [hidle])
      exact ⟨hdelivered.handed_begins, hdelivered.handed_flatten,
        fun _ _ => hwaits⟩
  | decode =>
      obtain ⟨hstage, -⟩ := Peer.decode_eq_some hstep
      obtain ⟨after, hafter, hkept⟩ :=
        hdelivered.decode hcuts hsent hempty hsound hstage hreceived
      obtain rfl := Option.some.inj (hstep.symm.trans hafter)
      exact hkept
  | onRead => exact hdelivered.onRead hsound hstep

end Delivered

/-! ## Runs -/

section Runs

variable {IsFrame : List Byte → Prop} {handed : γ → List (List Byte)}
    {decodingLeft : Application β} {decodingRight : Application γ}

/-- The bytes that have arrived are a beginning of the messages. -/
theorem Link.Sound.received_prefix
    {link : Link β γ} (hsound : link.Sound) :
    link.right.receiver.received <+: link.left.sent.flatten := by
  have hstream := hsound.left.intact.stream
  unfold Sender.stream at hstream
  rw [List.append_assoc, List.append_assoc] at hstream
  exact hsound.toRight.trans ⟨_, hstream⟩

/-- The link works, and the messages have been delivered if they are frames. -/
structure Framed
    (IsFrame : List Byte → Prop) (handed : γ → List (List Byte))
    (link : Link β γ) : Prop where
  sound : link.Sound
  delivered :
    (∀ f ∈ link.left.sent, IsFrame f) →
      Delivered IsFrame handed link.left.sent link.right

theorem Framed.step
    (hleft : Orderly decodingLeft)
    (hright : Cuts IsFrame decodingRight handed)
    (hempty : Unfinished IsFrame []) {link next : Link β γ}
    (hframed : Framed IsFrame handed link) {label : LinkLabel}
    (hfits : Link.Fits label)
    (hstep : link.step decodingLeft decodingRight label = some next) :
    Framed IsFrame handed next := by
  refine ⟨hframed.sound.step hleft hright.orderly hfits hstep, ?_⟩
  intro hsent
  cases label with
  | left label =>
      simp only [Link.step] at hstep
      split at hstep
      next =>
        obtain ⟨left, hpeer, rfl⟩ := Option.map_eq_some_iff.mp hstep
        have hgrows := Peer.sent_step hpeer
        exact (hframed.delivered fun f hf =>
          hsent f (hgrows.subset hf)).mono hgrows
      next => contradiction
  | right label =>
      simp only [Link.step] at hstep
      split at hstep
      next =>
        obtain ⟨right, hpeer, rfl⟩ := Option.map_eq_some_iff.mp hstep
        exact (hframed.delivered hsent).step hright hsent hempty
          hframed.sound.right hframed.sound.received_prefix hfits hpeer
      next => contradiction

theorem Framed.run
    (hleft : Orderly decodingLeft)
    (hright : Cuts IsFrame decodingRight handed)
    (hempty : Unfinished IsFrame []) {first : β} {second : γ}
    (hnothing : handed second = []) {labels : List LinkLabel}
    {final : Link β γ} (hfits : ∀ label ∈ labels, Link.Fits label)
    (hrun :
      Execution.run (Link.step decodingLeft decodingRight)
        (Link.new first second) labels = some final) :
    Framed IsFrame handed final := by
  refine run_preserves (Link.step decodingLeft decodingRight)
    (Framed IsFrame handed) (fun _ => Link.Fits) ?_
    (?_ : Framed IsFrame handed (Link.new first second)) hrun ?_
  · intro link label next hframed hlabel hnext
    exact hframed.step hleft hright hempty hlabel hnext
  · exact ⟨Link.Sound.new first second,
      fun _ => Delivered.new hnothing hempty⟩
  · exact EachStep.of_forall _ (fun label hlabel _ => hfits label hlabel) _

/-- The decoder never fails on a beginning of the messages. -/
theorem Framed.decode_isSome
    (hright : Cuts IsFrame decodingRight handed)
    (hempty : Unfinished IsFrame []) {link : Link β γ}
    (hframed : Framed IsFrame handed link)
    (hsent : ∀ f ∈ link.left.sent, IsFrame f)
    (hstage : link.right.receiver.stage = .decoding) :
    (link.right.step decodingRight .decode).isSome := by
  obtain ⟨after, hafter, -⟩ :=
    (hframed.delivered hsent).decode hright hsent hempty
      hframed.sound.right hstage hframed.sound.received_prefix
  rw [Peer.step, hafter]
  rfl

/-- Between two calls of `OnRead` all complete messages have been handed on. -/
theorem Framed.received_eq
    {link : Link β γ} (hframed : Framed IsFrame handed link)
    (hsent : ∀ f ∈ link.left.sent, IsFrame f)
    (hidle : link.right.receiver.stage = .idle) :
    ∃ part, Unfinished IsFrame part ∧
      link.right.receiver.received =
        (handed link.right.memory).flatten ++ part := by
  have hdelivered := hframed.delivered hsent
  have hstream := hframed.sound.right.undistorted.stream
  rw [hidle] at hstream
  refine ⟨link.right.receiver.rcvBuffer.readable,
    hdelivered.nothing_waits (by simp [hidle]) (by simp [hidle]), ?_⟩
  rw [hdelivered.handed_flatten, ← hstream]
  exact List.append_nil _

end Runs

end GreenTurtle.BufferedSocket
