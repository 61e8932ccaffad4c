import GreenTurtle.Buffer
import GreenTurtle.Execution
import GreenTurtle.SocketOption
import Mathlib.Tactic

/-!
# The outgoing stream of a buffered socket

`BufferedSocket::SendMessage` and `OnWrite`.  Any thread may queue a message
under the lock.  The loop thread takes the queue away under the lock, copies the
messages into the send buffer one by one, and offers the buffer to the socket,
which may take any part of it.
-/

namespace GreenTurtle.BufferedSocket

open Execution
open SocketConfig

abbrev Message := List Byte

/-- How far the loop thread has come in `OnWrite`. -/
inductive WriteStage where
  | idle
  | dataFound
  | appending (rest : List Message)
  | failed

def WriteStage.inTransit : WriteStage → List Message
  | .appending rest => rest
  | _ => []

/-- The sending half of the socket, with the bytes that the operating system
has accepted so far. -/
structure Sender where
  sndMessages : List Message
  sndBuffer : Buffer
  stage : WriteStage
  accepted : List Byte

/-- A message is queued, the loop thread makes its next step in `OnWrite`, or
its call of `write` returns. -/
inductive SendLabel where
  | sendMessage (message : Message)
  | onWrite
  | write (returned : ℤ) (errno : SocketOption.Errno)

namespace Sender

def new : Sender where
  sndMessages := []
  sndBuffer := Buffer.new kBufferedSocketBufferSize
  stage := .idle
  accepted := []

def hasData (sender : Sender) : Bool :=
  sender.sndMessages.length ≠ 0 || sender.sndBuffer.readableLength ≠ 0

def sendMessage (message : Message) (sender : Sender) : Sender :=
  { sender with sndMessages := sender.sndMessages ++ [message] }

/-- The length of a message is read into an `unsigned int`. -/
def onWriteStep (sender : Sender) : Option Sender :=
  match sender.stage with
  | .idle =>
      if sender.hasData then some { sender with stage := .dataFound }
      else some sender
  | .dataFound =>
      some
        { sender with
          sndMessages := []
          stage := .appending sender.sndMessages }
  | .appending (message :: rest) =>
      (sender.sndBuffer.append
          (message.take (message.length % 4294967296))).map fun buffer =>
        { sender with sndBuffer := buffer, stage := .appending rest }
  | .appending [] => none
  | .failed => none

/-- The tail of `OnWrite` once `send_size` is known. -/
def afterWrite (sendSize : ℤ) (sender : Sender) : Sender :=
  if sendSize < 0 then { sender with stage := .failed }
  else if sendSize = 0 then { sender with stage := .idle }
  else
    let buffer := sender.sndBuffer.hasRead sendSize.toNat
    { sender with
      sndBuffer :=
        if buffer.readableLength < kBufferedSocketRetrieveBufferSize then
          buffer.retrieve
        else buffer
      stage := .idle }

/-- The operating system takes at most what it is offered. -/
def writeReturns
    (returned : ℤ) (errno : SocketOption.Errno) (sender : Sender) :
    Option Sender :=
  match sender.stage with
  | .appending [] =>
      if -1 ≤ returned ∧ returned ≤ sender.sndBuffer.readableLength then
        some
          (afterWrite (SocketOption.write returned errno)
            { sender with
              accepted :=
                sender.accepted ++
                  sender.sndBuffer.readable.take returned.toNat })
      else none
  | _ => none

def step (sender : Sender) : SendLabel → Option Sender
  | .sendMessage message => some (sender.sendMessage message)
  | .onWrite => sender.onWriteStep
  | .write returned errno => sender.writeReturns returned errno

end Sender

/-- The messages in the order in which the lock was acquired for them. -/
def sentMessages (labels : List SendLabel) : List Message :=
  labels.filterMap fun label =>
    match label with
    | .sendMessage message => some message
    | _ => none

/-- Messages are shorter than `2 ^ 31` bytes. -/
def MessageFits : SendLabel → Prop
  | .sendMessage message => message.length < 2147483648
  | _ => True

/-- A single `write` takes less than `2 ^ 31` bytes. -/
def CountFits : SendLabel → Prop
  | .write returned _ => returned < 2147483648
  | _ => True

/-- What the socket has accepted, what the buffer still holds, what is being
copied and what is queued, in this order. -/
def Sender.stream (sender : Sender) : List Byte :=
  sender.accepted ++ sender.sndBuffer.readable ++
    sender.stage.inTransit.flatten ++ sender.sndMessages.flatten

structure Intact (sent : List Message) (sender : Sender) : Prop where
  wellFormed : sender.sndBuffer.WellFormed
  short :
    ∀ message ∈ sender.stage.inTransit ++ sender.sndMessages,
      message.length < 2147483648
  stream : sender.stream = sent.flatten

/-! ## Every step keeps the stream -/

theorem Intact.new : Intact [] Sender.new := by
  constructor
  · exact Buffer.WellFormed.new (by decide)
  · simp [Sender.new, WriteStage.inTransit]
  · rfl

theorem Intact.sendMessage
    {sent : List Message} {sender : Sender} (hintact : Intact sent sender)
    {message : Message} (hshort : message.length < 2147483648) :
    Intact (sent ++ [message]) (sender.sendMessage message) := by
  constructor
  · exact hintact.wellFormed
  · intro other hmem
    simp only [Sender.sendMessage, ← List.append_assoc] at hmem
    rcases List.mem_append.mp hmem with hold | hnew
    · exact hintact.short other hold
    · rw [List.mem_singleton.mp hnew]
      exact hshort
  · have hstream := hintact.stream
    unfold Sender.stream at hstream ⊢
    simp only [Sender.sendMessage, List.flatten_append,
      List.flatten_singleton, ← hstream, List.append_assoc]

theorem Intact.onWriteStep
    {sent : List Message} {sender next : Sender}
    (hintact : Intact sent sender)
    (hstep : sender.onWriteStep = some next) :
    Intact sent next := by
  have hshort := hintact.short
  have hstream := hintact.stream
  unfold Sender.stream at hstream
  unfold Sender.onWriteStep at hstep
  split at hstep
  next hstage =>
    rw [hstage] at hshort hstream
    split at hstep
    next =>
      simp only [Option.some.injEq] at hstep
      subst next
      exact ⟨hintact.wellFormed, hshort, hstream⟩
    next =>
      simp only [Option.some.injEq] at hstep
      exact hstep ▸ hintact
  next hstage =>
    rw [hstage] at hshort hstream
    simp only [Option.some.injEq] at hstep
    subst next
    constructor
    · exact hintact.wellFormed
    · simpa [WriteStage.inTransit] using hshort
    · simpa [Sender.stream, WriteStage.inTransit] using hstream
  next message rest hstage =>
    rw [hstage] at hshort hstream
    have hmessage : message.length < 2147483648 :=
      hshort message (by simp [WriteStage.inTransit])
    rw [Nat.mod_eq_of_lt (by omega), List.take_length,
      Option.map_eq_some_iff] at hstep
    rcases hstep with ⟨buffer, hbuffer, heq⟩
    subst next
    have happended := hintact.wellFormed.append hmessage hbuffer
    constructor
    · exact happended.1
    · intro other hmem
      apply hshort other
      simp only [WriteStage.inTransit, List.cons_append] at hmem ⊢
      exact List.mem_cons_of_mem _ hmem
    · simp only [Sender.stream, WriteStage.inTransit, happended.2]
      simpa [WriteStage.inTransit] using hstream
  next => simp at hstep
  next => simp at hstep

theorem Intact.afterWrite
    {sent : List Message} {sender : Sender} {count : ℕ}
    (hstage : sender.stage = .appending [])
    (hintact : Intact sent sender)
    (hcount : count ≤ sender.sndBuffer.readableLength) :
    Intact sent
      (Sender.afterWrite count
        { sender with
          accepted :=
            sender.accepted ++ sender.sndBuffer.readable.take count }) := by
  have hshort := hintact.short
  have hstream := hintact.stream
  unfold Sender.stream at hstream
  rw [hstage] at hshort hstream
  unfold Sender.afterWrite
  rw [if_neg (by omega)]
  split
  next hzero =>
    have hnone : count = 0 := by omega
    subst count
    constructor
    · exact hintact.wellFormed
    · exact hshort
    · simpa [Sender.stream, WriteStage.inTransit] using hstream
  next =>
    have hread := hintact.wellFormed.hasRead hcount
    have hbuffer :
        ∀ buffer : Buffer,
          buffer.WellFormed →
            buffer.readable = sender.sndBuffer.readable.drop count →
              Intact sent
                { sender with
                  accepted :=
                    sender.accepted ++
                      sender.sndBuffer.readable.take count
                  sndBuffer := buffer
                  stage := .idle } := by
      intro buffer hformed hreadable
      constructor
      · exact hformed
      · exact hshort
      · simp only [Sender.stream, hreadable, List.append_assoc]
        rw [← List.append_assoc (List.take count _),
          List.take_append_drop]
        simpa [WriteStage.inTransit] using hstream
    simp only [Int.toNat_natCast]
    split
    next =>
      have hretrieved := hread.1.retrieve
      exact hbuffer _ hretrieved.1 (hretrieved.2.trans hread.2)
    next => exact hbuffer _ hread.1 hread.2

theorem Intact.writeReturns
    {sent : List Message} {sender next : Sender} {returned : ℤ}
    {errno : SocketOption.Errno} (hintact : Intact sent sender)
    (hfits : returned < 2147483648)
    (hstep : sender.writeReturns returned errno = some next) :
    Intact sent next := by
  unfold Sender.writeReturns at hstep
  split at hstep
  next hstage =>
    split at hstep
    next hrange =>
      simp only [Option.some.injEq] at hstep
      subst next
      by_cases herror : returned = -1
      · subst returned
        have hnone := SocketOption.transferred_neg_one errno
        have hstream := hintact.stream
        unfold Sender.stream at hstream
        rw [hstage] at hstream
        have hshort := hintact.short
        rw [hstage] at hshort
        unfold Sender.afterWrite SocketOption.write
        split
        next =>
          exact ⟨hintact.wellFormed, hshort, by
            simpa [Sender.stream, WriteStage.inTransit] using hstream⟩
        next hnonneg =>
          rw [if_pos (by omega)]
          exact ⟨hintact.wellFormed, hshort, by
            simpa [Sender.stream, WriteStage.inTransit] using hstream⟩
      · have hcount :=
          SocketOption.transferred_of_bounds errno
            (by omega : 0 ≤ returned) hfits
        have hcast : returned = (returned.toNat : ℤ) := by omega
        have hafter :=
          hintact.afterWrite hstage (by omega : returned.toNat ≤ _)
        rw [SocketOption.write, hcount]
        rw [← hcast] at hafter
        exact hafter
    next => simp at hstep
  next => simp at hstep

theorem Intact.step
    {sent : List Message} {sender next : Sender} {label : SendLabel}
    (hintact : Intact sent sender)
    (hfits : MessageFits label ∧ CountFits label)
    (hstep : sender.step label = some next) :
    Intact (sent ++ sentMessages [label]) next := by
  cases label with
  | sendMessage message =>
      simp only [Sender.step, Option.some.injEq] at hstep
      exact hstep ▸ hintact.sendMessage hfits.1
  | onWrite =>
      simpa [sentMessages] using hintact.onWriteStep hstep
  | write returned errno =>
      simpa [sentMessages] using hintact.writeReturns hfits.2 hstep

theorem Intact.run
    {sent : List Message} {sender final : Sender}
    {labels : List SendLabel} (hintact : Intact sent sender)
    (hrun : Execution.run Sender.step sender labels = some final)
    (hfits : ∀ label ∈ labels, MessageFits label ∧ CountFits label) :
    Intact (sent ++ sentMessages labels) final := by
  induction labels generalizing sent sender with
  | nil =>
      simp only [Execution.run, Option.some.injEq] at hrun
      simpa [sentMessages, hrun] using hintact
  | cons label labels ih =>
      rcases (run_cons_eq_some_iff _).mp hrun with ⟨next, hstep, hrest⟩
      have hnext := hintact.step (hfits label (by simp)) hstep
      have hfinal :=
        ih hnext hrest (fun other hother => hfits other (by simp [hother]))
      have hsplit :
          sentMessages (label :: labels) =
            sentMessages [label] ++ sentMessages labels := by
        simp only [sentMessages]
        rw [← List.filterMap_append, List.singleton_append]
      rw [hsplit, ← List.append_assoc]
      exact hfinal

/-- Whatever the threads do and however the socket splits the stream, as long
as no single `write` takes `2 ^ 31` bytes or more, every byte is in exactly one
place and all of them are in order.  Messages are in transit only while the
loop thread copies them. -/
theorem outgoing_stream_intact
    {labels : List SendLabel} {sender : Sender}
    (hrun : Execution.run Sender.step Sender.new labels = some sender)
    (hmessages : ∀ label ∈ labels, MessageFits label)
    (hcounts : ∀ label ∈ labels, CountFits label) :
    sender.accepted ++ sender.sndBuffer.readable ++
          sender.stage.inTransit.flatten ++ sender.sndMessages.flatten =
        (sentMessages labels).flatten ∧
      ((∀ rest, sender.stage ≠ .appending rest) →
        sender.accepted ++ sender.sndBuffer.readable ++
            sender.sndMessages.flatten =
          (sentMessages labels).flatten) := by
  have hintact : Intact ([] ++ sentMessages labels) sender :=
    Intact.new.run hrun
      (fun label hlabel => ⟨hmessages label hlabel, hcounts label hlabel⟩)
  have hstream := hintact.stream
  unfold Sender.stream at hstream
  rw [List.nil_append] at hstream
  refine ⟨hstream, ?_⟩
  intro hstage
  cases hcase : sender.stage with
  | appending rest => exact (hstage rest hcase).elim
  | idle => simpa [hcase, WriteStage.inTransit] using hstream
  | dataFound => simpa [hcase, WriteStage.inTransit] using hstream
  | failed => simpa [hcase, WriteStage.inTransit] using hstream

/-- The socket takes two of three bytes while another message is queued. -/
theorem outgoing_stream_intact_partial_write :
    ∃ sender,
      Execution.run Sender.step Sender.new
          [.sendMessage [1, 2, 3], .onWrite, .onWrite, .sendMessage [4],
            .onWrite, .write 2 .other] =
        some sender ∧
      sender.accepted = [1, 2] ∧ sender.sndMessages = [[4]] ∧
      sender.accepted ++ sender.sndBuffer.readable ++
          sender.sndMessages.flatten =
        [1, 2, 3, 4] := by
  have hrun :
      ∃ sender,
        Execution.run Sender.step Sender.new
            [.sendMessage [1, 2, 3], .onWrite, .onWrite, .sendMessage [4],
              .onWrite, .write 2 .other] =
          some sender ∧
        sender.accepted = [1, 2] ∧ sender.sndMessages = [[4]] ∧
        sender.stage = .idle :=
    ⟨_, rfl, rfl, rfl, rfl⟩
  rcases hrun with ⟨sender, hrun, haccepted, hqueued, hstage⟩
  have hstream :=
    outgoing_stream_intact hrun (by simp [MessageFits])
      (by simp [CountFits])
  exact ⟨sender, hrun, haccepted, hqueued,
    hstream.2 (by simp [hstage])⟩

/-! ## A count that does not fit an `int` -/

theorem run_appending
    {sender : Sender} {rest : List Message}
    (hstage : sender.stage = .appending rest)
    (hsize :
      sender.sndBuffer.size + rest.length * 2147483648 ≤
        18446744073709551616) :
    ∃ next,
      Execution.run Sender.step sender
          (List.replicate rest.length .onWrite) = some next ∧
        next.stage = .appending [] ∧ next.accepted = sender.accepted ∧
        next.sndMessages = sender.sndMessages := by
  induction rest generalizing sender with
  | nil => exact ⟨sender, rfl, hstage, rfl, rfl⟩
  | cons message rest ih =>
      simp only [List.length_cons] at hsize
      rcases Buffer.WellFormed.append_succeeds
          (message.take (message.length % 4294967296))
          (by omega : sender.sndBuffer.size + 2147483648 ≤ _) with
        ⟨buffer, hbuffer, hgrown⟩
      let copied : Sender :=
        { sender with sndBuffer := buffer, stage := .appending rest }
      have hstep : sender.step .onWrite = some copied := by
        simp only [Sender.step, Sender.onWriteStep, hstage, hbuffer,
          Option.map_some]
        rfl
      have hroom :
          copied.sndBuffer.size + rest.length * 2147483648 ≤
            18446744073709551616 := by
        simp only [copied]
        omega
      rcases ih rfl hroom with ⟨next, hrun, hnext⟩
      refine ⟨next, ?_, hnext⟩
      rw [List.length_cons, List.replicate_succ]
      exact (run_cons_eq_some_iff _).mpr ⟨_, hstep, hrun⟩

/-- The socket takes `2 ^ 32` bytes at once.  The wrapper reports zero, the
bytes stay in the buffer, and the next `OnWrite` sends them again. -/
theorem outgoing_stream_not_intact :
    ¬ ∀ (labels : List SendLabel) (sender : Sender),
      Execution.run Sender.step Sender.new labels = some sender →
        (∀ label ∈ labels, MessageFits label) →
          (∀ rest, sender.stage ≠ .appending rest) →
            sender.accepted ++ sender.sndBuffer.readable ++
                sender.sndMessages.flatten =
              (sentMessages labels).flatten := by
  intro hclaim
  have hmessage : ∃ message : Message, message.length = 1073741824 :=
    ⟨List.replicate 1073741824 0, List.length_replicate⟩
  rcases hmessage with ⟨message, hlength⟩
  let queueing : List SendLabel :=
    [.sendMessage message, .sendMessage message, .sendMessage message,
      .sendMessage message, .onWrite, .onWrite]
  have hqueued :
      ∃ sender,
        Execution.run Sender.step Sender.new queueing = some sender ∧
          sender.stage = .appending [message, message, message, message] ∧
          sender.sndBuffer.size = 1024 ∧ sender.accepted = [] ∧
          sender.sndMessages = [] :=
    ⟨_, rfl, rfl, rfl, rfl, rfl⟩
  rcases hqueued with ⟨queued, hqueueing, hstage, hsize, hnone, hempty⟩
  rcases run_appending hstage (by rw [hsize]; simp) with
    ⟨filled, hcopying, hfilled, haccepted, hmessages⟩
  let copying : List SendLabel := List.replicate 4 .onWrite
  have hrun :
      Execution.run Sender.step Sender.new (queueing ++ copying) =
        some filled := by
    rw [run_append _ hqueueing]
    exact hcopying
  have hfits :
      ∀ label ∈ queueing ++ copying,
        MessageFits label ∧ CountFits label := by
    simp [queueing, copying, MessageFits, CountFits, hlength]
  have hintact := Intact.new.run hrun hfits
  have htotal : filled.sndBuffer.readable.length = 4294967296 := by
    have hstream := congrArg List.length hintact.stream
    simp only [Sender.stream, hfilled, haccepted, hnone, hmessages, hempty,
      WriteStage.inTransit] at hstream
    simpa [queueing, copying, sentMessages, hlength] using hstream
  have hoffered : filled.sndBuffer.readableLength = 4294967296 := by
    simpa [Buffer.readable] using htotal
  have hwritten :
      ∃ sender,
        filled.step (.write 4294967296 .other) = some sender ∧
          sender.stage = .idle ∧ sender.sndMessages = [] ∧
          sender.accepted.length = 4294967296 ∧
          sender.sndBuffer = filled.sndBuffer := by
    have hreported :
        SocketOption.write 4294967296 .other = 0 := by
      decide
    simp only [Sender.step, Sender.writeReturns, hfilled, hoffered,
      hreported]
    refine ⟨_, rfl, rfl, ?_, ?_, rfl⟩
    · exact hmessages.trans hempty
    · simp [Sender.afterWrite, haccepted, hnone, htotal]
  rcases hwritten with ⟨sender, hstep, hidle, hleft, htaken, hbuffer⟩
  have hwhole :
      Execution.run Sender.step Sender.new
          (queueing ++ copying ++ [.write 4294967296 .other]) =
        some sender := by
    rw [run_append _ hrun]
    exact (run_cons_eq_some_iff _).mpr ⟨sender, hstep, rfl⟩
  have hbytes :=
    hclaim _ sender hwhole
      (by simp [queueing, copying, MessageFits, hlength])
      (by simp [hidle])
  have hlengths := congrArg List.length hbytes
  rw [hbuffer, hleft] at hlengths
  simp [queueing, copying, sentMessages, hlength, htaken, htotal] at hlengths

end GreenTurtle.BufferedSocket
