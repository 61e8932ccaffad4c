import GreenTurtle.ConnNotifications
import GreenTurtle.FramedLink
import GreenTurtle.LittleEndian
import Mathlib.Tactic

/-!
# The broadcast protocol

`broadcast_message.h`, `broadcast_server.cc` and `broadcast_client.cc` of
`test/net`.  A command starts with its length and its type.  Server and client
take commands off their buffers in the same loop; only the server gives up at a
command of length zero.  The server's main thread sends to the connections in
`task_manager_`, which the two callbacks of the connection manager maintain.
-/

namespace GreenTurtle.Broadcast

open BufferedSocket
open Connections
open Execution
open Framing
open LittleEndian
open Memory

/-! ## Commands -/

/-- `sizeof(Command)`. -/
def commandSize : ℕ := 4

/-- `sizeof(EchoCommand)` and `sizeof(BroadCastCommand)`. -/
def textCommandSize : ℕ := 6

def kCommandTypeEcho : ℕ := 1

/-- The message of `RandMessage` for a type and the text that `snprintf` has
written. -/
def textCommand (type : ℕ) (text : List Byte) : List Byte :=
  encode 2 (textCommandSize + text.length) ++ encode 2 type ++
    encode 2 text.length ++ text

def lenField (bytes : List Byte) : ℕ := decode (bytes.take 2)

def typeField (bytes : List Byte) : ℕ := decode ((bytes.drop 2).take 2)

/-- What both decoders take as one command.  Their assertions let a command of
four bytes pass as well, but the test `>` leaves it lying until more bytes
arrive. -/
structure IsCommand (bytes : List Byte) : Prop where
  size_gt : commandSize < bytes.length
  size_lt : bytes.length < 2000
  len_eq : lenField bytes = bytes.length
  type_lt : typeField bytes < 3

instance (bytes : List Byte) : Decidable (IsCommand bytes) :=
  decidable_of_iff
    (commandSize < bytes.length ∧ bytes.length < 2000 ∧
      lenField bytes = bytes.length ∧ typeField bytes < 3)
    ⟨fun h => ⟨h.1, h.2.1, h.2.2.1, h.2.2.2⟩,
      fun h => ⟨h.1, h.2, h.3, h.4⟩⟩

theorem textCommand_isCommand
    {type : ℕ} (htype : type < 3) {text : List Byte}
    (htext : text.length < 300) : IsCommand (textCommand type text) := by
  have hlength :
      (textCommand type text).length = textCommandSize + text.length := by
    simp only [textCommand, List.length_append, length_encode,
      textCommandSize]
  unfold textCommandSize at hlength
  constructor
  · rw [hlength]
    unfold commandSize
    omega
  · rw [hlength]
    omega
  · rw [hlength]
    simp only [lenField, textCommand, List.append_assoc]
    rw [List.take_left' (length_encode 2 _),
      decode_encode_of_lt (by unfold textCommandSize; omega)]
    rfl
  · simp only [typeField, textCommand, List.append_assoc]
    rw [List.drop_left' (length_encode 2 _),
      List.take_left' (length_encode 2 _), decode_encode_of_lt (by omega)]
    exact htype

/-! ## The decoders -/

/-- The loop of `Decoding`.  There is no result when an assertion fails or when
the loop goes on longer than the fuel.  The server breaks off at a command of
length zero. -/
def commandLoop {γ : Type} (breaksAtZero : Bool)
    (hand : List Byte → γ → γ) : ℕ → Buffer → γ → Option (Buffer × γ)
  | 0, _, _ => none
  | fuel + 1, data, memory =>
      let len := lenField (slice data.array data.read commandSize)
      if commandSize < data.readableLength ∧ len ≤ data.readableLength then
        if len < 2000 ∧
            typeField (slice data.array data.read commandSize) < 3 then
          if breaksAtZero ∧ len = 0 then some (data, memory)
          else
            commandLoop breaksAtZero hand fuel (data.hasRead len)
              (hand (slice data.array data.read len) memory)
        else none
      else some (data, memory)

/-- A command takes at least one byte, so one iteration more than there are
bytes is enough. -/
def commandDecoding {γ : Type} (breaksAtZero : Bool)
    (hand : List Byte → γ → γ) : Application γ := fun data state =>
  (commandLoop breaksAtZero hand (data.readableLength + 1) data
    state.1).map fun decoded => (decoded.1, (decoded.2, state.2))

/-- `BroadCastTask::Decoding`, with the commands that it passes to
`PushMessage`. -/
def serverDecoding : Application (List (List Byte)) :=
  commandDecoding true fun command pushed => pushed ++ [command]

/-- The commands that a client has seen, and `recv_message_count`. -/
structure ClientMemory where
  commands : List (List Byte)
  recvMessageCount : ℕ → ℕ

/-- `BroadCastClient::Decoding`. -/
def clientDecoding : Application ClientMemory :=
  commandDecoding false fun command memory =>
    { commands := memory.commands ++ [command]
      recvMessageCount :=
        Function.update memory.recvMessageCount (typeField command)
          (memory.recvMessageCount (typeField command) + 1) }

/-! ## The loop on commands -/

section Loop

variable {γ : Type} {breaksAtZero : Bool} {hand : List Byte → γ → γ}

/-- The head of a command can be read from any beginning that covers it. -/
theorem fields_of_begins
    {f part : List Byte} (hpart : part <+: f)
    (hlength : commandSize ≤ part.length) :
    lenField (part.take commandSize) = lenField f ∧
      typeField (part.take commandSize) = typeField f := by
  unfold commandSize at hlength
  obtain ⟨rest, rfl⟩ := hpart
  constructor
  · unfold lenField commandSize
    rw [List.take_take, List.take_append_of_le_length (by omega)]
    rfl
  · unfold typeField commandSize
    rw [List.drop_take, List.take_take,
      List.drop_append_of_le_length (by omega),
      List.take_append_of_le_length (by rw [List.length_drop]; omega)]
    rfl

theorem slice_head
    {data : Buffer} {count : ℕ} (hcount : count ≤ data.readableLength) :
    slice data.array data.read count = data.readable.take count :=
  (take_slice data.array data.read hcount).symm

theorem commandLoop_command
    (fuel : ℕ) {data : Buffer} (memory : γ) {f rest : List Byte}
    (hcommand : IsCommand f) (hreadable : data.readable = f ++ rest) :
    commandLoop breaksAtZero hand (fuel + 1) data memory =
      commandLoop breaksAtZero hand fuel (data.hasRead f.length)
        (hand f memory) := by
  have hlength : data.readableLength = f.length + rest.length := by
    rw [← data.length_readable, hreadable, List.length_append]
  have hgt := hcommand.size_gt
  have hlt := hcommand.size_lt
  have hhead :
      slice data.array data.read commandSize = f.take commandSize := by
    rw [slice_head (by omega), hreadable,
      List.take_append_of_le_length (by omega)]
  obtain ⟨hlen, htype⟩ :=
    fields_of_begins (List.prefix_refl f) (by omega : commandSize ≤ _)
  have hwhole : slice data.array data.read f.length = f := by
    rw [slice_head (by omega), hreadable, List.take_left]
  simp only [commandLoop, hhead, hlen, htype, hcommand.len_eq, hwhole]
  rw [if_pos ⟨by omega, by omega⟩, if_pos ⟨hlt, hcommand.type_lt⟩,
    if_neg (by rintro ⟨-, hzero⟩; omega)]

theorem commandLoop_unfinished
    (fuel : ℕ) {data : Buffer} (memory : γ)
    (hpart : Unfinished IsCommand data.readable) :
    commandLoop breaksAtZero hand (fuel + 1) data memory =
      some (data, memory) := by
  obtain ⟨f, hcommand, hbegins, hproper⟩ := hpart
  have hlength := data.length_readable
  have hshort : data.readable.length < f.length :=
    lt_of_le_of_ne hbegins.length_le fun hequal =>
      hproper (hbegins.eq_of_length hequal)
  simp only [commandLoop]
  by_cases hhead : commandSize < data.readableLength
  · have hlen :
        lenField (slice data.array data.read commandSize) = f.length := by
      rw [slice_head hhead.le,
        (fields_of_begins hbegins (by omega)).1, hcommand.len_eq]
    rw [if_neg (by rw [hlen]; omega)]
  · rw [if_neg (by omega)]

/-- All commands are handed on, and what is left is not. -/
theorem commandLoop_commands
    {whole : List (List Byte)} {fuel : ℕ} {data : Buffer} {memory : γ}
    {part : List Byte} (hwhole : ∀ f ∈ whole, IsCommand f)
    (hpart : Unfinished IsCommand part) (hformed : data.WellFormed)
    (hreadable : data.readable = whole.flatten ++ part)
    (hfuel : whole.length < fuel) :
    commandLoop breaksAtZero hand fuel data memory =
      some (data.hasRead whole.flatten.length,
        whole.foldl (fun memory f => hand f memory) memory) := by
  induction whole generalizing fuel data memory with
  | nil =>
      obtain ⟨fuel, rfl⟩ := Nat.exists_eq_add_of_lt hfuel
      rw [List.flatten_nil, List.nil_append] at hreadable
      rw [commandLoop_unfinished _ _ (hreadable ▸ hpart)]
      simp [Buffer.hasRead]
  | cons f whole ih =>
      obtain ⟨fuel, rfl⟩ : ∃ less, fuel = less + 1 :=
        Nat.exists_eq_succ_of_ne_zero (by omega)
      rw [List.forall_mem_cons] at hwhole
      rw [List.flatten_cons, List.append_assoc] at hreadable
      have hbound : f.length ≤ data.readableLength := by
        rw [← data.length_readable, hreadable, List.length_append]
        omega
      have hread := hformed.hasRead hbound
      have hrest :
          (data.hasRead f.length).readable = whole.flatten ++ part := by
        rw [hread.2, hreadable, List.drop_left]
      rw [commandLoop_command fuel memory hwhole.1 hreadable,
        ih hwhole.2 hread.1 hrest (by simpa using hfuel),
        Buffer.hasRead_hasRead]
      simp

theorem commandLoop_consumes
    {fuel : ℕ} {data : Buffer} {memory : γ} {decoded : Buffer × γ}
    (hformed : data.WellFormed)
    (hdecoded :
      commandLoop breaksAtZero hand fuel data memory = some decoded) :
    ∃ count, count ≤ data.readableLength ∧
      decoded.1 = data.hasRead count := by
  induction fuel generalizing data memory with
  | zero => cases hdecoded
  | succ fuel ih =>
      simp only [commandLoop] at hdecoded
      generalize lenField (slice data.array data.read commandSize) = len
        at hdecoded
      split at hdecoded
      next hcomplete =>
        split at hdecoded
        next =>
          split at hdecoded
          next =>
            obtain rfl := Option.some.inj hdecoded
            exact ⟨0, Nat.zero_le _, rfl⟩
          next =>
            have hread := hformed.hasRead hcomplete.2
            obtain ⟨count, hcount, hrest⟩ := ih hread.1 hdecoded
            rw [hformed.readableLength_hasRead hcomplete.2] at hcount
            refine ⟨len + count, by omega, ?_⟩
            rw [hrest, Buffer.hasRead_hasRead]
        next => cases hdecoded
      next =>
        obtain rfl := Option.some.inj hdecoded
        exact ⟨0, Nat.zero_le _, rfl⟩

theorem length_le_flatten
    {whole : List (List Byte)} (hwhole : ∀ f ∈ whole, IsCommand f) :
    whole.length ≤ whole.flatten.length := by
  induction whole with
  | nil => exact le_rfl
  | cons f whole ih =>
      rw [List.forall_mem_cons] at hwhole
      have hsize := hwhole.1.size_gt
      have hrest := ih hwhole.2
      rw [List.length_cons, List.flatten_cons, List.length_append]
      omega

theorem commandDecoding_cuts
    {handed : γ → List (List Byte)}
    (hhand :
      ∀ command memory,
        handed (hand command memory) = handed memory ++ [command]) :
    Cuts IsCommand (commandDecoding breaksAtZero hand) handed := by
  have hall :
      ∀ (whole : List (List Byte)) (memory : γ),
        handed (whole.foldl (fun memory f => hand f memory) memory) =
          handed memory ++ whole := by
    intro whole
    induction whole with
    | nil => simp
    | cons f whole ih =>
        intro memory
        rw [List.foldl_cons, ih, hhand, List.append_assoc,
          List.singleton_append]
  constructor
  · constructor
    · intro buffer state decoded hformed hdecoded
      obtain ⟨result, hresult, rfl⟩ := Option.map_eq_some_iff.mp hdecoded
      have hconsumed := commandLoop_consumes hformed hresult
      exact hconsumed
    · intro buffer memory decoded hdecoded message hmessage
      obtain ⟨result, -, rfl⟩ := Option.map_eq_some_iff.mp hdecoded
      simp at hmessage
  · intro data memory whole part hformed hwhole hpart hreadable
    have hcount := length_le_flatten hwhole
    have hlength := congrArg List.length hreadable
    rw [List.length_append, data.length_readable] at hlength
    refine ⟨_, by
      rw [commandDecoding, commandLoop_commands hwhole hpart hformed
        hreadable (by omega), Option.map_some], rfl, ?_⟩
    exact hall whole memory

end Loop

theorem serverDecoding_cuts : Cuts IsCommand serverDecoding id :=
  commandDecoding_cuts fun _ _ => rfl

theorem clientDecoding_cuts :
    Cuts IsCommand clientDecoding ClientMemory.commands :=
  commandDecoding_cuts fun _ _ => rfl

/-- The decoders differ at a command of length zero: the server leaves it where
it is, and the client goes round for ever. -/
theorem commandLoop_zero
    {γ : Type} {hand : List Byte → γ → γ} {data : Buffer}
    (hsize : commandSize < data.readableLength)
    (hlen : lenField (slice data.array data.read commandSize) = 0)
    (htype : typeField (slice data.array data.read commandSize) < 3)
    (fuel : ℕ) (memory : γ) :
    commandLoop true hand (fuel + 1) data memory = some (data, memory) ∧
      commandLoop false hand fuel data memory = none := by
  constructor
  · simp [commandLoop, hlen, htype, hsize]
  · induction fuel generalizing memory with
    | zero => rfl
    | succ fuel ih =>
        have hsame : data.hasRead 0 = data := rfl
        simp [commandLoop, hlen, htype, hsize, hsame, ih]

/-! ## Commands across a connection -/

/-- Each counter is the number of commands of its type. -/
def Counted (memory : ClientMemory) : Prop :=
  ∀ type, memory.recvMessageCount type =
    memory.commands.countP fun command => typeField command = type

def ClientMemory.new : ClientMemory where
  commands := []
  recvMessageCount := fun _ => 0

theorem counted_hand {memory : ClientMemory} (hcounted : Counted memory)
    (command : List Byte) :
    Counted
      { commands := memory.commands ++ [command]
        recvMessageCount :=
          Function.update memory.recvMessageCount (typeField command)
            (memory.recvMessageCount (typeField command) + 1) } := by
  intro type
  rw [List.countP_append]
  by_cases hsame : type = typeField command
  · subst type
    simp [hcounted (typeField command)]
  · simp [Function.update_of_ne hsame, hcounted type, Ne.symm hsame]

theorem commandLoop_memory
    {γ : Type} {breaksAtZero : Bool} {hand : List Byte → γ → γ}
    (inv : γ → Prop)
    (hhand : ∀ command memory, inv memory → inv (hand command memory))
    {fuel : ℕ} {data : Buffer} {memory : γ} {decoded : Buffer × γ}
    (hinv : inv memory)
    (hdecoded :
      commandLoop breaksAtZero hand fuel data memory = some decoded) :
    inv decoded.2 := by
  induction fuel generalizing data memory with
  | zero => cases hdecoded
  | succ fuel ih =>
      simp only [commandLoop] at hdecoded
      split at hdecoded
      next =>
        split at hdecoded
        next =>
          split at hdecoded
          next =>
            obtain rfl := Option.some.inj hdecoded
            exact hinv
          next => exact ih (hhand _ _ hinv) hdecoded
        next => cases hdecoded
      next =>
        obtain rfl := Option.some.inj hdecoded
        exact hinv

theorem clientDecoding_counted
    (data : Buffer) (memory : ClientMemory)
    (decoded : Buffer × (ClientMemory × List Message))
    (hcounted : Counted memory)
    (hdecoded : clientDecoding data (memory, []) = some decoded) :
    Counted decoded.2.1 := by
  obtain ⟨result, hresult, rfl⟩ := Option.map_eq_some_iff.mp hdecoded
  exact commandLoop_memory Counted (fun command _ hmemory =>
    counted_hand hmemory command) hcounted hresult

theorem unfinished_nil : Unfinished IsCommand [] := by
  refine ⟨textCommand kCommandTypeEcho [], ?_, List.nil_prefix, ?_⟩
  · exact textCommand_isCommand (by decide) (by decide)
  · decide

/-- A client and the server.  As long as both send only commands, what the
server has pushed is a beginning of what the client has sent, what the client
has counted is a beginning of what the server has sent, each command once and
as it was.  Between two calls of `OnRead` no complete command is left waiting,
and no assertion fails. -/
theorem commands_cross_connection
    {labels : List LinkLabel} {final : Link ClientMemory (List (List Byte))}
    (hfits : ∀ label ∈ labels, Link.Fits label)
    (hrun :
      run (Link.step clientDecoding serverDecoding)
        (Link.new ClientMemory.new []) labels = some final)
    (hclient : ∀ message ∈ final.left.sent, IsCommand message)
    (hserver : ∀ message ∈ final.right.sent, IsCommand message) :
    final.right.memory <+: final.left.sent ∧
      final.left.memory.commands <+: final.right.sent ∧
      (∀ type, final.left.memory.recvMessageCount type =
        final.left.memory.commands.countP
          fun command => typeField command = type) ∧
      (final.right.receiver.stage = .idle →
        ∃ part, Unfinished IsCommand part ∧
          final.right.receiver.received =
            final.right.memory.flatten ++ part) ∧
      (final.left.receiver.stage = .idle →
        ∃ part, Unfinished IsCommand part ∧
          final.left.receiver.received =
            final.left.memory.commands.flatten ++ part) ∧
      (final.right.receiver.stage = .decoding →
        (final.right.step serverDecoding .decode).isSome) ∧
      (final.left.receiver.stage = .decoding →
        (final.left.step clientDecoding .decode).isSome) := by
  have hback := Link.run_swap hrun
  have hthere : Framed IsCommand id final :=
    Framed.run clientDecoding_cuts.orderly serverDecoding_cuts
      unfinished_nil rfl hfits hrun
  have hother : Framed IsCommand ClientMemory.commands final.swap :=
    Framed.run serverDecoding_cuts.orderly clientDecoding_cuts
      unfinished_nil rfl (Link.fits_swap hfits) hback
  have hcounted : Counted final.swap.right.memory :=
    Link.run_memory Counted clientDecoding_counted
      (by intro type; rfl) hback
  refine ⟨(hthere.delivered hclient).handed_begins,
    (hother.delivered hserver).handed_begins, hcounted, ?_, ?_, ?_, ?_⟩
  · exact hthere.received_eq hclient
  · exact hother.received_eq hserver
  · exact hthere.decode_isSome serverDecoding_cuts unfinished_nil hclient
  · exact hother.decode_isSome clientDecoding_cuts unfinished_nil hserver

/-- A command arrives in two pieces, the first one shorter than its head. -/
theorem commands_cross_connection_split_head :
    ∃ final,
      run (Link.step clientDecoding serverDecoding)
          (Link.new ClientMemory.new [])
          [.left (.sendMessage (textCommand 1 [65])), .left .onWrite,
            .left .onWrite, .left .onWrite, .left (.write 7 .other),
            .right (.readv [7, 0, 1] .other), .right .decode,
            .right .onRead, .right (.readv [0, 1, 0, 65] .other),
            .right .decode] =
        some final ∧
      final.right.memory = [textCommand 1 [65]] ∧
      final.right.memory <+: final.left.sent := by
  have hrun :
      ∃ final,
        run (Link.step clientDecoding serverDecoding)
            (Link.new ClientMemory.new [])
            [.left (.sendMessage (textCommand 1 [65])), .left .onWrite,
              .left .onWrite, .left .onWrite, .left (.write 7 .other),
              .right (.readv [7, 0, 1] .other), .right .decode,
              .right .onRead, .right (.readv [0, 1, 0, 65] .other),
              .right .decode] =
          some final ∧
        final.right.memory = [textCommand 1 [65]] ∧
        final.left.sent = [textCommand 1 [65]] ∧ final.right.sent = [] :=
    ⟨_, rfl, rfl, rfl, rfl⟩
  obtain ⟨final, hfinal, hpushed, hsent, hnothing⟩ := hrun
  have hcommand : IsCommand (textCommand 1 [65]) :=
    textCommand_isCommand (by decide) (by decide)
  have hcross :=
    commands_cross_connection
      (by
        simp [Link.Fits, PeerLabel.Fits, textCommand, textCommandSize])
      hfinal
      (by
        rw [hsent]
        simpa using hcommand)
      (by
        rw [hnothing]
        simp)
  exact ⟨final, hfinal, hpushed, hcross.1⟩

/-! ## Whom the server sends to -/

/-- `task_manager_`, from descriptors to connections. -/
abbrev TaskManager := List (Descriptor × HandlerId)

section Tasks

variable (fd : HandlerId → Descriptor)

def eraseTask (ptr : HandlerId) (tasks : TaskManager) : TaskManager :=
  tasks.filter fun entry => entry.1 ≠ fd ptr

def setTask (ptr : HandlerId) (tasks : TaskManager) : TaskManager :=
  eraseTask fd ptr tasks ++ [(fd ptr, ptr)]

/-- `RemoveTask` enters the connections that it is given. -/
def removeTask (set : List HandlerId) (tasks : TaskManager) : TaskManager :=
  set.foldl (fun tasks ptr => setTask fd ptr tasks) tasks

/-- `AddTask` erases them. -/
def addTask (set : List HandlerId) (tasks : TaskManager) : TaskManager :=
  set.foldl (fun tasks ptr => eraseTask fd ptr tasks) tasks

/-- The callbacks as `main` registers them. -/
def onNotice (tasks : TaskManager) : Notice → TaskManager
  | .added handlers => addTask fd handlers tasks
  | .removed handlers => removeTask fd handlers tasks

def taskManager (notices : List Notice) : TaskManager :=
  notices.foldl (onNotice fd) []

def getTask (descriptor : Descriptor) (tasks : TaskManager) :
    Option HandlerId :=
  (tasks.find? fun entry => entry.1 = descriptor).map Prod.snd

variable {fd}

theorem mem_addTask
    {set : List HandlerId} {tasks : TaskManager}
    {entry : Descriptor × HandlerId} (hentry : entry ∈ addTask fd set tasks) :
    entry ∈ tasks := by
  induction set generalizing tasks with
  | nil => exact hentry
  | cons ptr set ih => exact (List.mem_filter.mp (ih hentry)).1

theorem mem_removeTask
    {set : List HandlerId} {tasks : TaskManager}
    {entry : Descriptor × HandlerId}
    (hentry : entry ∈ removeTask fd set tasks) :
    entry ∈ tasks ∨ entry.2 ∈ set := by
  induction set generalizing tasks with
  | nil => exact .inl hentry
  | cons ptr set ih =>
      rcases ih hentry with hold | hset
      · rcases List.mem_append.mp hold with hkept | hnew
        · exact .inl (List.mem_filter.mp hkept).1
        · rw [List.mem_singleton.mp hnew]
          exact .inr List.mem_cons_self
      · exact .inr (List.mem_cons_of_mem _ hset)

/-- Only what was reported as removed is entered. -/
theorem mem_taskManager
    {notices : List Notice} {entry : Descriptor × HandlerId}
    (hentry : entry ∈ taskManager fd notices) :
    entry.2 ∈ removeNotified notices := by
  induction notices using List.reverseRecOn with
  | nil => simp [taskManager] at hentry
  | append_singleton notices notice ih =>
      rw [taskManager, List.foldl_append] at hentry
      rw [removeNotified, List.flatMap_append, List.mem_append]
      cases notice with
      | added handlers => exact .inl (ih (mem_addTask hentry))
      | removed handlers =>
          rcases mem_removeTask hentry with hold | hset
          · exact .inl (ih hold)
          · exact .inr (by simpa [Notice.removeSet] using hset)

theorem removalsKept_run
    {labels : List ConnLabel} {system : ConnSystem}
    (hrun :
      run (ConnSystem.step fd) ConnSystem.new labels = some system) :
    RemovalsKept system := by
  refine run_invariant (ConnSystem.step fd) RemovalsKept ?_
    (?_ : RemovalsKept ConnSystem.new) hrun
  · intro state label next hkept hnext
    cases label with
    | addConn ptr =>
        obtain rfl := Option.some.inj hnext
        exact hkept.addConn ptr
    | removeConn ptr =>
        obtain rfl := Option.some.inj hnext
        exact hkept.removeConn ptr
    | update => exact hkept.updateStep hnext
  · rfl

end Tasks

end GreenTurtle.Broadcast
