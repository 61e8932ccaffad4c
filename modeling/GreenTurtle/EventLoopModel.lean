import GreenTurtle.ConnManager
import GreenTurtle.SocketOption
import Mathlib.Tactic

/-!
# The event loop

`event_loop.cc`, `io_loop.cc`, `event_handler.cc`, `poller.cc`,
`tcp_acceptor.cc`, and the error paths of `buffered_socket.cc` and
`tcp_client.cc`.  Every `IoLoop` is run by a thread of its own.  A thread goes
through the stages of `IoLoop::Loop`, and each of its steps ends with at most
one call on something outside the loop object: a handler, the connection
manager, or another loop.  The main thread calls `ConnManager::Update` again
and again.

What the kernel answers is part of the label of a step: the descriptors that
are ready, each at most once, the results of `accept`, `readv` and `write`, the
order in which the hash table of a poller is walked, and whether a descriptor
could be registered.  The clocks are set by labels of their own and may step
backwards.  The bytes that a connection reads and writes are the subject of
other files; here only the results of its calls count.
-/

namespace GreenTurtle.SocketConfig

/-- In milliseconds. -/
def kSocketRecvTimeOut : ℕ := 60000

end GreenTurtle.SocketConfig

namespace GreenTurtle.EventLoops

open FixedWidth
open Connections
open SocketConfig
open SocketOption (Errno)

/-! ## Handlers -/

/-- An event mask: `kEventReadable` and `kEventWriteable`. -/
structure Events where
  readable : Bool
  writeable : Bool
  deriving DecidableEq

def kEventNone : Events := ⟨false, false⟩

def kEventReadable : Events := ⟨true, false⟩

def kEventReadWrite : Events := ⟨true, true⟩

/-- The classes derived from `EventHandler`: `TcpAcceptor`, `BufferedSocket`
and `TcpClient`. -/
inductive HandlerKind where
  | acceptor
  | connection
  | client
  deriving DecidableEq

def kErr : ℤ := -1

/-- The fields of a handler that change.  The last one is the index by which an
acceptor spreads new connections. -/
structure EventHandler where
  events : Events
  revents : Events
  lastActiveTime : ℕ
  eventLoop : Option ℕ
  idx : ℕ

def EventHandler.new (now : ℕ) : EventHandler where
  events := kEventNone
  revents := kEventNone
  lastActiveTime := now
  eventLoop := none
  idx := 0

def EventHandler.isTimeout (now : ℕ) (handler : EventHandler) : Bool :=
  kSocketRecvTimeOut ≤ toUInt64 (now - handler.lastActiveTime)

/-! ## Loops -/

/-- Where the thread of a loop is, with the local data it still needs. -/
inductive LoopStage where
  | top
  | handling (fired : List HandlerId)
  | reading (ptr : HandlerId) (fired : List HandlerId)
  | accepted (ptr newHandler : HandlerId) (fired : List HandlerId)
  | readFailed (ptr : HandlerId) (fired : List HandlerId)
  | writing (ptr : HandlerId) (fired : List HandlerId)
  | writeFailed (ptr : HandlerId) (fired : List HandlerId)
  | removed (ptr : HandlerId) (fired : List HandlerId)
  | shuttingDown (ptr : HandlerId) (fired : List HandlerId)
  | sweepDue
  | sweeping (handlers fired : List HandlerId)
  | posting (fired : List HandlerId)
  | waiting
  | changing (tempQueue : List (Bool × HandlerId))
  | stopped
  deriving DecidableEq

structure IoLoop where
  terminal : Bool
  checkTimeout : ℤ
  poller : List HandlerId
  changedHandler : List (Bool × HandlerId)
  stage : LoopStage

def IoLoop.new (seconds : ℤ) : IoLoop where
  terminal := false
  checkTimeout := seconds
  poller := []
  changedHandler := []
  stage := .top

/-- What the environment answers to the call a thread is about to make. -/
inductive Answer where
  | none
  | ready (descriptors : List (Descriptor × Events))
  | accept (returned : ℤ) (errno : Errno) (newHandler : HandlerId)
  | readv (returned : ℤ) (errno : Errno)
  | write (returned : ℤ) (errno : Errno)
  | order (handlers : List HandlerId)
  | registered (success : Bool)
  deriving DecidableEq

/-- The call on something outside the loop object that ends a step. -/
inductive LoopCall where
  | none
  | setRevents (found : List (HandlerId × Events))
  | setLastActive (ptr : HandlerId)
  | clearRevents (ptr : HandlerId)
  | addConn (newHandler : HandlerId)
  | addHandlerLater (acceptor newHandler : HandlerId)
  | removeConn (ptr : HandlerId)
  | onError (ptr : HandlerId)
  | setEventLoop (ptr : HandlerId)

section Handlers

variable (fd : HandlerId → Descriptor)

/-- `Poller::SetEventHandler` with a null pointer. -/
def eraseHandler (ptr : HandlerId) (poller : List HandlerId) :
    List HandlerId :=
  poller.filter (fun other => fd other ≠ fd ptr)

/-- `Poller::SetEventHandler` with a handler. -/
def insertHandler (ptr : HandlerId) (poller : List HandlerId) :
    List HandlerId :=
  eraseHandler fd ptr poller ++ [ptr]

/-- `PollOnce`: the handlers of the descriptors that are ready. -/
def pollOnce (poller : List HandlerId)
    (descriptors : List (Descriptor × Events)) :
    List (HandlerId × Events) :=
  descriptors.filterMap fun entry =>
    (poller.find? (fun ptr => fd ptr = entry.1)).map fun ptr =>
      (ptr, entry.2)

variable (kind : HandlerId → HandlerKind)

/-- One step of the thread of a loop. -/
def IoLoop.next
    (handlers : HandlerId → EventHandler) (milliSeconds : ℕ) (seconds : ℤ)
    (loop : IoLoop) (answer : Answer) : Option (IoLoop × LoopCall) :=
  match loop.stage, answer with
  -- `while (!terminal_)`
  | .top, .none =>
      if loop.terminal then some ({ loop with stage := .stopped }, .none)
      else none
  | .top, .ready descriptors =>
      if loop.terminal = false ∧ (descriptors.map Prod.fst).Nodup then
        some
          ({ loop with
              stage :=
                .handling
                  ((pollOnce fd loop.poller descriptors).map Prod.fst) },
            .setRevents (pollOnce fd loop.poller descriptors))
      else none
  -- `HandleEvent`
  | .handling (ptr :: fired), .none =>
      if (handlers ptr).events.readable ∧ (handlers ptr).revents.readable then
        some ({ loop with stage := .reading ptr fired }, .setLastActive ptr)
      else some ({ loop with stage := .writing ptr fired }, .none)
  | .reading ptr fired, .accept returned errno newHandler =>
      if kind ptr = .acceptor then
        if SocketOption.accept returned errno = kErr then
          some ({ loop with stage := .readFailed ptr fired }, .none)
        else if SocketOption.accept returned errno ≤ 0 then
          some ({ loop with stage := .writing ptr fired }, .none)
        else if kind newHandler = .connection ∧
            (fd newHandler).1 = SocketOption.accept returned errno then
          some
            ({ loop with stage := .accepted ptr newHandler fired },
              .addConn newHandler)
        else none
      else none
  | .reading ptr fired, .readv returned errno =>
      if kind ptr = .acceptor then none
      else if SocketOption.readv returned errno < 0 then
        some ({ loop with stage := .readFailed ptr fired }, .none)
      else some ({ loop with stage := .writing ptr fired }, .none)
  | .accepted ptr newHandler fired, .none =>
      some
        ({ loop with stage := .reading ptr fired },
          .addHandlerLater ptr newHandler)
  | .readFailed ptr fired, .none =>
      some ({ loop with stage := .handling fired }, .onError ptr)
  -- without a `write` there is nothing to send
  | .writing ptr fired, .none =>
      some ({ loop with stage := .handling fired }, .clearRevents ptr)
  | .writing ptr fired, .write returned errno =>
      if kind ptr ≠ .acceptor ∧ (handlers ptr).events.writeable ∧
          (handlers ptr).revents.writeable then
        if SocketOption.write returned errno < 0 then
          some ({ loop with stage := .writeFailed ptr fired }, .none)
        else some ({ loop with stage := .handling fired }, .clearRevents ptr)
      else none
  | .writeFailed ptr fired, .none =>
      some ({ loop with stage := .removed ptr fired }, .removeConn ptr)
  | .removed ptr fired, .none =>
      some ({ loop with stage := .shuttingDown ptr fired }, .onError ptr)
  -- `Shutdown` tries to write once more and ignores the result
  | .shuttingDown _ fired, .none =>
      some ({ loop with stage := .handling fired }, .none)
  | .shuttingDown _ fired, .write _ _ =>
      some ({ loop with stage := .handling fired }, .none)
  -- the sweep over idle handlers, once a second
  | .handling [], .none =>
      if loop.checkTimeout < seconds then
        some ({ loop with stage := .sweepDue }, .none)
      else some ({ loop with stage := .waiting }, .none)
  | .sweepDue, .order walk =>
      if walk.Perm loop.poller then
        some
          ({ loop with checkTimeout := seconds, stage := .sweeping walk [] },
            .none)
      else none
  | .sweeping (ptr :: walk) fired, .none =>
      if (handlers ptr).isTimeout milliSeconds then
        some ({ loop with stage := .sweeping walk (fired ++ [ptr]) }, .none)
      else some ({ loop with stage := .sweeping walk fired }, .none)
  | .sweeping [] fired, .none =>
      some ({ loop with stage := .posting fired }, .none)
  -- `RemoveHandlerLater`
  | .posting (ptr :: fired), .none =>
      some
        ({ loop with
            changedHandler := loop.changedHandler ++ [(false, ptr)]
            stage := .posting fired },
          .none)
  | .posting [], .none =>
      some ({ loop with stage := .waiting }, .none)
  -- the changes that other threads or the sweep asked for
  | .waiting, .none =>
      some
        ({ loop with
            changedHandler := []
            stage := .changing loop.changedHandler },
          .none)
  | .changing ((true, ptr) :: tempQueue), .registered success =>
      if 0 < (fd ptr).1 then
        some
          ({ loop with
              poller :=
                if success then insertHandler fd ptr loop.poller
                else eraseHandler fd ptr loop.poller
              stage := .changing tempQueue },
            .setEventLoop ptr)
      else none
  | .changing ((false, ptr) :: tempQueue), .none =>
      some ({ loop with stage := .changing tempQueue }, .onError ptr)
  | .changing [], .none =>
      some ({ loop with stage := .top }, .none)
  | _, _ => none

end Handlers

/-! ## The whole program -/

/-- The main thread and all loops.  The last two fields record the handlers
that have been constructed and the calls of `OnError`. -/
structure EventLoop where
  milliSeconds : ℕ
  seconds : ℤ
  isTerminal : Bool
  loops : List IoLoop
  handlers : HandlerId → EventHandler
  conns : ConnSystem
  created : List HandlerId
  errors : List HandlerId

inductive EventLabel where
  | clock (milliSeconds : ℕ) (seconds : ℤ)
  | loop (i : ℕ) (answer : Answer)
  | update
  | terminal
  deriving DecidableEq

namespace EventLoop

def modifyHandler
    (ptr : HandlerId) (f : EventHandler → EventHandler)
    (system : EventLoop) : EventLoop :=
  { system with
    handlers := Function.update system.handlers ptr (f (system.handlers ptr)) }

def modifyLoop (i : ℕ) (f : IoLoop → IoLoop) (system : EventLoop) :
    EventLoop :=
  { system with loops := system.loops.modify i f }

/-- `IoLoop::Ternimal` for every loop. -/
def terminalLoops (system : EventLoop) : EventLoop :=
  { system with
    loops := system.loops.map fun loop => { loop with terminal := true } }

section Program

variable (fd : HandlerId → Descriptor) (kind : HandlerId → HandlerKind)

/-- The three implementations of `OnError`.  Two of them use the pointer to the
loop of the handler. -/
def onError (ptr : HandlerId) (system : EventLoop) : Option EventLoop :=
  let logged := { system with errors := system.errors ++ [ptr] }
  match kind ptr, (system.handlers ptr).eventLoop with
  | .acceptor, _ => some logged.terminalLoops
  | .connection, some i =>
      some (logged.modifyLoop i fun loop =>
        { loop with poller := eraseHandler fd ptr loop.poller })
  | .client, some i =>
      some (logged.modifyLoop i fun loop => { loop with terminal := true })
  | _, none => none

/-- The end of the loop body of `TcpAcceptor::OnRead`. -/
def addHandlerLater
    (acceptor newHandler : HandlerId) (system : EventLoop) :
    Option EventLoop :=
  let idx := (system.handlers acceptor).idx
  if idx < system.loops.length then
    some
      (((system.modifyHandler newHandler fun handler =>
          { handler with events := kEventReadWrite }).modifyLoop idx
            fun loop =>
              { loop with
                changedHandler :=
                  loop.changedHandler ++ [(true, newHandler)] }).modifyHandler
        acceptor fun handler =>
          { handler with
            idx := if idx + 1 ≥ system.loops.length then 0 else idx + 1 })
  else none

def setRevents
    (found : List (HandlerId × Events)) (system : EventLoop) : EventLoop :=
  found.foldl
    (fun current entry =>
      current.modifyHandler entry.1 fun handler =>
        { handler with revents := entry.2 })
    system

/-- The call that ends a step of the loop number `i`. -/
def perform (i : ℕ) (call : LoopCall) (system : EventLoop) :
    Option EventLoop :=
  match call with
  | .none => some system
  | .setRevents found => some (system.setRevents found)
  | .setLastActive ptr =>
      some (system.modifyHandler ptr fun handler =>
        { handler with lastActiveTime := system.milliSeconds })
  | .clearRevents ptr =>
      some (system.modifyHandler ptr fun handler =>
        { handler with revents := kEventNone })
  | .addConn newHandler =>
      if newHandler ∈ system.created then none
      else
        let constructed :=
          system.modifyHandler newHandler fun _ =>
            EventHandler.new system.milliSeconds
        some
          { constructed with
            created := newHandler :: system.created
            conns := system.conns.addConn newHandler }
  | .addHandlerLater acceptor newHandler =>
      system.addHandlerLater acceptor newHandler
  | .removeConn ptr =>
      some { system with conns := system.conns.removeConn fd ptr }
  | .onError ptr => system.onError fd kind ptr
  | .setEventLoop ptr =>
      some (system.modifyHandler ptr fun handler =>
        { handler with eventLoop := some i })

def loopStep (i : ℕ) (answer : Answer) (system : EventLoop) :
    Option EventLoop :=
  match system.loops[i]? with
  | none => none
  | some loop =>
      match loop.next fd kind system.handlers system.milliSeconds
          system.seconds answer with
      | none => none
      | some (next, call) =>
          { system with loops := system.loops.set i next }.perform fd kind i
            call

def step (system : EventLoop) : EventLabel → Option EventLoop
  | .clock milliSeconds seconds =>
      some { system with milliSeconds := milliSeconds, seconds := seconds }
  | .loop i answer => system.loopStep fd kind i answer
  -- the main thread tests `is_terminal_` between two calls of `Update`
  | .update =>
      if system.isTerminal ∧ system.conns.updater = .idle then none
      else
        (system.conns.updateStep fd).map fun conns =>
          { system with conns := conns }
  | .terminal => some { system.terminalLoops with isTerminal := true }

/-- `InitEventLoop` for the handlers that are left, beginning with loop number
`i`. -/
def distribute : List HandlerId → ℕ → EventLoop → Option EventLoop
  | [], _, system => some system
  | ptr :: rest, i, system =>
      if 0 < (fd ptr).1 then
        let added :=
          (system.modifyLoop i fun loop =>
            { loop with poller := insertHandler fd ptr loop.poller })
        distribute rest (if i + 1 = system.loops.length then 0 else i + 1)
          (added.modifyHandler ptr fun handler =>
            { handler with eventLoop := some i })
      else none

/-- The program when its threads start.  The handlers have been constructed at
the given times and passed to `AddAcceptor`, `AddClient` or `AddHandler`. -/
def start
    (threadCount milliSeconds : ℕ) (seconds : ℤ)
    (constructedAt : HandlerId → ℕ) (registered : List HandlerId) :
    Option EventLoop :=
  if threadCount = 0 then none
  else
    distribute fd registered 0
      { milliSeconds := milliSeconds
        seconds := seconds
        isTerminal := false
        loops := List.replicate threadCount (IoLoop.new seconds)
        handlers := fun ptr =>
          { EventHandler.new (constructedAt ptr) with
            events :=
              if kind ptr = .acceptor then kEventReadable
              else kEventReadWrite }
        conns := ConnSystem.new
        created := registered
        errors := [] }

end Program

end EventLoop

end GreenTurtle.EventLoops
