import GreenTurtle.ConnManager
import GreenTurtle.FixedWidth
import GreenTurtle.SwapRemove
import Mathlib.Tactic

/-!
# `PollPoller`

`poll_poller.cc` with the handler table of `poller.cc`.  A registered handler
has an entry in `pollfds_` and remembers its index; removal fills the hole with
the last entry, whose handler is found through the table.  The invariant keeps
the registered handlers in the order of their entries.
-/

namespace GreenTurtle.Polling

open Connections (Descriptor HandlerId)
open Execution
open FixedWidth
open SwapRemove

/-- The fields of an `EventHandler` that the poller uses; `index` is
`poll_idx_`. -/
structure EventHandler where
  events : ℕ
  revents : ℕ
  index : ℤ
  deriving DecidableEq

/-- The constructor of `EventHandler`. -/
def EventHandler.new : EventHandler where
  events := 0
  revents := 0
  index := -1

structure Pollfd where
  fd : Descriptor
  events : ℕ
  revents : ℕ
  deriving DecidableEq

def hasFlag (value flag : ℕ) : Bool :=
  value &&& flag ≠ 0

/-- `POLLIN` and `POLLOUT` from `kEventReadable` and `kEventWriteable`. -/
def requestedEvents (events : ℕ) : ℕ :=
  (if hasFlag events 1 then 1 else 0) ||| (if hasFlag events 2 then 4 else 0)

/-- The mask of `PollOnce`: `POLLOUT`, `POLLERR` and `POLLHUP` all count as
writeable. -/
def returnedEvents (revents : ℕ) : ℕ :=
  (if hasFlag revents 1 then 1 else 0) |||
    (if hasFlag revents 4 then 2 else 0) |||
    (if hasFlag revents 8 then 2 else 0) |||
    (if hasFlag revents 16 then 2 else 0)

/-- `Poller`, the common base of the pollers: the table `event_handlers_`,
together with the handlers that exist. -/
structure Poller where
  handlers : HandlerId → Option EventHandler
  eventHandlers : List (Descriptor × HandlerId)

namespace Poller

def new : Poller where
  handlers := fun _ => none
  eventHandlers := []

/-- An update of a handler that exists. -/
def modifyHandler
    (poller : Poller) (ptr : HandlerId)
    (change : EventHandler → EventHandler) : Poller :=
  { poller with
    handlers :=
      Function.update poller.handlers ptr
        ((poller.handlers ptr).map change) }

def getEventHandler (poller : Poller) (fd : Descriptor) :
    Option HandlerId :=
  (poller.eventHandlers.find? fun entry => entry.1 = fd).map Prod.snd

def eraseEventHandler (poller : Poller) (fd : Descriptor) : Poller :=
  { poller with
    eventHandlers := poller.eventHandlers.filter fun entry => entry.1 ≠ fd }

/-- There is no result when the assertion on the descriptor fails. -/
def setEventHandler
    (poller : Poller) (fd : Descriptor) (ptr : Option HandlerId) :
    Option Poller :=
  if 0 < fd.val then
    let erased := poller.eraseEventHandler fd
    match ptr with
    | some ptr =>
        some
          { erased with eventHandlers := erased.eventHandlers ++ [(fd, ptr)] }
    | none => some erased
  else none

theorem setEventHandler_some
    (poller : Poller) {fd : Descriptor} (hpositive : 0 < fd.val)
    (ptr : HandlerId) :
    poller.setEventHandler fd (some ptr) =
      some
        { poller.eraseEventHandler fd with
          eventHandlers :=
            (poller.eraseEventHandler fd).eventHandlers ++
              [(fd, ptr)] } := by
  rw [setEventHandler, if_pos hpositive]

theorem setEventHandler_none
    (poller : Poller) {fd : Descriptor} (hpositive : 0 < fd.val) :
    poller.setEventHandler fd none = some (poller.eraseEventHandler fd) := by
  rw [setEventHandler, if_pos hpositive]

theorem setEventHandler_of_not_pos
    (poller : Poller) {fd : Descriptor} (hnegative : ¬ 0 < fd.val)
    (ptr : Option HandlerId) :
    poller.setEventHandler fd ptr = none := by
  rw [setEventHandler, if_neg hnegative]

/-- A descriptor that is erased after it was entered is erased. -/
theorem filter_erase_append
    (poller : Poller) (fd : Descriptor) (ptr : HandlerId) :
    ((poller.eraseEventHandler fd).eventHandlers ++ [(fd, ptr)]).filter
        (fun entry => entry.1 ≠ fd) =
      (poller.eraseEventHandler fd).eventHandlers := by
  simp [eraseEventHandler, List.filter_append]

end Poller

structure PollPoller extends Poller where
  pollfds : List Pollfd
  polling : Bool

namespace PollPoller

def new : PollPoller where
  toPoller := Poller.new
  pollfds := []
  polling := false

def modifyHandler
    (poller : PollPoller) (ptr : HandlerId)
    (change : EventHandler → EventHandler) : PollPoller :=
  { poller with toPoller := poller.toPoller.modifyHandler ptr change }

def setIndex (poller : PollPoller) (ptr : HandlerId) (index : ℤ) : PollPoller :=
  poller.modifyHandler ptr fun handler => { handler with index := index }

def eraseEventHandler (poller : PollPoller) (fd : Descriptor) : PollPoller :=
  { poller with toPoller := poller.toPoller.eraseEventHandler fd }

def setEventHandler
    (poller : PollPoller) (fd : Descriptor) (ptr : Option HandlerId) :
    Option PollPoller :=
  (poller.toPoller.setEventHandler fd ptr).map fun base =>
    { poller with toPoller := base }

theorem setEventHandler_some
    (poller : PollPoller) {fd : Descriptor} (hpositive : 0 < fd.val)
    (ptr : HandlerId) :
    poller.setEventHandler fd (some ptr) =
      some
        { poller.eraseEventHandler fd with
          eventHandlers :=
            (poller.eraseEventHandler fd).eventHandlers ++ [(fd, ptr)] } := by
  rw [setEventHandler, Poller.setEventHandler_some _ hpositive]
  rfl

theorem setEventHandler_none
    (poller : PollPoller) {fd : Descriptor} (hpositive : 0 < fd.val) :
    poller.setEventHandler fd none = some (poller.eraseEventHandler fd) := by
  rw [setEventHandler, Poller.setEventHandler_none _ hpositive]
  rfl

theorem pos_of_setEventHandler
    {poller set : PollPoller} {fd : Descriptor} {ptr : Option HandlerId}
    (hset : poller.setEventHandler fd ptr = some set) : 0 < fd.val := by
  by_contra hnegative
  rw [setEventHandler, Poller.setEventHandler_of_not_pos _ hnegative] at hset
  cases hset

/-- `(int)(pollfds_.size() - 1)`. -/
def lastIndex (poller : PollPoller) : ℤ :=
  toInt32 (toUInt64 (poller.pollfds.length - 1))

/-- `std::iter_swap` of an entry with the last one, after which the handler of
the entry that was moved gets its new index.  There is no result when an entry
or that handler is missing. -/
def moveLast (poller : PollPoller) (idx : ℤ) : Option PollPoller :=
  match poller.pollfds[idx.toNat]?, poller.pollfds.getLast? with
  | some hole, some last =>
      let swapped :=
        { poller with
          pollfds :=
            (poller.pollfds.set idx.toNat last).set
              (poller.pollfds.length - 1) hole }
      (swapped.getEventHandler last.fd).map fun moved =>
        swapped.setIndex moved idx
  | _, _ => none

/-- The end of `RemoveEventHandler`: the last entry goes away, and the handler
is marked as not registered. -/
def dropEntry (poller : PollPoller) (ptr : HandlerId) : PollPoller :=
  { poller with pollfds := poller.pollfds.dropLast }.setIndex ptr (-1)

section Methods

variable (fd : HandlerId → Descriptor)

/-- There is no result when an assertion fails or the handler is missing. -/
def addEventHandler (ptr : HandlerId) (poller : PollPoller) :
    Option PollPoller :=
  if poller.polling then none
  else
    match poller.setEventHandler (fd ptr) (some ptr), poller.handlers ptr with
    | some poller, some handler =>
        let pfd : Pollfd :=
          { fd := fd ptr
            events := requestedEvents handler.events
            revents := 0 }
        let poller := { poller with pollfds := poller.pollfds ++ [pfd] }
        some (poller.setIndex ptr poller.lastIndex)
    | _, _ => none

/-- There is no result when an assertion fails, the handler is missing, or the
handler looked up after the swap is null. -/
def removeEventHandler (ptr : HandlerId) (poller : PollPoller) :
    Option PollPoller :=
  if poller.polling then none
  else
    match poller.setEventHandler (fd ptr) none, poller.handlers ptr with
    | some poller, some handler =>
        if handler.index < 0 then some poller
        else
          let moved :=
            if handler.index ≠ poller.lastIndex then
              poller.moveLast handler.index
            else some poller
          moved.map fun poller => poller.dropEntry ptr
    | _, _ => none

/-- What `poll` does.  It writes `revents` of every entry and returns the number
of entries with some.  A signal interrupts it only while nothing is ready, and
then it has written zeros.  With `EINVAL` (more entries than descriptors may be
open) and `ENOMEM` it fails before it writes anything. -/
inductive PollOutcome where
  | ready (revents : ℕ → ℕ)
  | interrupted
  | refused

def pollEntries (pollfds : List Pollfd) : PollOutcome → List Pollfd
  | .ready revents =>
      pollfds.mapIdx fun i entry => { entry with revents := revents i }
  | .interrupted => pollfds.map fun entry => { entry with revents := 0 }
  | .refused => pollfds

def pollResult (pollfds : List Pollfd) : PollOutcome → ℤ
  | .ready revents =>
      ((pollEntries pollfds (.ready revents)).countP
        fun entry => entry.revents ≠ 0 : ℕ)
  | .interrupted => -1
  | .refused => -1

/-- The loop of `PollOnce`, with the handlers that it pushes. -/
def reportEntries :
    List Pollfd → ℤ → PollPoller → List HandlerId × PollPoller
  | [], _, poller => ([], poller)
  | e :: rest, num, poller =>
      if e.revents = 0 then reportEntries rest num poller
      else
        match poller.getEventHandler e.fd with
        | none => reportEntries rest num poller
        | some handle =>
            let poller :=
              poller.modifyHandler handle fun handler =>
                { handler with revents := returnedEvents e.revents }
            if num - 1 = 0 then ([handle], poller)
            else
              let reported := reportEntries rest (num - 1) poller
              (handle :: reported.1, reported.2)

/-- The handlers that are pushed to the caller's vector, and the poller. -/
def pollOnce (outcome : PollOutcome) (poller : PollPoller) :
    List HandlerId × PollPoller :=
  let entries := pollEntries poller.pollfds outcome
  let num := pollResult poller.pollfds outcome
  let reported :=
    reportEntries entries num
      { poller with pollfds := entries, polling := true }
  (reported.1, { reported.2 with polling := false })

/-! ## Sequences of calls -/

inductive PollLabel where
  | construct (ptr : HandlerId)
  | destroy (ptr : HandlerId)
  | setEvents (ptr : HandlerId) (events : ℕ)
  | add (ptr : HandlerId)
  | remove (ptr : HandlerId)
  | poll (outcome : PollOutcome)

def step (poller : PollPoller) : PollLabel → Option PollPoller
  | .construct ptr =>
      some
        { poller with
          handlers :=
            Function.update poller.handlers ptr (some EventHandler.new) }
  | .destroy ptr =>
      some
        { poller with handlers := Function.update poller.handlers ptr none }
  | .setEvents ptr events =>
      some (poller.modifyHandler ptr fun handler =>
        { handler with events := events })
  | .add ptr => addEventHandler fd ptr poller
  | .remove ptr => removeEventHandler fd ptr poller
  | .poll outcome => some (poller.pollOnce outcome).2

/-- The handler was added, and it has not been removed since. -/
def StillAdded (labels : List PollLabel) (ptr : HandlerId) : Prop :=
  ∃ before after,
    labels = before ++ .add ptr :: after ∧ .remove ptr ∉ after

/-- The handler is in the table of the poller. -/
def Registered (poller : PollPoller) (ptr : HandlerId) : Prop :=
  ∃ entry ∈ poller.eventHandlers, entry.2 = ptr

instance (poller : PollPoller) (ptr : HandlerId) :
    Decidable (poller.Registered ptr) := by
  unfold Registered
  infer_instance

/-- What is asked of the caller.  Descriptors are positive and distinct among
the handlers that exist; the table keeps a registered handler alive; a handler
is added only while it is not registered, and any handler may be removed. -/
def PollAllowed (poller : PollPoller) : PollLabel → Prop
  | .construct ptr =>
      poller.handlers ptr = none ∧ 0 < (fd ptr).val ∧
        ∀ other, poller.handlers other ≠ none → fd other ≠ fd ptr
  | .destroy ptr => ¬ poller.Registered ptr
  | .setEvents _ _ => True
  | .add ptr => poller.handlers ptr ≠ none ∧ ¬ poller.Registered ptr
  | .remove ptr => poller.handlers ptr ≠ none
  | .poll _ => True

/-- The representation is consistent, no removal meets a null pointer, and the
next `PollOnce` reports what is ready. -/
structure PollConsistent (poller : PollPoller) : Prop where
  index_registered :
    ∀ ptr, poller.Registered ptr →
      ∃ handler, poller.handlers ptr = some handler ∧
        0 ≤ handler.index ∧ handler.index < poller.pollfds.length ∧
        (poller.pollfds[handler.index.toNat]?).map Pollfd.fd =
          some (fd ptr)
  entry_owner :
    ∀ (i : ℕ) (e : Pollfd), poller.pollfds[i]? = some e →
      ∃ ptr handler,
        (e.fd, ptr) ∈ poller.eventHandlers ∧ fd ptr = e.fd ∧
          poller.handlers ptr = some handler ∧ handler.index = i ∧
          ∀ entry ∈ poller.eventHandlers, entry.1 = e.fd → entry.2 = ptr
  size_eq : poller.pollfds.length = poller.eventHandlers.length
  index_idle :
    ∀ ptr handler, poller.handlers ptr = some handler →
      ¬ poller.Registered ptr → handler.index = -1
  remove_defined :
    ∀ ptr, poller.handlers ptr ≠ none →
      (removeEventHandler fd ptr poller).isSome
  reports_once : ∀ outcome, (poller.pollOnce outcome).1.Nodup
  reports_iff :
    ∀ outcome ptr, ptr ∈ (poller.pollOnce outcome).1 ↔
      poller.Registered ptr ∧
        ∃ e ∈ pollEntries poller.pollfds outcome,
          e.fd = fd ptr ∧ e.revents ≠ 0

end Methods

end PollPoller

end GreenTurtle.Polling
