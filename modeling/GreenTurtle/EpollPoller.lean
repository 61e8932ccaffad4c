import GreenTurtle.PollArrangement
import GreenTurtle.PollerView
import Mathlib.Tactic

/-!
# `EpollPoller`

`epoll_poller.cc` with the handler table of `poller.cc` and the interest list
that the kernel keeps for `epollfd_`.  The table alone decides which handlers
are reported, so for the loops an `EpollPoller` is a list of handlers, whatever
the kernel answers.  Whether the kernel and the table agree depends on the
caller: a handler that is added a second time is taken out of the table and
stays in the interest list.
-/

namespace GreenTurtle.Polling

open Connections (Descriptor HandlerId)
open EventLoops (insertHandler eraseHandler Events)
open Execution
open FixedWidth

/-- The descriptors that the kernel watches belong to the poller, each with the
requested events. -/
structure EpollPoller extends Poller where
  interest : List (Descriptor × ℕ)
  eventsSize : ℕ
  polling : Bool

namespace EpollPoller

def kInitEventSize : ℕ := 128

def new : EpollPoller where
  toPoller := Poller.new
  interest := []
  eventsSize := kInitEventSize
  polling := false

def modifyHandler
    (poller : EpollPoller) (ptr : HandlerId)
    (change : EventHandler → EventHandler) : EpollPoller :=
  { poller with toPoller := poller.toPoller.modifyHandler ptr change }

def eraseEventHandler (poller : EpollPoller) (fd : Descriptor) :
    EpollPoller :=
  { poller with toPoller := poller.toPoller.eraseEventHandler fd }

def setEventHandler
    (poller : EpollPoller) (fd : Descriptor) (ptr : Option HandlerId) :
    Option EpollPoller :=
  (poller.toPoller.setEventHandler fd ptr).map fun base =>
    { poller with toPoller := base }

theorem setEventHandler_some
    (poller : EpollPoller) {fd : Descriptor} (hpositive : 0 < fd.val)
    (ptr : HandlerId) :
    poller.setEventHandler fd (some ptr) =
      some
        { poller.eraseEventHandler fd with
          eventHandlers :=
            (poller.eraseEventHandler fd).eventHandlers ++ [(fd, ptr)] } := by
  rw [setEventHandler, Poller.setEventHandler_some _ hpositive]
  rfl

theorem setEventHandler_none
    (poller : EpollPoller) {fd : Descriptor} (hpositive : 0 < fd.val) :
    poller.setEventHandler fd none = some (poller.eraseEventHandler fd) := by
  rw [setEventHandler, Poller.setEventHandler_none _ hpositive]
  rfl

theorem setEventHandler_of_not_pos
    (poller : EpollPoller) {fd : Descriptor} (hnegative : ¬ 0 < fd.val)
    (ptr : Option HandlerId) :
    poller.setEventHandler fd ptr = none := by
  rw [setEventHandler, Poller.setEventHandler_of_not_pos _ hnegative]
  rfl

def Watches (poller : EpollPoller) (fd : Descriptor) : Prop :=
  fd ∈ poller.interest.map Prod.fst

instance (poller : EpollPoller) (fd : Descriptor) :
    Decidable (poller.Watches fd) :=
  inferInstanceAs (Decidable (fd ∈ poller.interest.map Prod.fst))

def unwatch (poller : EpollPoller) (fd : Descriptor) : EpollPoller :=
  { poller with interest := poller.interest.filter fun entry => entry.1 ≠ fd }

/-- `Epoll_Ctl` with `EPOLL_CTL_ADD`.  It fails for a descriptor that is
watched already, and when the kernel refuses. -/
def ctlAdd
    (refused : Bool) (fd : Descriptor) (events : ℕ) (poller : EpollPoller) :
    ℤ × EpollPoller :=
  if poller.Watches fd ∨ refused = true then (-1, poller)
  else
    (0,
      { poller with
        interest := poller.interest ++ [(fd, requestedEvents events)] })

/-- `Epoll_Ctl` with `EPOLL_CTL_DEL`. -/
def ctlDel (fd : Descriptor) (poller : EpollPoller) : ℤ × EpollPoller :=
  if poller.Watches fd then (0, poller.unwatch fd) else (-1, poller)

/-- The vector for `epoll_wait` is doubled once for a large descriptor. -/
def growEvents (fd : Descriptor) (poller : EpollPoller) : EpollPoller :=
  { poller with
    eventsSize :=
      if toInt32 poller.eventsSize ≤ fd.val then poller.eventsSize * 2
      else poller.eventsSize }

section Methods

variable (fd : HandlerId → Descriptor)

/-- There is no result when an assertion fails or the handler is missing. -/
def addEventHandler
    (refused : Bool) (ptr : HandlerId) (poller : EpollPoller) :
    Option EpollPoller :=
  if poller.polling then none
  else
    match poller.setEventHandler (fd ptr) (some ptr), poller.handlers ptr with
    | some poller, some handler =>
        let added :=
          (poller.growEvents (fd ptr)).ctlAdd refused (fd ptr) handler.events
        if added.1 < 0 then added.2.setEventHandler (fd ptr) none
        else some added.2
    | _, _ => none

/-- There is no result when an assertion fails or the handler is missing. -/
def removeEventHandler (ptr : HandlerId) (poller : EpollPoller) :
    Option EpollPoller :=
  if poller.polling ∨ poller.handlers ptr = none then none
  else
    (poller.setEventHandler (fd ptr) none).map fun poller =>
      (poller.ctlDel (fd ptr)).2

/-- The loop of `PollOnce`, with the handlers that it pushes. -/
def reportEvents :
    List (Descriptor × ℕ) → EpollPoller → List HandlerId × EpollPoller
  | [], poller => ([], poller)
  | e :: rest, poller =>
      match poller.getEventHandler e.1 with
      | none => reportEvents rest poller
      | some handle =>
          let reported :=
            reportEvents rest
              (poller.modifyHandler handle fun handler =>
                { handler with revents := returnedEvents e.2 })
          (handle :: reported.1, reported.2)

/-- What `epoll_wait` has written, or nothing if it has failed. -/
def pollOnce
    (returned : Option (List (Descriptor × ℕ))) (poller : EpollPoller) :
    List HandlerId × EpollPoller :=
  let reported :=
    reportEvents (returned.getD []) { poller with polling := true }
  (reported.1, { reported.2 with polling := false })

/-! ## Sequences of calls -/

inductive EpollLabel where
  | construct (ptr : HandlerId)
  | destroy (ptr : HandlerId)
  | setEvents (ptr : HandlerId) (events : ℕ)
  | add (ptr : HandlerId) (refused : Bool)
  | remove (ptr : HandlerId)
  | poll (returned : Option (List (Descriptor × ℕ)))

/-- A handler that is destroyed closes its descriptor, and the kernel stops
watching it. -/
def step (poller : EpollPoller) : EpollLabel → Option EpollPoller
  | .construct ptr =>
      some
        { poller with
          handlers :=
            Function.update poller.handlers ptr (some EventHandler.new) }
  | .destroy ptr =>
      some
        { poller.unwatch (fd ptr) with
          handlers := Function.update poller.handlers ptr none }
  | .setEvents ptr events =>
      some (poller.modifyHandler ptr fun handler =>
        { handler with events := events })
  | .add ptr refused => addEventHandler fd refused ptr poller
  | .remove ptr => removeEventHandler fd ptr poller
  | .poll returned => some (poller.pollOnce returned).2

end Methods

/-! ## What the calls change -/

section Changes

variable {fd : HandlerId → Descriptor} {poller next : EpollPoller}

/-- A registration that the kernel turns down leaves the table without the
descriptor. -/
def afterAdd
    (fd : HandlerId → Descriptor) (refused : Bool) (ptr : HandlerId)
    (handler : EventHandler) (poller : EpollPoller) : EpollPoller :=
  if poller.Watches (fd ptr) ∨ refused = true then
    (poller.eraseEventHandler (fd ptr)).growEvents (fd ptr)
  else
    { poller.growEvents (fd ptr) with
      eventHandlers :=
        (poller.eraseEventHandler (fd ptr)).eventHandlers ++ [(fd ptr, ptr)]
      interest :=
        poller.interest ++ [(fd ptr, requestedEvents handler.events)] }

/-- The call of `Epoll_Ctl` in `AddEventHandler`, and what follows a failure. -/
theorem ctlAdd_eq_afterAdd
    {refused : Bool} {ptr : HandlerId} (hpositive : 0 < (fd ptr).val)
    (handler : EventHandler) {inserted : EpollPoller}
    (hinserted :
      inserted =
        { poller.eraseEventHandler (fd ptr) with
          eventHandlers :=
            (poller.eraseEventHandler (fd ptr)).eventHandlers ++
              [(fd ptr, ptr)] }) :
    (let added :=
        (inserted.growEvents (fd ptr)).ctlAdd refused (fd ptr) handler.events
      if added.1 < 0 then added.2.setEventHandler (fd ptr) none
      else some added.2) =
      some (afterAdd fd refused ptr handler poller) := by
  have hwatches :
      (inserted.growEvents (fd ptr)).Watches (fd ptr) =
        poller.Watches (fd ptr) := by
    rw [hinserted]
    rfl
  by_cases hfails : poller.Watches (fd ptr) ∨ refused = true
  · have hctl :
        (inserted.growEvents (fd ptr)).ctlAdd refused (fd ptr)
            handler.events =
          (-1, inserted.growEvents (fd ptr)) :=
      if_pos (hwatches ▸ hfails)
    simp only [hctl, Int.reduceNeg, Left.neg_neg_iff, zero_lt_one, if_true,
      setEventHandler_none _ hpositive, afterAdd, hfails]
    have htable := poller.toPoller.filter_erase_append (fd ptr) ptr
    rw [hinserted]
    unfold eraseEventHandler growEvents Poller.eraseEventHandler at *
    rw [htable]
  · have hctl :
        (inserted.growEvents (fd ptr)).ctlAdd refused (fd ptr)
            handler.events =
          (0, _) :=
      if_neg (hwatches ▸ hfails)
    simp only [hctl, lt_irrefl, if_false, afterAdd, hfails]
    rw [hinserted]
    rfl

theorem addEventHandler_eq_some
    {refused : Bool} {ptr : HandlerId} :
    addEventHandler fd refused ptr poller = some next ↔
      poller.polling = false ∧ 0 < (fd ptr).val ∧
        ∃ handler, poller.handlers ptr = some handler ∧
          afterAdd fd refused ptr handler poller = next := by
  unfold addEventHandler
  cases hpolling : poller.polling with
  | true => simp
  | false =>
      by_cases hpositive : 0 < (fd ptr).val
      · rw [setEventHandler_some _ hpositive]
        cases hhandler : poller.handlers ptr with
        | none => simp
        | some handler =>
            simp only [Bool.false_eq_true, if_false]
            rw [ctlAdd_eq_afterAdd hpositive handler rfl]
            simp [hpositive]
      · simp [setEventHandler_of_not_pos _ hpositive, hpositive]

theorem unwatch_of_not_watches
    {d : Descriptor} (hidle : ¬ poller.Watches d) :
    poller.unwatch d = poller := by
  have hsame :
      (poller.interest.filter fun entry => entry.1 ≠ d) =
        poller.interest := by
    apply List.filter_eq_self.mpr
    intro entry hentry
    have hne : entry.1 ≠ d := by
      rintro rfl
      exact hidle (List.mem_map_of_mem hentry)
    simpa using hne
  unfold unwatch
  rw [hsame]

theorem ctlDel_eq (d : Descriptor) (poller : EpollPoller) :
    (poller.ctlDel d).2 = poller.unwatch d := by
  unfold ctlDel
  split
  next => rfl
  next hidle => exact (unwatch_of_not_watches hidle).symm

theorem removeEventHandler_eq_some {ptr : HandlerId} :
    removeEventHandler fd ptr poller = some next ↔
      poller.polling = false ∧ poller.handlers ptr ≠ none ∧
        0 < (fd ptr).val ∧
          (poller.eraseEventHandler (fd ptr)).unwatch (fd ptr) = next := by
  unfold removeEventHandler
  cases hpolling : poller.polling with
  | true => simp
  | false =>
      by_cases hhandler : poller.handlers ptr = none
      · simp [hhandler]
      · by_cases hpositive : 0 < (fd ptr).val
        · simp [hhandler, setEventHandler_none _ hpositive, hpositive,
            ctlDel_eq]
        · simp [setEventHandler_of_not_pos _ hpositive, hpositive]

/-- The loop changes nothing but the returned events of the handlers it
finds. -/
theorem reportEvents_eq
    (returned : List (Descriptor × ℕ)) (poller : EpollPoller) :
    reportEvents returned poller =
      ((fired poller.eventHandlers returned).map Prod.fst,
        { poller with
          handlers :=
            setRevents poller.handlers
              (fired poller.eventHandlers returned) }) := by
  induction returned generalizing poller with
  | nil => rfl
  | cons e rest ih =>
      have hlookup :
          poller.getEventHandler e.1 = lookup poller.eventHandlers e.1 := rfl
      simp only [reportEvents, fired_cons, hlookup]
      cases lookup poller.eventHandlers e.1 with
      | none => exact ih poller
      | some handle =>
          simp only [ih]
          rfl

theorem pollOnce_eq
    (returned : Option (List (Descriptor × ℕ))) (poller : EpollPoller) :
    poller.pollOnce returned =
      ((fired poller.eventHandlers (returned.getD [])).map Prod.fst,
        { poller with
          handlers :=
            setRevents poller.handlers
              (fired poller.eventHandlers (returned.getD []))
          polling := false }) := by
  unfold pollOnce
  rw [reportEvents_eq]

end Changes

/-! ## The loops' view -/

section View

variable (fd : HandlerId → Descriptor)

/-- What a call on the poller is for the loops.  An `add` that the kernel turns
down is a removal. -/
def viewCall (poller : EpollPoller) : EpollLabel → ViewCall
  | .construct ptr => .construct ptr
  | .destroy _ => .other
  | .setEvents _ _ => .other
  | .add ptr refused =>
      if poller.Watches (fd ptr) ∨ refused = true then .erase ptr
      else .insert ptr
  | .remove ptr => .erase ptr
  | .poll returned =>
      .poll (seen (returned.getD [])) (poller.pollOnce returned).1

variable {fd} {poller next : EpollPoller} {view : PollerView}

theorem step_shows
    (hshows : Shows fd poller.eventHandlers poller.handlers view)
    {label : EpollLabel}
    (hstep : EpollPoller.step fd poller label = some next) :
    ∃ after,
      PollerView.step fd view (viewCall fd poller label) = some after ∧
        Shows fd next.eventHandlers next.handlers after := by
  cases label with
  | construct ptr =>
      obtain rfl := Option.some.inj hstep
      exact ⟨_, rfl, hshows.construct ptr⟩
  | destroy ptr =>
      obtain rfl := Option.some.inj hstep
      exact ⟨view, rfl, hshows.destroy ptr⟩
  | setEvents ptr events =>
      obtain rfl := Option.some.inj hstep
      exact ⟨view, rfl, hshows.setEvents ptr events⟩
  | add ptr refused =>
      obtain ⟨-, -, handler, -, rfl⟩ := addEventHandler_eq_some.mp hstep
      unfold viewCall afterAdd
      by_cases hfails : poller.Watches (fd ptr) ∨ refused = true
      · simp only [hfails, if_true]
        exact ⟨_, rfl, hshows.erase ptr⟩
      · simp only [hfails, if_false]
        exact ⟨_, rfl, hshows.insert ptr⟩
  | remove ptr =>
      obtain ⟨-, -, -, rfl⟩ := removeEventHandler_eq_some.mp hstep
      exact ⟨_, rfl, hshows.erase ptr⟩
  | poll returned =>
      obtain rfl := Option.some.inj hstep
      simp only [viewCall, pollOnce_eq]
      exact hshows.poll (returned.getD [])

/-- Whatever is called and whatever the kernel answers, every run is a run of
the view. -/
theorem run_shows
    {labels : List EpollLabel} {final : EpollPoller}
    (hrun : run (EpollPoller.step fd) EpollPoller.new labels = some final) :
    ∃ view,
      run (PollerView.step fd) PollerView.new
          (translated (EpollPoller.step fd) (viewCall fd) EpollPoller.new
            labels) =
        some view ∧ Shows fd final.eventHandlers final.handlers view := by
  apply run_simulates (EpollPoller.step fd) (PollerView.step fd)
    (viewCall fd)
    (fun poller => Shows fd poller.eventHandlers poller.handlers)
    (fun _ _ => True)
  · intro state view label next hshows _ hnext
    exact step_shows hshows hnext
  · exact Shows.new
  · exact hrun
  · exact EachStep.of_forall _ (fun _ _ _ => trivial) _

theorem epollPoller_refines
    {labels : List EpollLabel} {final : EpollPoller}
    (hrun : run (EpollPoller.step fd) EpollPoller.new labels = some final) :
    ∃ view,
      run (PollerView.step fd) PollerView.new
          (translated (EpollPoller.step fd) (viewCall fd) EpollPoller.new
            labels) =
        some view ∧
      final.eventHandlers = tableOf fd view.registered ∧
      ∀ ptr handler, final.handlers ptr = some handler →
        view.revents ptr = maskEvents handler.revents := by
  obtain ⟨view, hview, hshows⟩ := run_shows hrun
  exact ⟨view, hview, hshows.table_eq, hshows.revents⟩

theorem epollPoller_refines_two_handlers :
    ∃ final view,
      run (EpollPoller.step PollPoller.smallDescriptor) EpollPoller.new
          [.construct 0, .setEvents 0 1, .add 0 false, .construct 1,
            .add 1 true, .poll (some [(PollPoller.smallDescriptor 0, 1)]),
            .remove 0] =
        some final ∧
      run (PollerView.step PollPoller.smallDescriptor) PollerView.new
          (translated (EpollPoller.step PollPoller.smallDescriptor)
            (viewCall PollPoller.smallDescriptor) EpollPoller.new
            [.construct 0, .setEvents 0 1, .add 0 false, .construct 1,
              .add 1 true, .poll (some [(PollPoller.smallDescriptor 0, 1)]),
              .remove 0]) =
        some view ∧
      final.eventHandlers =
        tableOf PollPoller.smallDescriptor view.registered :=
  have hrefines :=
    @epollPoller_refines PollPoller.smallDescriptor
      [.construct 0, .setEvents 0 1, .add 0 false, .construct 1,
        .add 1 true, .poll (some [(PollPoller.smallDescriptor 0, 1)]),
        .remove 0] _ rfl
  hrefines.elim fun view hview => ⟨_, view, rfl, hview.1, hview.2.1⟩

end View

/-! ## A handler that is added twice -/

section AddedTwice

variable {fd : HandlerId → Descriptor} {poller next : EpollPoller}

/-- The calls after which the kernel no longer watches the descriptor. -/
def Releases (fd : HandlerId → Descriptor) (d : Descriptor) :
    EpollLabel → Prop
  | .destroy ptr => fd ptr = d
  | .remove ptr => fd ptr = d
  | _ => False

instance (fd : HandlerId → Descriptor) (d : Descriptor)
    (label : EpollLabel) : Decidable (Releases fd d label) :=
  match label with
  | .construct _ => instDecidableFalse
  | .destroy ptr => inferInstanceAs (Decidable (fd ptr = d))
  | .setEvents _ _ => instDecidableFalse
  | .add _ _ => instDecidableFalse
  | .remove ptr => inferInstanceAs (Decidable (fd ptr = d))
  | .poll _ => instDecidableFalse

/-- The kernel watches the descriptor, and the table does not have it. -/
structure Silent (d : Descriptor) (poller : EpollPoller) : Prop where
  watched : poller.Watches d
  missing : ∀ entry ∈ poller.eventHandlers, entry.1 ≠ d

theorem watches_unwatch
    {d other : Descriptor} (hwatched : poller.Watches d) (hne : other ≠ d) :
    (poller.unwatch other).Watches d := by
  obtain ⟨entry, hentry, rfl⟩ := List.mem_map.mp hwatched
  apply List.mem_map_of_mem
  simpa [unwatch] using ⟨hentry, hne.symm⟩

theorem mem_erase
    {d : Descriptor} {entry : Descriptor × HandlerId}
    (hentry : entry ∈ (poller.eraseEventHandler d).eventHandlers) :
    entry ∈ poller.eventHandlers ∧ entry.1 ≠ d := by
  simpa [eraseEventHandler, Poller.eraseEventHandler] using hentry

/-- Adding a descriptor that is watched takes it out of the table. -/
theorem silent_of_watched
    {ptr : HandlerId} {refused : Bool} {handler : EventHandler}
    (hwatched : poller.Watches (fd ptr)) :
    Silent (fd ptr) (afterAdd fd refused ptr handler poller) := by
  unfold afterAdd
  rw [if_pos (.inl hwatched)]
  exact ⟨hwatched, fun entry hentry => (mem_erase hentry).2⟩

theorem Silent.add
    {d : Descriptor} (hsilent : Silent d poller) {ptr : HandlerId}
    {refused : Bool} {handler : EventHandler} :
    Silent d (afterAdd fd refused ptr handler poller) := by
  by_cases hsame : fd ptr = d
  · subst d
    exact silent_of_watched hsilent.watched
  · unfold afterAdd
    split
    · exact ⟨hsilent.watched, fun entry hentry =>
        hsilent.missing entry (mem_erase hentry).1⟩
    · constructor
      · change d ∈ List.map _ _
        rw [List.map_append, List.mem_append]
        exact .inl hsilent.watched
      · intro entry hentry
        rcases List.mem_append.mp hentry with hold | hnew
        · exact hsilent.missing entry (mem_erase hold).1
        · rw [List.mem_singleton.mp hnew]
          exact hsame

theorem Silent.step
    {d : Descriptor} (hsilent : Silent d poller) {label : EpollLabel}
    (hkept : ¬ Releases fd d label)
    (hstep : EpollPoller.step fd poller label = some next) :
    Silent d next := by
  cases label with
  | construct ptr =>
      obtain rfl := Option.some.inj hstep
      exact ⟨hsilent.watched, hsilent.missing⟩
  | destroy ptr =>
      obtain rfl := Option.some.inj hstep
      exact ⟨watches_unwatch hsilent.watched hkept, hsilent.missing⟩
  | setEvents ptr events =>
      obtain rfl := Option.some.inj hstep
      exact ⟨hsilent.watched, hsilent.missing⟩
  | add ptr refused =>
      obtain ⟨-, -, handler, -, rfl⟩ := addEventHandler_eq_some.mp hstep
      exact hsilent.add
  | remove ptr =>
      obtain ⟨-, -, -, rfl⟩ := removeEventHandler_eq_some.mp hstep
      exact ⟨watches_unwatch hsilent.watched hkept,
        fun entry hentry => hsilent.missing entry (mem_erase hentry).1⟩
  | poll returned =>
      obtain rfl := Option.some.inj hstep
      rw [pollOnce_eq]
      exact ⟨hsilent.watched, hsilent.missing⟩

/-- Once a descriptor that the kernel watches has been added again, no handler
with this descriptor is reported until one of them is removed or closed,
whatever else is called and whatever the kernel returns. -/
theorem added_twice_unreported
    {before after : List EpollLabel} {poller second final : EpollPoller}
    {ptr : HandlerId} {refused : Bool}
    (hbefore :
      run (EpollPoller.step fd) EpollPoller.new before = some poller)
    (hwatched : poller.Watches (fd ptr))
    (hadd : EpollPoller.step fd poller (.add ptr refused) = some second)
    (hkept : ∀ label ∈ after, ¬ Releases fd (fd ptr) label)
    (hafter : run (EpollPoller.step fd) second after = some final) :
    final.Watches (fd ptr) ∧
      ∀ returned, ∀ other ∈ (final.pollOnce returned).1,
        fd other ≠ fd ptr := by
  have hsecond : Silent (fd ptr) second := by
    obtain ⟨-, -, handler, -, rfl⟩ := addEventHandler_eq_some.mp hadd
    exact silent_of_watched hwatched
  have hfinal : Silent (fd ptr) final := by
    apply run_preserves (EpollPoller.step fd) (Silent (fd ptr))
      (fun _ label => ¬ Releases fd (fd ptr) label)
    · intro state label next hsilent hlabel hnext
      exact hsilent.step hlabel hnext
    · exact hsecond
    · exact hafter
    · exact EachStep.of_forall _ (fun label hlabel _ => hkept label hlabel) _
  have hrun :
      run (EpollPoller.step fd) EpollPoller.new
          (before ++ .add ptr refused :: after) = some final := by
    rw [run_append _ hbefore, run_cons_eq_some_iff]
    exact ⟨second, hadd, hafter⟩
  obtain ⟨view, -, hshows⟩ := run_shows hrun
  refine ⟨hfinal.watched, ?_⟩
  intro returned other hother
  rw [pollOnce_eq] at hother
  obtain ⟨entry, hentry, rfl⟩ := List.mem_map.mp hother
  obtain ⟨e, -, hfound⟩ := List.mem_filterMap.mp hentry
  obtain ⟨found, hlookup, rfl⟩ := Option.map_eq_some_iff.mp hfound
  rw [hshows.fd_of_lookup hlookup]
  exact hfinal.missing (e.1, found) (lookup_mem hlookup)

theorem added_twice_unreported_ready :
    ∃ final,
      run (EpollPoller.step PollPoller.smallDescriptor) EpollPoller.new
          [.construct 0, .setEvents 0 1, .add 0 false, .add 0 false,
            .poll (some [(PollPoller.smallDescriptor 0, 1)])] =
        some final ∧
      final.Watches (PollPoller.smallDescriptor 0) ∧
      ∀ returned, ∀ other ∈ (final.pollOnce returned).1,
        PollPoller.smallDescriptor other ≠ PollPoller.smallDescriptor 0 :=
  ⟨_, rfl,
    @added_twice_unreported PollPoller.smallDescriptor
      [.construct 0, .setEvents 0 1, .add 0 false]
      [.poll (some [(PollPoller.smallDescriptor 0, 1)])] _ _ _ 0 false
      rfl (by decide) rfl (by decide) rfl⟩

end AddedTwice

end EpollPoller

end GreenTurtle.Polling
