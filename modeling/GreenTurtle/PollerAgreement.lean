import GreenTurtle.EpollPoller
import Mathlib.Tactic

/-!
# The two pollers side by side

`Poller::CreatePoller` chooses between `poll` and `epoll` by the expected
number of connections.  The loops see the same of both: a `PollPoller` is a run
of the same view as an `EpollPoller`, and as long as calls are allowed and the
kernel answers both from the same readiness, they report the same handlers with
the same events.  They differ when the system call fails before it has written
anything: the entries of `pollfds_` keep what the last `poll` has written, and
`PollOnce` reports it again.
-/

namespace GreenTurtle.Polling

open Connections (Descriptor HandlerId)
open EventLoops (Events insertHandler eraseHandler kEventNone)
open Execution
open FixedWidth
open SwapRemove

/-- The masks of a handler, without its index. -/
def masks (handlers : HandlerId → Option EventHandler) (ptr : HandlerId) :
    Option (ℕ × ℕ) :=
  (handlers ptr).map fun handler => (handler.events, handler.revents)

theorem SameRevents.of_masks
    {handlers changed : HandlerId → Option EventHandler}
    {revents : HandlerId → Events} (hsame : SameRevents handlers revents)
    (hmasks : ∀ ptr, masks changed ptr = masks handlers ptr) :
    SameRevents changed revents := by
  apply hsame.congr
  intro ptr handler hhandler
  have hmask := hmasks ptr
  unfold masks at hmask
  rw [hhandler, Option.map_some] at hmask
  obtain ⟨old, hold, hequal⟩ := Option.map_eq_some_iff.mp hmask.symm
  exact ⟨old, hold, congrArg Prod.snd hequal⟩

namespace PollPoller

/-! ## What the calls change -/

section Changes

variable {fd : HandlerId → Descriptor} {poller next : PollPoller}

theorem masks_setIndex
    (poller : PollPoller) (ptr other : HandlerId) (index : ℤ) :
    masks (poller.setIndex ptr index).handlers other =
      masks poller.handlers other := by
  unfold masks setIndex modifyHandler Poller.modifyHandler
  by_cases heq : other = ptr
  · subst other
    cases poller.handlers ptr <;> simp
  · simp [heq]

/-- An addition appends an entry and changes an index. -/
theorem addEventHandler_changes
    {ptr : HandlerId} (hadd : addEventHandler fd ptr poller = some next) :
    next.eventHandlers =
        (poller.eraseEventHandler (fd ptr)).eventHandlers ++
          [(fd ptr, ptr)] ∧
      (∃ handler, poller.handlers ptr = some handler ∧
        next.pollfds =
          poller.pollfds ++
            [{ fd := fd ptr
               events := requestedEvents handler.events
               revents := 0 }]) ∧
      ∀ other, masks next.handlers other = masks poller.handlers other := by
  unfold addEventHandler at hadd
  split at hadd
  · contradiction
  · split at hadd
    next set handler hset hhandler =>
      rw [setEventHandler_some _ (pos_of_setEventHandler hset)] at hset
      obtain rfl := Option.some.inj hset
      obtain rfl := Option.some.inj hadd
      exact ⟨rfl, ⟨handler, hhandler, rfl⟩,
        fun other => masks_setIndex _ ptr other _⟩
    next => contradiction

theorem masks_moveLast
    {idx : ℤ} (hmove : poller.moveLast idx = some next) :
    next.eventHandlers = poller.eventHandlers ∧
      ∀ other, masks next.handlers other = masks poller.handlers other := by
  unfold moveLast at hmove
  split at hmove
  next hole last _ _ =>
    obtain ⟨moved, -, rfl⟩ := Option.map_eq_some_iff.mp hmove
    exact ⟨rfl, fun other => masks_setIndex _ moved other idx⟩
  next => contradiction

/-- A removal erases the descriptor from the table and changes indices. -/
theorem removeEventHandler_changes
    {ptr : HandlerId}
    (hremove : removeEventHandler fd ptr poller = some next) :
    next.eventHandlers = (poller.eraseEventHandler (fd ptr)).eventHandlers ∧
      ∀ other, masks next.handlers other = masks poller.handlers other := by
  unfold removeEventHandler at hremove
  split at hremove
  · contradiction
  · split at hremove
    next set handler hset hhandler =>
      rw [setEventHandler_none _ (pos_of_setEventHandler hset)] at hset
      obtain rfl := Option.some.inj hset
      split at hremove
      · obtain rfl := Option.some.inj hremove
        exact ⟨rfl, fun _ => rfl⟩
      · obtain ⟨moved, hmoved, rfl⟩ := Option.map_eq_some_iff.mp hremove
        have hkept :
            moved.eventHandlers =
                (poller.eraseEventHandler (fd ptr)).eventHandlers ∧
              ∀ other, masks moved.handlers other =
                masks poller.handlers other := by
          split at hmoved
          · exact masks_moveLast hmoved
          · obtain rfl := Option.some.inj hmoved
            exact ⟨rfl, fun _ => rfl⟩
        refine ⟨hkept.1, fun other => ?_⟩
        rw [← hkept.2 other]
        exact masks_setIndex { moved with pollfds := _ } ptr other (-1)
    next => contradiction

/-- The entries with some returned events, as `epoll_wait` would return
them. -/
def readyOf (entries : List Pollfd) : List (Descriptor × ℕ) :=
  (entries.filter fun e => e.revents ≠ 0).map fun e => (e.fd, e.revents)

theorem readyOf_cons (e : Pollfd) (rest : List Pollfd) :
    readyOf (e :: rest) =
      if e.revents = 0 then readyOf rest
      else (e.fd, e.revents) :: readyOf rest := by
  unfold readyOf
  by_cases hready : e.revents = 0 <;> simp [hready]

theorem fired_of_not_ready
    {entries : List Pollfd}
    (hnone : (entries.countP fun e => e.revents ≠ 0) = 0) :
    readyOf entries = [] := by
  rw [List.countP_eq_length_filter, List.length_eq_zero_iff] at hnone
  simp only [readyOf, hnone, List.map_nil]

/-- The counter never stops the loop before the last entry that is ready. -/
theorem reportEntries_fired
    (entries : List Pollfd) {num : ℤ} (poller : PollPoller)
    (hnum :
      num < 0 ∨ (entries.countP fun e => e.revents ≠ 0 : ℕ) ≤ num) :
    reportEntries entries num poller =
      ((fired poller.eventHandlers (readyOf entries)).map Prod.fst,
        { poller with
          handlers :=
            setRevents poller.handlers
              (fired poller.eventHandlers (readyOf entries)) }) := by
  induction entries generalizing num poller with
  | nil => rfl
  | cons e rest ih =>
      by_cases hready : e.revents = 0
      · simp only [reportEntries, readyOf_cons, hready, if_true]
        apply ih
        simpa [hready] using hnum
      · have hlookup :
            poller.getEventHandler e.fd =
              lookup poller.eventHandlers e.fd := rfl
        have hcount :
            num < 0 ∨
              (rest.countP fun e => e.revents ≠ 0 : ℕ) + 1 ≤ num := by
          simpa [hready] using hnum
        simp only [reportEntries, readyOf_cons, hready, if_false, fired_cons,
          hlookup]
        cases lookup poller.eventHandlers e.fd with
        | none => exact ih poller (by omega)
        | some handle =>
            simp only
            split
            next hstop =>
              -- nothing that is ready is left
              rw [fired_of_not_ready (by omega : rest.countP _ = 0)]
              rfl
            next =>
              rw [ih _ (by omega)]
              rfl

theorem pollOnce_eq (outcome : PollOutcome) (poller : PollPoller) :
    poller.pollOnce outcome =
      ((fired poller.eventHandlers
          (readyOf (pollEntries poller.pollfds outcome))).map Prod.fst,
        { poller with
          handlers :=
            setRevents poller.handlers
              (fired poller.eventHandlers
                (readyOf (pollEntries poller.pollfds outcome)))
          pollfds := pollEntries poller.pollfds outcome
          polling := false }) := by
  have hnum :
      pollResult poller.pollfds outcome < 0 ∨
        ((pollEntries poller.pollfds outcome).countP
          fun e => e.revents ≠ 0 : ℕ) ≤ pollResult poller.pollfds outcome := by
    cases outcome with
    | ready revents => exact .inr le_rfl
    | interrupted => exact .inl (by simp [pollResult])
    | refused => exact .inl (by simp [pollResult])
  simp only [pollOnce, reportEntries_fired _ _ hnum]

end Changes

/-! ## The loops' view -/

section View

def viewCall (poller : PollPoller) : PollLabel → ViewCall
  | .construct ptr => .construct ptr
  | .destroy _ => .other
  | .setEvents _ _ => .other
  | .add ptr => .insert ptr
  | .remove ptr => .erase ptr
  | .poll outcome =>
      .poll (seen (readyOf (pollEntries poller.pollfds outcome)))
        (poller.pollOnce outcome).1

variable {fd : HandlerId → Descriptor} {poller next : PollPoller}
    {view : PollerView}

theorem Shows.of_masks
    {table : List (Descriptor × HandlerId)}
    {handlers changed : HandlerId → Option EventHandler}
    (hshows : Shows fd table handlers view)
    (hmasks : ∀ ptr, masks changed ptr = masks handlers ptr) :
    Shows fd table changed view :=
  ⟨hshows.table_eq, hshows.revents.of_masks hmasks⟩

theorem step_shows
    (hshows : Shows fd poller.eventHandlers poller.handlers view)
    {label : PollLabel}
    (hstep : PollPoller.step fd poller label = some next) :
    ∃ after,
      PollerView.step fd view (viewCall poller label) = some after ∧
        Shows fd next.eventHandlers next.handlers after := by
  cases label with
  | construct ptr =>
      obtain rfl := Option.some.inj hstep
      exact ⟨_, rfl, hshows.construct ptr⟩
  | destroy ptr =>
      obtain rfl := Option.some.inj hstep
      exact ⟨view, rfl, hshows.destroy ptr⟩
  | setEvents ptr events =>
      obtain rfl := Option.some.inj hstep
      exact ⟨view, rfl, hshows.setEvents ptr events⟩
  | add ptr =>
      obtain ⟨htable, -, hmasks⟩ := addEventHandler_changes hstep
      refine ⟨_, rfl, ?_⟩
      rw [htable]
      exact Shows.of_masks (hshows.insert ptr) hmasks
  | remove ptr =>
      obtain ⟨htable, hmasks⟩ := removeEventHandler_changes hstep
      refine ⟨_, rfl, ?_⟩
      rw [htable]
      exact Shows.of_masks (hshows.erase ptr) hmasks
  | poll outcome =>
      obtain rfl := Option.some.inj hstep
      simp only [viewCall, pollOnce_eq]
      exact hshows.poll _

theorem run_shows
    {labels : List PollLabel} {final : PollPoller}
    (hrun : run (PollPoller.step fd) PollPoller.new labels = some final) :
    ∃ view,
      run (PollerView.step fd) PollerView.new
          (translated (PollPoller.step fd) viewCall PollPoller.new labels) =
        some view ∧ Shows fd final.eventHandlers final.handlers view := by
  apply run_simulates (PollPoller.step fd) (PollerView.step fd) viewCall
    (fun poller => Shows fd poller.eventHandlers poller.handlers)
    (fun _ _ => True)
  · intro state view label next hshows _ hnext
    exact step_shows hshows hnext
  · exact Shows.new
  · exact hrun
  · exact EachStep.of_forall _ (fun _ _ _ => trivial) _

/-- Whatever is called and whatever `poll` returns, every run is a run of the
view. -/
theorem pollPoller_refines
    {labels : List PollLabel} {final : PollPoller}
    (hrun : run (PollPoller.step fd) PollPoller.new labels = some final) :
    ∃ view,
      run (PollerView.step fd) PollerView.new
          (translated (PollPoller.step fd) viewCall PollPoller.new labels) =
        some view ∧
      final.eventHandlers = tableOf fd view.registered ∧
      ∀ ptr handler, final.handlers ptr = some handler →
        view.revents ptr = maskEvents handler.revents := by
  obtain ⟨view, hview, hshows⟩ := run_shows hrun
  exact ⟨view, hview, hshows.table_eq, hshows.revents⟩

theorem pollPoller_refines_two_handlers :
    ∃ final view,
      run (PollPoller.step smallDescriptor) PollPoller.new
          [.construct 0, .setEvents 0 1, .add 0, .construct 1, .add 1,
            .poll (.ready fun i => i), .poll .refused, .remove 0] =
        some final ∧
      run (PollerView.step smallDescriptor) PollerView.new
          (translated (PollPoller.step smallDescriptor) viewCall
            PollPoller.new
            [.construct 0, .setEvents 0 1, .add 0, .construct 1, .add 1,
              .poll (.ready fun i => i), .poll .refused, .remove 0]) =
        some view ∧
      final.eventHandlers = tableOf smallDescriptor view.registered :=
  have hrefines :=
    @pollPoller_refines smallDescriptor
      [.construct 0, .setEvents 0 1, .add 0, .construct 1, .add 1,
        .poll (.ready fun i => i), .poll .refused, .remove 0] _ rfl
  hrefines.elim fun view hview => ⟨_, view, rfl, hview.1, hview.2.1⟩

theorem Arranged.entry_fd_ne
    {order : List HandlerId} (harranged : Arranged fd order poller)
    {ptr : HandlerId} (hlive : poller.indexOf ptr ≠ none)
    (hidle : ptr ∉ order) :
    ∀ e ∈ poller.pollfds, e.fd ≠ fd ptr := by
  intro e he hfd
  have hmem : e.fd ∈ poller.pollfds.map Pollfd.fd := List.mem_map_of_mem he
  rw [harranged.entries, List.mem_map] at hmem
  obtain ⟨other, hother, hsame⟩ := hmem
  have heq :=
    harranged.distinct other ptr (harranged.live hother) hlive
      (hsame.trans hfd)
  exact hidle (heq ▸ hother)

/-- After a removal the entries are those with another descriptor. -/
theorem Arranged.removeEventHandler_entries
    {order : List HandlerId} (harranged : Arranged fd order poller)
    {ptr : HandlerId} (hlive : poller.indexOf ptr ≠ none) :
    ∃ next, PollPoller.removeEventHandler fd ptr poller = some next ∧
      (∃ ptrs, Arranged fd ptrs next) ∧
      next.pollfds.Perm (poller.pollfds.filter fun e => e.fd ≠ fd ptr) := by
  have hkept :
      ∀ {ptrs : List HandlerId} {next : PollPoller},
        Arranged fd ptrs next → next.indexOf ptr ≠ none → ptr ∉ ptrs →
          (next.pollfds.filter fun e => e.fd ≠ fd ptr) = next.pollfds := by
    intro ptrs next hnext hthere hout
    apply List.filter_eq_self.mpr
    intro e he
    simpa using hnext.entry_fd_ne hthere hout e he
  by_cases hmem : ptr ∈ order
  · obtain ⟨i, hi⟩ := List.mem_iff_getElem?.mp hmem
    obtain ⟨next, hnext, hremoved⟩ :=
      harranged.removeEventHandler_registered hi
    have hafter := harranged.of_removed hi hremoved
    have hout : ptr ∉ swapRemove order i := fun hptr =>
      ((mem_swapRemove_iff harranged.nodup hi ptr).mp hptr).2 rfl
    refine ⟨next, hnext, ⟨_, hafter⟩, ?_⟩
    have hbound : i < poller.pollfds.length := by
      rw [harranged.length_eq]
      exact (List.getElem?_eq_some_iff.mp hi).1
    have hentry := List.getElem?_eq_getElem hbound
    obtain ⟨other, hother, hfd⟩ := harranged.entry_order hentry
    obtain rfl : ptr = other := Option.some.inj (hi.symm.trans hother)
    have hperm :=
      (swapRemove_perm hentry).filter fun e => e.fd ≠ fd ptr
    rw [List.filter_cons_of_neg (by simp [hfd]), ← hremoved.pollfds,
      hkept hafter (by simp [hremoved.indexOf_self]) hout] at hperm
    exact hperm
  · refine ⟨poller, harranged.removeEventHandler_idle hlive hmem,
      ⟨order, harranged⟩, ?_⟩
    rw [hkept harranged hlive hmem]

end View

/-! ## A `poll` that fails -/

section Failure

variable {fd : HandlerId → Descriptor} {poller next : PollPoller}

/-- What is reported when `poll` writes nothing: the registered handlers whose
entries still hold some returned events. -/
def Stale
    (fd : HandlerId → Descriptor) (poller : PollPoller) (ptr : HandlerId) :
    Prop :=
  poller.Registered ptr ∧
    ∃ e ∈ poller.pollfds, e.fd = fd ptr ∧ e.revents ≠ 0

theorem Arranged.stale_iff
    {order : List HandlerId} (harranged : Arranged fd order poller)
    (ptr : HandlerId) :
    ptr ∈ (poller.pollOnce .refused).1 ↔ Stale fd poller ptr :=
  harranged.consistent.reports_iff .refused ptr

theorem pollOnce_refused_after
    (outcome : PollOutcome) (poller : PollPoller) :
    ((poller.pollOnce outcome).2.pollOnce .refused).1 =
      (poller.pollOnce outcome).1 := by
  simp only [pollOnce_eq, pollEntries]

theorem pollOnce_interrupted (poller : PollPoller) :
    (poller.pollOnce .interrupted).1 = [] := by
  have hnone : readyOf (pollEntries poller.pollfds .interrupted) = [] := by
    apply fired_of_not_ready
    simp [pollEntries, List.countP_eq_zero]
  simp only [pollOnce_eq, hnone]
  rfl

/-- A call of `poll` that gets as far as the entries. -/
def Writes : PollLabel → Prop
  | .poll (.ready _) => True
  | .poll .interrupted => True
  | _ => False

/-- The entry of a new registration has no returned events yet. -/
theorem Arranged.stale_add
    {order : List HandlerId} (harranged : Arranged fd order poller)
    {added : HandlerId} (hlive : poller.indexOf added ≠ none)
    (hidle : added ∉ order)
    (hadd : PollPoller.addEventHandler fd added poller = some next)
    (ptr : HandlerId) :
    Stale fd next ptr ↔ Stale fd poller ptr := by
  obtain ⟨after, hafter, hkept⟩ := harranged.addEventHandler hlive hidle
  obtain rfl := Option.some.inj (hadd.symm.trans hafter)
  obtain ⟨-, ⟨handler, -, hpollfds⟩, -⟩ := addEventHandler_changes hadd
  unfold Stale
  rw [harranged.registered_iff, hkept.registered_iff, hpollfds]
  constructor
  · rintro ⟨hptr, e, he, hfd, hready⟩
    rcases List.mem_append.mp he with hold | hnew
    · rcases List.mem_append.mp hptr with hptr | hptr
      · exact ⟨hptr, e, hold, hfd, hready⟩
      · rw [List.mem_singleton.mp hptr] at hfd
        exact (harranged.entry_fd_ne hlive hidle e hold hfd).elim
    · rw [List.mem_singleton.mp hnew] at hready
      exact (hready rfl).elim
  · rintro ⟨hptr, e, he, hfd, hready⟩
    exact ⟨List.mem_append_left _ hptr, e, List.mem_append_left _ he, hfd,
      hready⟩

theorem Arranged.stale_remove
    {order : List HandlerId} (harranged : Arranged fd order poller)
    {removed : HandlerId} (hlive : poller.indexOf removed ≠ none)
    (hremove : PollPoller.removeEventHandler fd removed poller = some next)
    (ptr : HandlerId) :
    Stale fd next ptr ↔ Stale fd poller ptr ∧ ptr ≠ removed := by
  obtain ⟨after, hafter, -, hpollfds⟩ :=
    harranged.removeEventHandler_entries hlive
  obtain rfl := Option.some.inj (hremove.symm.trans hafter)
  obtain ⟨htable, -⟩ := removeEventHandler_changes hremove
  have hmem :
      ∀ e, e ∈ next.pollfds ↔ e ∈ poller.pollfds ∧ e.fd ≠ fd removed := by
    intro e
    simpa using hpollfds.mem_iff (a := e)
  unfold Stale
  constructor
  · rintro ⟨⟨entry, hentry, rfl⟩, e, he, hfd, hready⟩
    rw [htable] at hentry
    have hold : entry ∈ poller.eventHandlers :=
      (List.mem_filter.mp hentry).1
    refine ⟨⟨⟨entry, hold, rfl⟩, e, ((hmem e).mp he).1, hfd, hready⟩, ?_⟩
    rintro rfl
    exact ((hmem e).mp he).2 hfd
  · rintro ⟨⟨hptr, e, he, hfd, hready⟩, hne⟩
    have hdistinct : fd ptr ≠ fd removed := by
      intro hsame
      rw [harranged.registered_iff] at hptr
      exact hne
        (harranged.distinct ptr removed (harranged.live hptr) hlive hsame)
    refine ⟨?_, e, (hmem e).mpr ⟨he, hfd ▸ hdistinct⟩, hfd, hready⟩
    obtain ⟨entry, hentry, rfl⟩ := hptr
    have hkey := ((harranged.mem_table_iff entry).mp hentry).2
    refine ⟨entry, ?_, rfl⟩
    rw [htable]
    simpa [eraseEventHandler, Poller.eraseEventHandler, hkey] using
      ⟨hentry, hdistinct⟩

theorem Arranged.stale_step
    {order : List HandlerId} (harranged : Arranged fd order poller)
    {label : PollLabel} (hallowed : PollAllowed fd poller label)
    (hidle : ¬ Writes label)
    (hstep : PollPoller.step fd poller label = some next)
    (ptr : HandlerId) :
    Stale fd next ptr ↔ Stale fd poller ptr ∧ label ≠ .remove ptr := by
  cases label with
  | construct other =>
      obtain rfl := Option.some.inj hstep
      simp [Stale, Registered]
  | destroy other =>
      obtain rfl := Option.some.inj hstep
      simp [Stale, Registered]
  | setEvents other events =>
      obtain rfl := Option.some.inj hstep
      simp [Stale, Registered, modifyHandler, Poller.modifyHandler]
  | add other =>
      have hidle : other ∉ order := fun hother =>
        hallowed.2 ((harranged.registered_iff other).mpr hother)
      have hlive := (poller.handlers_ne_none_iff other).mp hallowed.1
      rw [harranged.stale_add hlive hidle hstep]
      simp
  | remove other =>
      have hlive := (poller.handlers_ne_none_iff other).mp hallowed
      rw [harranged.stale_remove hlive hstep, ne_comm]
      simp
  | poll outcome =>
      cases outcome with
      | ready revents => exact (hidle trivial).elim
      | interrupted => exact (hidle trivial).elim
      | refused =>
          obtain rfl := Option.some.inj hstep
          simp [Stale, Registered, pollOnce_eq, pollEntries]

theorem Arranged.stale_run
    {order : List HandlerId} (harranged : Arranged fd order poller)
    {labels : List PollLabel} {final : PollPoller}
    (hallowed : EachStep (PollPoller.step fd) (PollAllowed fd) poller labels)
    (hidle : ∀ label ∈ labels, ¬ Writes label)
    (hrun : run (PollPoller.step fd) poller labels = some final)
    (ptr : HandlerId) :
    Stale fd final ptr ↔ Stale fd poller ptr ∧ .remove ptr ∉ labels := by
  induction labels generalizing poller order with
  | nil =>
      obtain rfl := Option.some.inj hrun
      simp
  | cons label labels ih =>
      obtain ⟨next, hnext, hrest⟩ := (run_cons_eq_some_iff _).mp hrun
      simp only [EachStep, hnext] at hallowed
      rw [List.forall_mem_cons] at hidle
      obtain ⟨after, hafter, ptrs, hkept⟩ := harranged.step hallowed.1
      obtain rfl := Option.some.inj (hnext.symm.trans hafter)
      rw [ih hkept hallowed.2 hidle.2 hrest,
        harranged.stale_step hallowed.1 hidle.1 hnext, List.mem_cons,
        not_or, and_assoc]
      exact and_congr_right fun _ => and_congr_left fun _ => ne_comm

theorem Arranged.of_run
    {order : List HandlerId} (harranged : Arranged fd order poller)
    {labels : List PollLabel} {final : PollPoller}
    (hallowed : EachStep (PollPoller.step fd) (PollAllowed fd) poller labels)
    (hrun : run (PollPoller.step fd) poller labels = some final) :
    ∃ ptrs, Arranged fd ptrs final := by
  apply run_preserves (PollPoller.step fd)
    (fun poller => ∃ ptrs, Arranged fd ptrs poller) (PollAllowed fd)
  · rintro state label next ⟨ptrs, hptrs⟩ hlabel hnext
    obtain ⟨after, hafter, hkept⟩ := hptrs.step hlabel
    obtain rfl := Option.some.inj (hnext.symm.trans hafter)
    exact hkept
  · exact ⟨order, harranged⟩
  · exact hrun
  · exact hallowed

/-- As long as no `poll` gets as far as the entries, `PollOnce` reports once
more the handlers of the last one that did, except those that have been removed
since.  A `poll` that a signal interrupts reports nothing. -/
theorem refused_poll_repeats
    {before after : List PollLabel} {outcome : PollOutcome}
    {poller final : PollPoller}
    (hallowed :
      EachStep (PollPoller.step fd) (PollAllowed fd) PollPoller.new
        (before ++ .poll outcome :: after))
    (hbefore :
      run (PollPoller.step fd) PollPoller.new before = some poller)
    (hidle : ∀ label ∈ after, ¬ Writes label)
    (hafter :
      run (PollPoller.step fd) (poller.pollOnce outcome).2 after =
        some final) :
    (∀ ptr, ptr ∈ (final.pollOnce .refused).1 ↔
      ptr ∈ (poller.pollOnce outcome).1 ∧ .remove ptr ∉ after) ∧
      (final.pollOnce .interrupted).1 = [] := by
  obtain ⟨hfirst, hsecond⟩ := EachStep.of_append _ hallowed hbefore
  obtain ⟨order, harranged⟩ := Arranged.new.of_run hfirst hbefore
  have hpolled := harranged.pollOnce outcome
  have hrest :
      EachStep (PollPoller.step fd) (PollAllowed fd)
        (poller.pollOnce outcome).2 after := hsecond.2
  obtain ⟨ptrs, hfinal⟩ := hpolled.of_run hrest hafter
  refine ⟨?_, final.pollOnce_interrupted⟩
  intro ptr
  rw [hfinal.stale_iff, hpolled.stale_run hrest hidle hafter,
    ← hpolled.stale_iff, pollOnce_refused_after]

/-- Of two handlers that were ready one is removed before the failure. -/
theorem refused_poll_repeats_one_left :
    ∃ poller final,
      run (PollPoller.step smallDescriptor) PollPoller.new
          [.construct 1, .add 1, .construct 2, .add 2] = some poller ∧
      run (PollPoller.step smallDescriptor)
          (poller.pollOnce (.ready fun _ => 1)).2
          [.remove 1, .poll .refused] =
        some final ∧
      ∀ ptr, ptr ∈ (final.pollOnce .refused).1 ↔
        ptr ∈ (poller.pollOnce (.ready fun _ => 1)).1 ∧
          .remove ptr ∉ [PollLabel.remove 1, PollLabel.poll .refused] := by
  refine ⟨_, _, rfl, rfl, ?_⟩
  refine (@refused_poll_repeats smallDescriptor
    [.construct 1, .add 1, .construct 2, .add 2]
    [.remove 1, .poll .refused] (.ready fun _ => 1)
    _ _ ?_ rfl (by simp [Writes]) rfl).1
  refine ⟨⟨rfl, by decide, fun other hother => (hother rfl).elim⟩,
    ⟨by decide, by decide⟩, ⟨rfl, by decide, ?_⟩, ⟨by decide, by decide⟩,
    trivial, by unfold PollAllowed; decide, trivial, trivial⟩
  intro other hother
  by_cases heq : other = 1
  · rw [heq]
    decide
  · exfalso
    apply hother
    simp [heq, PollPoller.new, Poller.new, setIndex, modifyHandler,
      Poller.modifyHandler, Poller.eraseEventHandler]

end Failure

end PollPoller

/-! ## Both pollers under the same calls -/

/-- What the kernel returns for a descriptor that is watched: the requested
events, `POLLERR` and `POLLHUP`, as far as they are ready. -/
def kernelMask (ready : Descriptor → ℕ) (d : Descriptor) (events : ℕ) : ℕ :=
  ready d &&& (events ||| 24)

/-- What `poll` writes. -/
def pollOutcome (ready : Descriptor → ℕ) (poller : PollPoller) :
    PollPoller.PollOutcome :=
  .ready fun i =>
    ((poller.pollfds[i]?).map fun e => kernelMask ready e.fd e.events).getD 0

/-- What `epoll_wait` may return. -/
def readyEntries (ready : Descriptor → ℕ) (poller : EpollPoller) :
    List (Descriptor × ℕ) :=
  (poller.interest.map fun e => (e.1, kernelMask ready e.1 e.2)).filter
    fun e => e.2 ≠ 0

/-- `epoll_wait` returns some of the descriptors that are ready, and all of
them if they fit into `events_`. -/
structure Answers
    (ready : Descriptor → ℕ) (poller : EpollPoller)
    (returned : List (Descriptor × ℕ)) : Prop where
  some_ready : returned.Subperm (readyEntries ready poller)
  all_if_fits :
    ((readyEntries ready poller).length : ℤ) ≤ toInt32 poller.eventsSize →
      returned.Perm (readyEntries ready poller)

/-- In the last case a signal interrupts the system call while nothing is
ready. -/
inductive PollerCall where
  | construct (ptr : HandlerId)
  | destroy (ptr : HandlerId)
  | setEvents (ptr : HandlerId) (events : ℕ)
  | add (ptr : HandlerId)
  | remove (ptr : HandlerId)
  | poll (ready : Descriptor → ℕ) (returned : List (Descriptor × ℕ))
  | interrupted

structure Pollers where
  poll : PollPoller
  epoll : EpollPoller

namespace Pollers

def new : Pollers where
  poll := PollPoller.new
  epoll := EpollPoller.new

def onPoll (pollers : Pollers) : PollerCall → PollPoller.PollLabel
  | .construct ptr => .construct ptr
  | .destroy ptr => .destroy ptr
  | .setEvents ptr events => .setEvents ptr events
  | .add ptr => .add ptr
  | .remove ptr => .remove ptr
  | .poll ready _ => .poll (pollOutcome ready pollers.poll)
  | .interrupted => .poll .interrupted

def onEpoll : PollerCall → EpollPoller.EpollLabel
  | .construct ptr => .construct ptr
  | .destroy ptr => .destroy ptr
  | .setEvents ptr events => .setEvents ptr events
  | .add ptr => .add ptr false
  | .remove ptr => .remove ptr
  | .poll _ returned => .poll (some returned)
  | .interrupted => .poll none

section Steps

variable (fd : HandlerId → Descriptor)

def step (pollers : Pollers) (call : PollerCall) : Option Pollers :=
  match PollPoller.step fd pollers.poll (pollers.onPoll call),
    EpollPoller.step fd pollers.epoll (onEpoll call) with
  | some poll, some epoll => some ⟨poll, epoll⟩
  | _, _ => none

/-- What is asked of the caller, as for one `PollPoller`, and of the kernel. -/
def Allowed (pollers : Pollers) : PollerCall → Prop
  | .construct ptr => PollPoller.PollAllowed fd pollers.poll (.construct ptr)
  | .destroy ptr =>
      pollers.poll.handlers ptr ≠ none ∧ ¬ pollers.poll.Registered ptr
  | .setEvents _ _ => True
  | .add ptr => PollPoller.PollAllowed fd pollers.poll (.add ptr)
  | .remove ptr => PollPoller.PollAllowed fd pollers.poll (.remove ptr)
  | .poll ready returned => Answers ready pollers.epoll returned
  | .interrupted => True

/-- The same table, the same handlers up to indices and returned events, and
the same entries in some order. -/
structure Interchangeable (pollers : Pollers) : Prop where
  arranged : ∃ order, PollPoller.Arranged fd order pollers.poll
  table : pollers.epoll.eventHandlers = pollers.poll.eventHandlers
  events :
    ∀ ptr, (pollers.epoll.handlers ptr).map EventHandler.events =
      (pollers.poll.handlers ptr).map EventHandler.events
  interest :
    pollers.epoll.interest.Perm
      (pollers.poll.pollfds.map fun e => (e.fd, e.events))
  polling : pollers.epoll.polling = false

end Steps

namespace Interchangeable

variable {fd : HandlerId → Descriptor} {pollers : Pollers}

theorem new : Interchangeable fd Pollers.new where
  arranged := ⟨[], PollPoller.Arranged.new⟩
  table := rfl
  events := fun _ => rfl
  interest := List.Perm.nil
  polling := rfl

theorem live_iff (hsame : Interchangeable fd pollers) (ptr : HandlerId) :
    pollers.epoll.handlers ptr = none ↔
      pollers.poll.handlers ptr = none := by
  have hevents := hsame.events ptr
  rw [← Option.map_eq_none_iff (f := EventHandler.events), hevents,
    Option.map_eq_none_iff]

/-- The kernel watches the descriptors of the registered handlers. -/
theorem watches_iff
    (hsame : Interchangeable fd pollers) {order : List HandlerId}
    (harranged : PollPoller.Arranged fd order pollers.poll)
    {ptr : HandlerId} (hlive : pollers.poll.handlers ptr ≠ none) :
    pollers.epoll.Watches (fd ptr) ↔ ptr ∈ order := by
  have hperm := hsame.interest.map Prod.fst
  rw [List.map_map] at hperm
  have hentries :
      pollers.poll.pollfds.map (Prod.fst ∘ fun e => (e.fd, e.events)) =
        order.map fd := harranged.entries
  rw [hentries] at hperm
  unfold EpollPoller.Watches
  rw [hperm.mem_iff, List.mem_map]
  constructor
  · rintro ⟨other, hother, hfd⟩
    have heq :=
      harranged.distinct other ptr (harranged.live hother)
        ((pollers.poll.handlers_ne_none_iff ptr).mp hlive) hfd
    exact heq ▸ hother
  · intro hptr
    exact ⟨ptr, hptr, rfl⟩

theorem construct
    (hsame : Interchangeable fd pollers) {ptr : HandlerId}
    (hallowed : Allowed fd pollers (.construct ptr)) :
    ∃ next, step fd pollers (.construct ptr) = some next ∧
      Interchangeable fd next := by
  obtain ⟨order, harranged⟩ := hsame.arranged
  refine ⟨_, rfl, ?_⟩
  constructor
  · exact ⟨order,
      harranged.construct hallowed.1 hallowed.2.1 hallowed.2.2⟩
  · exact hsame.table
  · intro other
    by_cases heq : other = ptr
    · subst other
      simp
    · simpa [heq] using hsame.events other
  · exact hsame.interest
  · exact hsame.polling

theorem destroy
    (hsame : Interchangeable fd pollers) {ptr : HandlerId}
    (hallowed : Allowed fd pollers (.destroy ptr)) :
    ∃ next, step fd pollers (.destroy ptr) = some next ∧
      Interchangeable fd next := by
  obtain ⟨order, harranged⟩ := hsame.arranged
  have hidle : ptr ∉ order := fun hptr =>
    hallowed.2 ((harranged.registered_iff ptr).mpr hptr)
  have hunwatched : ¬ pollers.epoll.Watches (fd ptr) := by
    rw [hsame.watches_iff harranged hallowed.1]
    exact hidle
  refine ⟨_, rfl, ?_⟩
  constructor
  · exact ⟨order, harranged.destroy hidle⟩
  · exact hsame.table
  · intro other
    by_cases heq : other = ptr
    · subst other
      simp
    · simpa [heq] using hsame.events other
  · simp only [EpollPoller.unwatch_of_not_watches hunwatched]
    exact hsame.interest
  · exact hsame.polling

theorem setEvents
    (hsame : Interchangeable fd pollers) (ptr : HandlerId) (events : ℕ) :
    ∃ next, step fd pollers (.setEvents ptr events) = some next ∧
      Interchangeable fd next := by
  obtain ⟨order, harranged⟩ := hsame.arranged
  refine ⟨_, rfl, ?_⟩
  constructor
  · refine ⟨order, harranged.congr rfl rfl ?_ harranged.polling⟩
    intro other
    exact pollers.poll.indexOf_modifyHandler_same ptr other fun _ => rfl
  · exact hsame.table
  · intro other
    simp only [EpollPoller.modifyHandler, PollPoller.modifyHandler,
      Poller.modifyHandler]
    by_cases heq : other = ptr
    · subst other
      have hevents :=
        congrArg (Option.map fun _ => events) (hsame.events ptr)
      simpa [Option.map_map, Function.comp_def] using hevents
    · simpa [heq] using hsame.events other
  · exact hsame.interest
  · exact hsame.polling

theorem events_of_masks
    {handlers changed : HandlerId → Option EventHandler} {ptr : HandlerId}
    (hmasks : masks changed ptr = masks handlers ptr) :
    (changed ptr).map EventHandler.events =
      (handlers ptr).map EventHandler.events := by
  have hfirst := congrArg (Option.map Prod.fst) hmasks
  unfold masks at hfirst
  rwa [Option.map_map, Option.map_map] at hfirst

theorem add
    (hsame : Interchangeable fd pollers) {ptr : HandlerId}
    (hallowed : Allowed fd pollers (.add ptr)) :
    ∃ next, step fd pollers (.add ptr) = some next ∧
      Interchangeable fd next := by
  obtain ⟨order, harranged⟩ := hsame.arranged
  have hidle : ptr ∉ order := fun hptr =>
    hallowed.2 ((harranged.registered_iff ptr).mpr hptr)
  have hlive := (pollers.poll.handlers_ne_none_iff ptr).mp hallowed.1
  obtain ⟨poll, hpoll, hafter⟩ := harranged.addEventHandler hlive hidle
  obtain ⟨htable, ⟨handler, hhandler, hpollfds⟩, hmasks⟩ :=
    PollPoller.addEventHandler_changes hpoll
  have hunwatched : ¬ pollers.epoll.Watches (fd ptr) := by
    rw [hsame.watches_iff harranged hallowed.1]
    exact hidle
  have hevents := hsame.events ptr
  rw [hhandler] at hevents
  obtain ⟨other, hother, hequal⟩ := Option.map_eq_some_iff.mp hevents
  have hepoll :
      EpollPoller.addEventHandler fd false ptr pollers.epoll =
        some (EpollPoller.afterAdd fd false ptr other pollers.epoll) :=
    EpollPoller.addEventHandler_eq_some.mpr
      ⟨hsame.polling, harranged.positive ptr hlive, other, hother, rfl⟩
  have hchosen :
      ¬ (pollers.epoll.Watches (fd ptr) ∨ false = true) := by
    simpa using hunwatched
  refine ⟨⟨poll, EpollPoller.afterAdd fd false ptr other pollers.epoll⟩,
    ?_, ?_⟩
  · simp only [step, onPoll, onEpoll, PollPoller.step, EpollPoller.step,
      hpoll, hepoll]
  · simp only [EpollPoller.afterAdd, if_neg hchosen]
    constructor
    · exact ⟨_, hafter⟩
    · simp only [htable, EpollPoller.eraseEventHandler,
        PollPoller.eraseEventHandler, Poller.eraseEventHandler, hsame.table]
    · intro ptr
      exact (hsame.events ptr).trans (events_of_masks (hmasks ptr)).symm
    · simp only [hpollfds, List.map_append, hequal]
      exact hsame.interest.append_right _
    · exact hsame.polling

theorem remove
    (hsame : Interchangeable fd pollers) {ptr : HandlerId}
    (hallowed : Allowed fd pollers (.remove ptr)) :
    ∃ next, step fd pollers (.remove ptr) = some next ∧
      Interchangeable fd next := by
  obtain ⟨order, harranged⟩ := hsame.arranged
  have hlive := (pollers.poll.handlers_ne_none_iff ptr).mp hallowed
  have hepoll :
      EpollPoller.removeEventHandler fd ptr pollers.epoll =
        some ((pollers.epoll.eraseEventHandler (fd ptr)).unwatch
          (fd ptr)) := by
    refine EpollPoller.removeEventHandler_eq_some.mpr
      ⟨hsame.polling, ?_, harranged.positive ptr hlive, rfl⟩
    rw [ne_eq, hsame.live_iff]
    exact hallowed
  obtain ⟨poll, hpoll, hafter, hpollfds⟩ :=
    harranged.removeEventHandler_entries hlive
  obtain ⟨htable, hmasks⟩ := PollPoller.removeEventHandler_changes hpoll
  refine ⟨⟨poll, (pollers.epoll.eraseEventHandler (fd ptr)).unwatch (fd ptr)⟩,
    ?_, ?_⟩
  · simp only [step, onPoll, onEpoll, PollPoller.step, EpollPoller.step,
      hpoll, hepoll]
  · constructor
    · exact hafter
    · simp only [htable, EpollPoller.unwatch, EpollPoller.eraseEventHandler,
        PollPoller.eraseEventHandler, Poller.eraseEventHandler, hsame.table]
    · intro other
      exact (hsame.events other).trans (events_of_masks (hmasks other)).symm
    · have hleft := hsame.interest.filter fun entry => entry.1 ≠ fd ptr
      rw [List.filter_map] at hleft
      exact hleft.trans (hpollfds.map _).symm
    · exact hsame.polling

/-! ## The reports -/

theorem pollEntries_pollOutcome
    (ready : Descriptor → ℕ) (poller : PollPoller) :
    PollPoller.pollEntries poller.pollfds (pollOutcome ready poller) =
      poller.pollfds.map fun e =>
        { e with revents := kernelMask ready e.fd e.events } := by
  apply List.ext_getElem?
  intro i
  simp only [pollOutcome, PollPoller.pollEntries, List.getElem?_mapIdx,
    List.getElem?_map]
  cases poller.pollfds[i]? <;> rfl

/-- Both system calls return the same descriptors and events. -/
theorem readyEntries_perm
    (hsame : Interchangeable fd pollers) (ready : Descriptor → ℕ) :
    (readyEntries ready pollers.epoll).Perm
      (PollPoller.readyOf
        (PollPoller.pollEntries pollers.poll.pollfds
          (pollOutcome ready pollers.poll))) := by
  rw [pollEntries_pollOutcome]
  unfold PollPoller.readyOf readyEntries
  have hperm :=
    (hsame.interest.map fun e => (e.1, kernelMask ready e.1 e.2)).filter
      fun e => e.2 ≠ 0
  rw [List.map_map] at hperm
  apply hperm.trans
  rw [List.filter_map, List.filter_map, List.map_map]
  exact List.Perm.refl _

theorem pollEntries_watched
    (pollfds : List Pollfd) (outcome : PollPoller.PollOutcome) :
    ((PollPoller.pollEntries pollfds outcome).map
        fun e => (e.fd, e.events)) =
      pollfds.map fun e => (e.fd, e.events) := by
  cases outcome with
  | ready revents =>
      apply List.ext_getElem?
      intro i
      simp only [PollPoller.pollEntries, List.getElem?_map,
        List.getElem?_mapIdx, Option.map_map]
      rfl
  | interrupted =>
      rw [PollPoller.pollEntries, List.map_map]
      rfl
  | refused => rfl

theorem poll
    (hsame : Interchangeable fd pollers) (outcome : PollPoller.PollOutcome)
    (returned : Option (List (Descriptor × ℕ))) :
    Interchangeable fd
      ⟨(pollers.poll.pollOnce outcome).2,
        (pollers.epoll.pollOnce returned).2⟩ := by
  obtain ⟨order, harranged⟩ := hsame.arranged
  refine ⟨⟨order, harranged.pollOnce outcome⟩, ?_, ?_, ?_, ?_⟩
  · simp only [PollPoller.pollOnce_eq, EpollPoller.pollOnce_eq, hsame.table]
  · intro ptr
    simp only [PollPoller.pollOnce_eq, EpollPoller.pollOnce_eq]
    rw [setRevents_other EventHandler.events fun _ _ => rfl,
      setRevents_other EventHandler.events fun _ _ => rfl]
    exact hsame.events ptr
  · simp only [PollPoller.pollOnce_eq, EpollPoller.pollOnce_eq,
      pollEntries_watched]
    exact hsame.interest
  · rw [EpollPoller.pollOnce_eq]

theorem step
    (hsame : Interchangeable fd pollers) {call : PollerCall}
    (hallowed : Allowed fd pollers call) :
    ∃ next, Pollers.step fd pollers call = some next ∧
      Interchangeable fd next := by
  cases call with
  | construct ptr => exact hsame.construct hallowed
  | destroy ptr => exact hsame.destroy hallowed
  | setEvents ptr events => exact hsame.setEvents ptr events
  | add ptr => exact hsame.add hallowed
  | remove ptr => exact hsame.remove hallowed
  | poll ready returned => exact ⟨_, rfl, hsame.poll _ _⟩
  | interrupted => exact ⟨_, rfl, hsame.poll _ _⟩

theorem fired_subperm
    (table : List (Descriptor × HandlerId))
    {first second : List (Descriptor × ℕ)} (hsub : first.Subperm second) :
    (fired table first).Subperm (fired table second) := by
  obtain ⟨middle, hperm, hsublist⟩ := hsub
  exact ⟨fired table middle, hperm.filterMap _, hsublist.filterMap _⟩

/-- The handlers that are found in both walks get the same mask. -/
theorem same_revents
    (hsame : Interchangeable fd pollers)
    {first second : List (HandlerId × ℕ)} (hsub : first.Subperm second)
    (hnodup : (second.map Prod.fst).Nodup) {ptr : HandlerId}
    (hptr : ptr ∈ first.map Prod.fst) :
    (setRevents pollers.epoll.handlers first ptr).map EventHandler.revents =
      (setRevents pollers.poll.handlers second ptr).map
        EventHandler.revents := by
  obtain ⟨entry, hentry, rfl⟩ := List.mem_map.mp hptr
  have hfirst : (first.map Prod.fst).Nodup := by
    obtain ⟨middle, hperm, hsublist⟩ := hsub
    exact (hperm.map _).nodup_iff.mp ((hsublist.map _).nodup hnodup)
  rw [setRevents_of_mem _ hfirst hentry,
    setRevents_of_mem _ hnodup (hsub.subset hentry)]
  have hevents :=
    congrArg (Option.map fun _ => entry.2) (hsame.events entry.1)
  simpa [Option.map_map, Function.comp_def] using hevents

end Interchangeable

/-- Both pollers go through every sequence of allowed calls.  Wherever it
stops, the next `PollOnce` of the one reports handlers that the other reports
too, the same ones if `events_` has room for all that are ready, and leaves the
same events in them. -/
theorem pollers_agree
    (fd : HandlerId → Descriptor) {calls : List PollerCall}
    (hallowed : EachStep (step fd) (Allowed fd) Pollers.new calls) :
    ∃ final, run (step fd) Pollers.new calls = some final ∧
      ∀ ready returned, Answers ready final.epoll returned →
        (final.epoll.pollOnce (some returned)).1.Subperm
            (final.poll.pollOnce (pollOutcome ready final.poll)).1 ∧
          (((readyEntries ready final.epoll).length : ℤ) ≤
              toInt32 final.epoll.eventsSize →
            (final.epoll.pollOnce (some returned)).1.Perm
              (final.poll.pollOnce (pollOutcome ready final.poll)).1) ∧
          ∀ ptr ∈ (final.epoll.pollOnce (some returned)).1,
            ((final.epoll.pollOnce (some returned)).2.handlers ptr).map
                EventHandler.revents =
              ((final.poll.pollOnce
                  (pollOutcome ready final.poll)).2.handlers ptr).map
                EventHandler.revents := by
  obtain ⟨final, hrun, hsame⟩ :=
    run_total (step fd) (Interchangeable fd) (Allowed fd)
      (fun _ _ hsame hcall => hsame.step hcall) Interchangeable.new hallowed
  refine ⟨final, hrun, ?_⟩
  intro ready returned hanswers
  obtain ⟨order, harranged⟩ := hsame.arranged
  have honce :=
    harranged.consistent.reports_once (pollOutcome ready final.poll)
  have hready := hsame.readyEntries_perm ready
  have hsub :=
    Interchangeable.fired_subperm final.poll.eventHandlers
      (hanswers.some_ready.trans hready.subperm)
  simp only [PollPoller.pollOnce_eq, EpollPoller.pollOnce_eq, hsame.table,
    Option.getD_some] at honce ⊢
  refine ⟨?_, ?_, ?_⟩
  · obtain ⟨middle, hperm, hsublist⟩ := hsub
    exact ⟨_, hperm.map _, hsublist.map _⟩
  · intro hfits
    exact (((hanswers.all_if_fits hfits).trans hready).filterMap _).map _
  · intro ptr hptr
    exact hsame.same_revents hsub honce hptr

/-- Two handlers wait for different events. -/
theorem pollers_agree_two_handlers :
    ∃ final,
      run (step PollPoller.smallDescriptor) Pollers.new
          [.construct 0, .setEvents 0 1, .add 0, .construct 1,
            .setEvents 1 2, .add 1,
            .poll (fun _ => 5)
              [(PollPoller.smallDescriptor 1, 4),
                (PollPoller.smallDescriptor 0, 1)],
            .interrupted, .remove 0] =
        some final ∧
      ∀ ready returned, Answers ready final.epoll returned →
        (((readyEntries ready final.epoll).length : ℤ) ≤
            toInt32 final.epoll.eventsSize →
          (final.epoll.pollOnce (some returned)).1.Perm
            (final.poll.pollOnce (pollOutcome ready final.poll)).1) := by
  have hagree :=
    @pollers_agree PollPoller.smallDescriptor
      [.construct 0, .setEvents 0 1, .add 0, .construct 1, .setEvents 1 2,
        .add 1,
        .poll (fun _ => 5)
          [(PollPoller.smallDescriptor 1, 4),
            (PollPoller.smallDescriptor 0, 1)],
        .interrupted, .remove 0] ?_
  · obtain ⟨final, hrun, hreports⟩ := hagree
    exact ⟨final, hrun, fun ready returned hanswers =>
      (hreports ready returned hanswers).2.1⟩
  · refine ⟨⟨rfl, by decide, fun other hother => (hother rfl).elim⟩,
      trivial, ⟨by decide, by decide⟩, ⟨rfl, by decide, ?_⟩, trivial,
      ⟨by decide, by decide⟩, ⟨by decide, by decide⟩, trivial,
      by unfold Allowed PollPoller.PollAllowed; decide, trivial⟩
    intro other hother
    by_cases heq : other = 0
    · rw [heq]
      decide
    · exfalso
      apply hother
      simp [heq, Pollers.new, PollPoller.new, Poller.new,
        PollPoller.setIndex, PollPoller.modifyHandler, Poller.modifyHandler,
        Poller.eraseEventHandler]

end Pollers

end GreenTurtle.Polling
