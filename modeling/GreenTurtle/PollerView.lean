import GreenTurtle.EventLoopModel
import GreenTurtle.PollPoller
import Mathlib.Tactic

/-!
# What a loop sees of its poller

The loops of `io_loop.cc` know a poller through its handler table and through
the returned events that it leaves in the handlers.  This file states that view
as a machine of its own, with the operations that the model of the loops uses,
and what the two pollers have in common: the table of `poller.cc` and the loop
of `PollOnce` over the descriptors that are ready.
-/

namespace GreenTurtle.Polling

open Connections (Descriptor HandlerId)
open EventLoops (Events insertHandler eraseHandler kEventNone)
open Execution

/-! ## The view -/

/-- The mask of `set_revents`. -/
def maskEvents (mask : ℕ) : Events where
  readable := hasFlag mask 1
  writeable := hasFlag mask 2

/-- The registered handlers, and the returned events of every handler. -/
structure PollerView where
  registered : List HandlerId
  revents : HandlerId → Events

/-- A call of `PollOnce` comes with the handlers that it has pushed. -/
inductive ViewCall where
  | construct (ptr : HandlerId)
  | insert (ptr : HandlerId)
  | erase (ptr : HandlerId)
  | poll (descriptors : List (Descriptor × Events)) (fired : List HandlerId)
  | other

namespace PollerView

def new : PollerView where
  registered := []
  revents := fun _ => kEventNone

def setRevents
    (revents : HandlerId → Events) (found : List (HandlerId × Events)) :
    HandlerId → Events :=
  found.foldl (fun revents entry => Function.update revents entry.1 entry.2)
    revents

section Steps

variable (fd : HandlerId → Descriptor)

def step (view : PollerView) : ViewCall → Option PollerView
  | .construct ptr =>
      some
        { view with revents := Function.update view.revents ptr kEventNone }
  | .insert ptr =>
      some { view with registered := insertHandler fd ptr view.registered }
  | .erase ptr =>
      some { view with registered := eraseHandler fd ptr view.registered }
  | .poll descriptors fired =>
      let found := EventLoops.pollOnce fd view.registered descriptors
      if fired = found.map Prod.fst then
        some { view with revents := setRevents view.revents found }
      else none
  | .other => some view

end Steps

end PollerView

/-! ## The table -/

section Table

variable (fd : HandlerId → Descriptor)

def tableOf (registered : List HandlerId) : List (Descriptor × HandlerId) :=
  registered.map fun ptr => (fd ptr, ptr)

def lookup (table : List (Descriptor × HandlerId)) (d : Descriptor) :
    Option HandlerId :=
  (table.find? fun entry => entry.1 = d).map Prod.snd

theorem lookup_mem
    {table : List (Descriptor × HandlerId)} {d : Descriptor}
    {ptr : HandlerId} (hlookup : lookup table d = some ptr) :
    (d, ptr) ∈ table := by
  obtain ⟨entry, hentry, rfl⟩ := Option.map_eq_some_iff.mp hlookup
  have hkey : entry.1 = d := by simpa using List.find?_some hentry
  rw [← hkey]
  exact List.mem_of_find?_eq_some hentry

theorem lookup_tableOf (registered : List HandlerId) (d : Descriptor) :
    lookup (tableOf fd registered) d =
      registered.find? fun ptr => fd ptr = d := by
  unfold lookup tableOf
  rw [List.find?_map, Option.map_map]
  exact Option.map_id'

theorem erase_tableOf (registered : List HandlerId) (ptr : HandlerId) :
    ((tableOf fd registered).filter fun entry => entry.1 ≠ fd ptr) =
      tableOf fd (eraseHandler fd ptr registered) := by
  unfold tableOf eraseHandler
  rw [List.filter_map]
  rfl

theorem insert_tableOf (registered : List HandlerId) (ptr : HandlerId) :
    ((tableOf fd registered).filter fun entry => entry.1 ≠ fd ptr) ++
        [(fd ptr, ptr)] =
      tableOf fd (insertHandler fd ptr registered) := by
  rw [erase_tableOf]
  simp [tableOf, insertHandler]

end Table

/-! ## The loop of `PollOnce` -/

/-- The handlers of the descriptors that are ready, with their masks. -/
def fired
    (table : List (Descriptor × HandlerId))
    (returned : List (Descriptor × ℕ)) : List (HandlerId × ℕ) :=
  returned.filterMap fun e =>
    (lookup table e.1).map fun ptr => (ptr, returnedEvents e.2)

def setRevents
    (handlers : HandlerId → Option EventHandler)
    (found : List (HandlerId × ℕ)) : HandlerId → Option EventHandler :=
  found.foldl
    (fun handlers entry =>
      Function.update handlers entry.1
        ((handlers entry.1).map fun handler =>
          { handler with revents := entry.2 }))
    handlers

/-- What the kernel has returned, as the loops see it. -/
def seen (returned : List (Descriptor × ℕ)) : List (Descriptor × Events) :=
  returned.map fun e => (e.1, maskEvents (returnedEvents e.2))

def seenMask (entry : HandlerId × ℕ) : HandlerId × Events :=
  (entry.1, maskEvents entry.2)

theorem fired_cons
    (table : List (Descriptor × HandlerId)) (e : Descriptor × ℕ)
    (rest : List (Descriptor × ℕ)) :
    fired table (e :: rest) =
      match lookup table e.1 with
      | none => fired table rest
      | some ptr => (ptr, returnedEvents e.2) :: fired table rest := by
  unfold fired
  rw [List.filterMap_cons]
  cases lookup table e.1 <;> rfl

/-- On the view, the walk is the one of the model of the loops. -/
theorem fired_tableOf
    (fd : HandlerId → Descriptor) (registered : List HandlerId)
    (returned : List (Descriptor × ℕ)) :
    (fired (tableOf fd registered) returned).map seenMask =
      EventLoops.pollOnce fd registered (seen returned) := by
  unfold fired EventLoops.pollOnce seen
  rw [List.map_filterMap, List.filterMap_map]
  congr 1
  funext e
  simp only [lookup_tableOf, Option.map_map, Function.comp_apply]
  rfl

/-- The returned events of the handlers that exist. -/
def SameRevents
    (handlers : HandlerId → Option EventHandler)
    (revents : HandlerId → Events) : Prop :=
  ∀ ptr handler, handlers ptr = some handler →
    revents ptr = maskEvents handler.revents

theorem SameRevents.update
    {handlers : HandlerId → Option EventHandler}
    {revents : HandlerId → Events} (hsame : SameRevents handlers revents)
    (ptr : HandlerId) {changed : Option EventHandler} {events : Events}
    (hchanged :
      ∀ handler, changed = some handler →
        events = maskEvents handler.revents) :
    SameRevents (Function.update handlers ptr changed)
      (Function.update revents ptr events) := by
  intro other handler hother
  by_cases heq : other = ptr
  · subst other
    rw [Function.update_self] at hother ⊢
    exact hchanged handler hother
  · rw [Function.update_of_ne heq] at hother ⊢
    exact hsame other handler hother

/-- A change that leaves the returned events alone is not seen. -/
theorem SameRevents.congr
    {handlers changed : HandlerId → Option EventHandler}
    {revents : HandlerId → Events} (hsame : SameRevents handlers revents)
    (hchanged :
      ∀ ptr handler, changed ptr = some handler →
        ∃ old, handlers ptr = some old ∧ old.revents = handler.revents) :
    SameRevents changed revents := by
  intro ptr handler hhandler
  obtain ⟨old, hold, hequal⟩ := hchanged ptr handler hhandler
  rw [hsame ptr old hold, hequal]

theorem SameRevents.setRevents
    {handlers : HandlerId → Option EventHandler}
    {revents : HandlerId → Events} (hsame : SameRevents handlers revents)
    (found : List (HandlerId × ℕ)) :
    SameRevents (Polling.setRevents handlers found)
      (PollerView.setRevents revents (found.map seenMask)) := by
  induction found generalizing handlers revents with
  | nil => exact hsame
  | cons entry found ih =>
      apply ih
      apply hsame.update
      intro handler hhandler
      obtain ⟨old, -, rfl⟩ := Option.map_eq_some_iff.mp hhandler
      rfl

/-! ## The view of a table -/

/-- What the loops see of a table and of the handlers that exist. -/
structure Shows
    (fd : HandlerId → Descriptor) (table : List (Descriptor × HandlerId))
    (handlers : HandlerId → Option EventHandler) (view : PollerView) :
    Prop where
  table_eq : table = tableOf fd view.registered
  revents : SameRevents handlers view.revents

namespace Shows

variable {fd : HandlerId → Descriptor}
    {table : List (Descriptor × HandlerId)}
    {handlers : HandlerId → Option EventHandler} {view : PollerView}

theorem new : Shows fd [] (fun _ => none) PollerView.new := by
  constructor
  · rfl
  · intro ptr handler hhandler
    contradiction

theorem construct
    (hshows : Shows fd table handlers view) (ptr : HandlerId) :
    Shows fd table (Function.update handlers ptr (some EventHandler.new))
      { view with
        revents := Function.update view.revents ptr kEventNone } := by
  refine ⟨hshows.table_eq, hshows.revents.update ptr ?_⟩
  intro handler hhandler
  obtain rfl := Option.some.inj hhandler
  rfl

theorem destroy
    (hshows : Shows fd table handlers view) (ptr : HandlerId) :
    Shows fd table (Function.update handlers ptr none) view := by
  refine ⟨hshows.table_eq, hshows.revents.congr ?_⟩
  intro other handler hother
  by_cases heq : other = ptr
  · subst other
    simp at hother
  · rw [Function.update_of_ne heq] at hother
    exact ⟨handler, hother, rfl⟩

theorem setEvents
    (hshows : Shows fd table handlers view) (ptr : HandlerId)
    (events : ℕ) :
    Shows fd table
      (Function.update handlers ptr
        ((handlers ptr).map fun handler =>
          { handler with events := events }))
      view := by
  refine ⟨hshows.table_eq, hshows.revents.congr ?_⟩
  intro other handler hother
  by_cases heq : other = ptr
  · subst other
    rw [Function.update_self] at hother
    obtain ⟨old, hold, rfl⟩ := Option.map_eq_some_iff.mp hother
    exact ⟨old, hold, rfl⟩
  · rw [Function.update_of_ne heq] at hother
    exact ⟨handler, hother, rfl⟩

theorem erase
    (hshows : Shows fd table handlers view) (ptr : HandlerId) :
    Shows fd (table.filter fun entry => entry.1 ≠ fd ptr) handlers
      { view with registered := eraseHandler fd ptr view.registered } := by
  refine ⟨?_, hshows.revents⟩
  rw [hshows.table_eq]
  exact erase_tableOf fd view.registered ptr

theorem insert
    (hshows : Shows fd table handlers view) (ptr : HandlerId) :
    Shows fd
      ((table.filter fun entry => entry.1 ≠ fd ptr) ++ [(fd ptr, ptr)])
      handlers
      { view with registered := insertHandler fd ptr view.registered } := by
  refine ⟨?_, hshows.revents⟩
  rw [hshows.table_eq]
  exact insert_tableOf fd view.registered ptr

/-- A walk over the descriptors that are ready is a `PollOnce` of the view. -/
theorem poll
    (hshows : Shows fd table handlers view)
    (returned : List (Descriptor × ℕ)) :
    ∃ after,
      PollerView.step fd view
          (.poll (seen returned) ((fired table returned).map Prod.fst)) =
        some after ∧
      Shows fd table (Polling.setRevents handlers (fired table returned))
        after := by
  have hfound := fired_tableOf fd view.registered returned
  rw [← hshows.table_eq] at hfound
  have hfired :
      (fired table returned).map Prod.fst =
        (EventLoops.pollOnce fd view.registered (seen returned)).map
          Prod.fst := by
    rw [← hfound, List.map_map]
    rfl
  refine ⟨_, if_pos hfired, hshows.table_eq, ?_⟩
  rw [← hfound]
  exact hshows.revents.setRevents _

theorem fd_of_lookup
    (hshows : Shows fd table handlers view) {d : Descriptor}
    {ptr : HandlerId} (hlookup : lookup table d = some ptr) :
    fd ptr = d := by
  have hentry := lookup_mem hlookup
  rw [hshows.table_eq] at hentry
  obtain ⟨other, -, heq⟩ := List.mem_map.mp hentry
  obtain ⟨rfl, rfl⟩ := Prod.mk.inj heq
  rfl

end Shows

/-! ## The handlers after a walk -/

/-- The handlers that exist stay the same, and so do their other fields. -/
theorem setRevents_other
    {β : Type} (field : EventHandler → β)
    (hfield :
      ∀ handler mask, field { handler with revents := mask } = field handler)
    (handlers : HandlerId → Option EventHandler)
    (found : List (HandlerId × ℕ)) (ptr : HandlerId) :
    (setRevents handlers found ptr).map field =
      (handlers ptr).map field := by
  induction found generalizing handlers with
  | nil => rfl
  | cons entry found ih =>
      simp only [setRevents, List.foldl_cons]
      rw [← setRevents, ih]
      by_cases heq : ptr = entry.1
      · subst ptr
        rw [Function.update_self, Option.map_map]
        congr 1
        funext handler
        exact hfield handler entry.2
      · rw [Function.update_of_ne heq]

theorem setRevents_of_not_mem
    (handlers : HandlerId → Option EventHandler)
    {found : List (HandlerId × ℕ)} {ptr : HandlerId}
    (hptr : ptr ∉ found.map Prod.fst) :
    setRevents handlers found ptr = handlers ptr := by
  induction found generalizing handlers with
  | nil => rfl
  | cons entry found ih =>
      rw [List.map_cons, List.mem_cons, not_or] at hptr
      simp only [setRevents, List.foldl_cons]
      rw [← setRevents, ih _ hptr.2, Function.update_of_ne hptr.1]

/-- A handler that is found once ends with the mask it was found with. -/
theorem setRevents_of_mem
    (handlers : HandlerId → Option EventHandler)
    {found : List (HandlerId × ℕ)} {entry : HandlerId × ℕ}
    (hnodup : (found.map Prod.fst).Nodup) (hentry : entry ∈ found) :
    (setRevents handlers found entry.1).map EventHandler.revents =
      (handlers entry.1).map fun _ => entry.2 := by
  induction found generalizing handlers with
  | nil => simp at hentry
  | cons head found ih =>
      rw [List.map_cons, List.nodup_cons] at hnodup
      simp only [setRevents, List.foldl_cons]
      rw [← setRevents]
      rcases List.mem_cons.mp hentry with rfl | hentry
      · rw [setRevents_of_not_mem _ hnodup.1, Function.update_self,
          Option.map_map]
        rfl
      · have hne : entry.1 ≠ head.1 := by
          intro heq
          exact hnodup.1 (heq ▸ List.mem_map_of_mem hentry)
        rw [ih _ hnodup.2 hentry, Function.update_of_ne hne]

end GreenTurtle.Polling
