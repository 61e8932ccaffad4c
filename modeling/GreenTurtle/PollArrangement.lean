import GreenTurtle.PollPoller
import Mathlib.Tactic

/-!
# The registered handlers of a `PollPoller` in order

The entries of `pollfds_`, the handler table and the indices inside the
handlers all describe one list: the registered handlers in the order of their
entries.  Adding appends to this list, removing swaps with its last element,
and `PollOnce` walks along it.
-/

namespace GreenTurtle.Polling

open Connections (Descriptor HandlerId)
open Execution
open FixedWidth
open SwapRemove

namespace PollPoller

variable (fd : HandlerId → Descriptor)

def indexOf (poller : PollPoller) (ptr : HandlerId) : Option ℤ :=
  (poller.handlers ptr).map EventHandler.index

theorem handlers_ne_none_iff (poller : PollPoller) (ptr : HandlerId) :
    poller.handlers ptr ≠ none ↔ poller.indexOf ptr ≠ none := by
  simp [indexOf]

theorem indexOf_modifyHandler
    (poller : PollPoller) (ptr other : HandlerId)
    (change : EventHandler → EventHandler) (index : ℤ → ℤ)
    (hchange : ∀ handler, (change handler).index = index handler.index) :
    (poller.modifyHandler ptr change).indexOf other =
      if other = ptr then (poller.indexOf ptr).map index
      else poller.indexOf other := by
  by_cases heq : other = ptr
  · subst other
    cases hhandler : poller.handlers ptr <;>
      simp [modifyHandler, Poller.modifyHandler, indexOf, hhandler, hchange]
  · simp [modifyHandler, Poller.modifyHandler, indexOf, heq]

theorem indexOf_setIndex
    (poller : PollPoller) (ptr other : HandlerId) (index : ℤ) :
    (poller.setIndex ptr index).indexOf other =
      if other = ptr then (poller.indexOf ptr).map fun _ => index
      else poller.indexOf other :=
  poller.indexOf_modifyHandler ptr other _ (fun _ => index) fun _ => rfl

theorem indexOf_dropEntry
    (poller : PollPoller) (ptr other : HandlerId) :
    (poller.dropEntry ptr).indexOf other =
      if other = ptr then (poller.indexOf ptr).map fun _ => -1
      else poller.indexOf other :=
  indexOf_setIndex { poller with pollfds := _ } ptr other (-1)

/-- A change of the requested or returned events leaves the indices alone. -/
theorem indexOf_modifyHandler_same
    (poller : PollPoller) (ptr other : HandlerId)
    {change : EventHandler → EventHandler}
    (hchange : ∀ handler, (change handler).index = handler.index) :
    (poller.modifyHandler ptr change).indexOf other =
      poller.indexOf other := by
  rw [poller.indexOf_modifyHandler ptr other change id hchange]
  split
  next heq => simp [heq]
  next => rfl

structure Arranged (order : List HandlerId) (poller : PollPoller) : Prop where
  nodup : order.Nodup
  entries : poller.pollfds.map Pollfd.fd = order.map fd
  table : poller.eventHandlers.Perm (order.map fun ptr => (fd ptr, ptr))
  index_of :
    ∀ (i : ℕ) ptr, order[i]? = some ptr → poller.indexOf ptr = some (i : ℤ)
  index_idle :
    ∀ ptr index, poller.indexOf ptr = some index → ptr ∉ order → index = -1
  positive : ∀ ptr, poller.indexOf ptr ≠ none → 0 < (fd ptr).val
  distinct :
    ∀ a b, poller.indexOf a ≠ none → poller.indexOf b ≠ none →
      fd a = fd b → a = b
  polling : poller.polling = false

namespace Arranged

variable {fd} {order : List HandlerId} {poller : PollPoller}

theorem new : Arranged fd [] PollPoller.new := by
  constructor <;> simp [PollPoller.new, Poller.new, indexOf]

/-- The handlers that exist stay as they are, up to their indices. -/
theorem rearrange
    (harranged : Arranged fd order poller) {ptrs : List HandlerId}
    {next : PollPoller} (hnodup : ptrs.Nodup)
    (hentries : next.pollfds.map Pollfd.fd = ptrs.map fd)
    (htable : next.eventHandlers.Perm (ptrs.map fun ptr => (fd ptr, ptr)))
    (hindexOf :
      ∀ (i : ℕ) ptr, ptrs[i]? = some ptr → next.indexOf ptr = some (i : ℤ))
    (hidle :
      ∀ ptr index, next.indexOf ptr = some index → ptr ∉ ptrs → index = -1)
    (hlive :
      ∀ ptr, next.indexOf ptr ≠ none → poller.indexOf ptr ≠ none)
    (hpolling : next.polling = false) :
    Arranged fd ptrs next := by
  constructor
  · exact hnodup
  · exact hentries
  · exact htable
  · exact hindexOf
  · exact hidle
  · intro ptr hptr
    exact harranged.positive ptr (hlive ptr hptr)
  · intro a b ha hb
    exact harranged.distinct a b (hlive a ha) (hlive b hb)
  · exact hpolling

/-- Only the descriptors of the entries, the table and the indices matter. -/
theorem congr
    (harranged : Arranged fd order poller) {other : PollPoller}
    (hentries :
      other.pollfds.map Pollfd.fd = poller.pollfds.map Pollfd.fd)
    (htable : other.eventHandlers = poller.eventHandlers)
    (hindex : ∀ ptr, other.indexOf ptr = poller.indexOf ptr)
    (hpolling : other.polling = false) :
    Arranged fd order other := by
  apply harranged.rearrange harranged.nodup
  · rw [hentries, harranged.entries]
  · rw [htable]
    exact harranged.table
  · simpa only [hindex] using harranged.index_of
  · simpa only [hindex] using harranged.index_idle
  · simp only [hindex, imp_self, implies_true]
  · exact hpolling

theorem length_eq (harranged : Arranged fd order poller) :
    poller.pollfds.length = order.length := by
  simpa using congrArg List.length harranged.entries

theorem live
    (harranged : Arranged fd order poller) {ptr : HandlerId}
    (hptr : ptr ∈ order) : poller.indexOf ptr ≠ none := by
  rcases List.mem_iff_getElem?.mp hptr with ⟨i, hi⟩
  simp [harranged.index_of i ptr hi]

theorem mem_table_iff
    (harranged : Arranged fd order poller) (entry : Descriptor × HandlerId) :
    entry ∈ poller.eventHandlers ↔ entry.2 ∈ order ∧ entry.1 = fd entry.2 := by
  rw [harranged.table.mem_iff, List.mem_map]
  constructor
  · rintro ⟨ptr, hptr, rfl⟩
    exact ⟨hptr, rfl⟩
  · rintro ⟨hptr, hfd⟩
    exact ⟨entry.2, hptr, by rw [← hfd]⟩

theorem registered_iff
    (harranged : Arranged fd order poller) (ptr : HandlerId) :
    poller.Registered ptr ↔ ptr ∈ order := by
  constructor
  · rintro ⟨entry, hentry, rfl⟩
    exact ((harranged.mem_table_iff entry).mp hentry).1
  · intro hptr
    exact ⟨(fd ptr, ptr), (harranged.mem_table_iff _).mpr ⟨hptr, rfl⟩, rfl⟩

theorem getEventHandler_iff
    (harranged : Arranged fd order poller) (d : Descriptor)
    (ptr : HandlerId) :
    poller.getEventHandler d = some ptr ↔ ptr ∈ order ∧ fd ptr = d := by
  unfold Poller.getEventHandler
  cases hfind : poller.eventHandlers.find? fun entry => entry.1 = d with
  | none =>
      simp only [Option.map_none, reduceCtorEq, false_iff]
      rintro ⟨hptr, rfl⟩
      have hentry :=
        (harranged.mem_table_iff (fd ptr, ptr)).mpr ⟨hptr, rfl⟩
      simpa using List.find?_eq_none.mp hfind _ hentry
  | some entry =>
      have hd : entry.1 = d := by simpa using List.find?_some hfind
      rcases (harranged.mem_table_iff entry).mp
        (List.mem_of_find?_eq_some hfind) with ⟨hmem, hfd⟩
      simp only [Option.map_some, Option.some.injEq]
      constructor
      · rintro rfl
        exact ⟨hmem, hfd.symm.trans hd⟩
      · rintro ⟨hptr, hsame⟩
        exact harranged.distinct _ _ (harranged.live hmem)
          (harranged.live hptr) (by rw [← hfd, hd, hsame])

/-- Distinct positive descriptors are fewer than `2 ^ 31`. -/
theorem length_lt
    (harranged : Arranged fd order poller) {ptrs : List HandlerId}
    (hnodup : ptrs.Nodup) (hlive : ∀ ptr ∈ ptrs, poller.indexOf ptr ≠ none) :
    ptrs.length < 2147483648 := by
  have hmapped : (ptrs.map fun ptr => (fd ptr).val).Nodup := by
    apply List.Nodup.map_on _ hnodup
    intro a ha b hb heq
    exact harranged.distinct a b (hlive a ha) (hlive b hb) (Subtype.ext heq)
  have hsubset :
      (ptrs.map fun ptr => (fd ptr).val).toFinset ⊆
        Finset.Icc (1 : ℤ) 2147483647 := by
    intro d hd
    rw [List.mem_toFinset, List.mem_map] at hd
    rcases hd with ⟨ptr, hptr, rfl⟩
    have hpos := harranged.positive ptr (hlive ptr hptr)
    have hbound := (fd ptr).property.2
    rw [Finset.mem_Icc]
    omega
  have hcard := Finset.card_le_card hsubset
  rw [List.toFinset_card_of_nodup hmapped, Int.card_Icc,
    List.length_map] at hcard
  omega

/-! ## Adding -/

theorem lastIndex_eq
    (harranged : Arranged fd order poller) {other : PollPoller}
    {ptrs : List HandlerId} (hnodup : ptrs.Nodup)
    (hlive : ∀ ptr ∈ ptrs, poller.indexOf ptr ≠ none)
    (hlength : other.pollfds.length = ptrs.length) (hpos : 0 < ptrs.length) :
    other.lastIndex = ptrs.length - 1 := by
  have hlt := harranged.length_lt hnodup hlive
  unfold lastIndex
  rw [hlength, toUInt64_of_bounds (by omega) (by omega),
    toInt32_of_bounds (by omega) (by omega)]
  omega

/-- The table without the descriptor of a handler. -/
theorem table_without
    (harranged : Arranged fd order poller) {ptr : HandlerId}
    (hlive : poller.indexOf ptr ≠ none) :
    (poller.eraseEventHandler (fd ptr)).eventHandlers.Perm
      ((order.filter fun other => other ≠ ptr).map
        fun ptr => (fd ptr, ptr)) := by
  have hfilter :
      (order.map fun ptr => (fd ptr, ptr)).filter
          (fun entry => entry.1 ≠ fd ptr) =
        (order.filter fun other => other ≠ ptr).map
          fun ptr => (fd ptr, ptr) := by
    rw [List.filter_map]
    congr 1
    apply List.filter_congr
    intro other hother
    have hiff : fd other = fd ptr ↔ other = ptr :=
      ⟨harranged.distinct other ptr (harranged.live hother) hlive,
        fun heq => heq ▸ rfl⟩
    simp [hiff]
  rw [← hfilter]
  exact harranged.table.filter _

theorem filter_ne_of_not_mem
    {ptr : HandlerId} (hidle : ptr ∉ order) :
    (order.filter fun other => other ≠ ptr) = order := by
  apply List.filter_eq_self.mpr
  intro other hother
  have hne : other ≠ ptr := by
    rintro rfl
    exact hidle hother
  simp [hne]

theorem addEventHandler
    (harranged : Arranged fd order poller) {ptr : HandlerId}
    (hlive : poller.indexOf ptr ≠ none) (hidle : ptr ∉ order) :
    ∃ next, PollPoller.addEventHandler fd ptr poller = some next ∧
      Arranged fd (order ++ [ptr]) next := by
  have hpositive := harranged.positive ptr hlive
  rcases Option.ne_none_iff_exists'.mp
    ((poller.handlers_ne_none_iff ptr).mpr hlive) with ⟨handler, hhandler⟩
  have hnodup : (order ++ [ptr]).Nodup := by
    simpa [List.concat_eq_append] using
      List.Nodup.concat hidle harranged.nodup
  have hall : ∀ other ∈ order ++ [ptr], poller.indexOf other ≠ none := by
    intro other hother
    rcases List.mem_append.mp hother with hother | hother
    · exact harranged.live hother
    · rw [List.mem_singleton.mp hother]
      exact hlive
  let appended : PollPoller :=
    { poller with
      eventHandlers :=
        (poller.eraseEventHandler (fd ptr)).eventHandlers ++ [(fd ptr, ptr)]
      pollfds :=
        poller.pollfds ++
          [{ fd := fd ptr
             events := requestedEvents handler.events
             revents := 0 }] }
  have hlast : appended.lastIndex = (order.length : ℤ) := by
    rw [harranged.lastIndex_eq hnodup hall
      (by simp [appended, harranged.length_eq]) (by simp)]
    simp
  have hindex :
      ∀ other, (appended.setIndex ptr appended.lastIndex).indexOf other =
        if other = ptr then some (order.length : ℤ)
        else poller.indexOf other := by
    intro other
    rw [indexOf_setIndex, hlast]
    rcases Option.ne_none_iff_exists'.mp hlive with ⟨old, hold⟩
    have hself : appended.indexOf ptr = some old := hold
    rw [hself]
    rfl
  refine ⟨appended.setIndex ptr appended.lastIndex, ?_, ?_⟩
  · simp only [PollPoller.addEventHandler, harranged.polling,
      setEventHandler_some _ hpositive, hhandler, Bool.false_eq_true,
      if_false]
    rfl
  · apply harranged.rearrange hnodup
    · simp [setIndex, modifyHandler, appended, harranged.entries]
    · have hwithout := harranged.table_without hlive
      rw [filter_ne_of_not_mem hidle] at hwithout
      rw [List.map_append]
      exact hwithout.append_right [(fd ptr, ptr)]
    · intro i other hother
      rw [hindex]
      rcases getElem?_concat_some hother with hold | ⟨rfl, rfl⟩
      · have hne : other ≠ ptr := by
          rintro rfl
          exact hidle (List.mem_of_getElem? hold)
        rw [if_neg hne]
        exact harranged.index_of i other hold
      · rw [if_pos rfl]
    · intro other index hother hnot
      simp only [List.mem_append, List.mem_singleton, not_or] at hnot
      rw [hindex, if_neg hnot.2] at hother
      exact harranged.index_idle other index hother hnot.1
    · intro other hother
      rw [hindex] at hother
      split at hother
      next heq => exact heq ▸ hlive
      next => exact hother
    · exact harranged.polling

/-! ## Removing -/

/-- What the removal of a registered handler leaves behind. -/
structure Removed
    (fd : HandlerId → Descriptor) (order : List HandlerId)
    (poller : PollPoller) (i : ℕ) (ptr : HandlerId)
    (next : PollPoller) : Prop where
  pollfds : next.pollfds = swapRemove poller.pollfds i
  eventHandlers :
    next.eventHandlers = (poller.eraseEventHandler (fd ptr)).eventHandlers
  polling : next.polling = poller.polling
  indexOf_self : next.indexOf ptr = some (-1)
  indexOf_last :
    ∀ other, other ≠ ptr → order.getLast? = some other →
      next.indexOf other = some (i : ℤ)
  indexOf_other :
    ∀ other, other ≠ ptr → order.getLast? ≠ some other →
      next.indexOf other = poller.indexOf other

theorem getLast_fd
    (harranged : Arranged fd order poller) {moved : HandlerId}
    (hmoved : order.getLast? = some moved) :
    ∃ last, poller.pollfds.getLast? = some last ∧ last.fd = fd moved := by
  have hmap := congrArg List.getLast? harranged.entries
  rw [List.getLast?_map, List.getLast?_map, hmoved, Option.map_some,
    Option.map_eq_some_iff] at hmap
  exact hmap

/-- The handler that is looked up after the swap is the last one in order. -/
theorem moveLast_eq
    (harranged : Arranged fd order poller) {i : ℕ} {ptr moved : HandlerId}
    (hi : order[i]? = some ptr) (hmoved : order.getLast? = some moved)
    (hne : moved ≠ ptr) :
    ∃ swapped : PollPoller,
      (poller.eraseEventHandler (fd ptr)).moveLast i =
          some (swapped.setIndex moved i) ∧
        swapped.pollfds.dropLast = swapRemove poller.pollfds i ∧
        swapped.eventHandlers =
          (poller.eraseEventHandler (fd ptr)).eventHandlers ∧
        swapped.handlers = poller.handlers ∧
        swapped.polling = poller.polling := by
  rcases harranged.getLast_fd hmoved with ⟨last, hlast, hfd⟩
  have hmem : moved ∈ order := List.mem_of_getLast? hmoved
  have hdistinct : fd moved ≠ fd ptr := by
    intro heq
    exact hne (harranged.distinct moved ptr (harranged.live hmem)
      (harranged.live (List.mem_of_getElem? hi)) heq)
  have hbound : i < poller.pollfds.length := by
    rw [harranged.length_eq]
    exact (List.getElem?_eq_some_iff.mp hi).1
  have hlookup :
      (poller.eraseEventHandler (fd ptr)).getEventHandler last.fd =
        some moved := by
    have hold :=
      (harranged.getEventHandler_iff last.fd moved).mpr ⟨hmem, hfd.symm⟩
    unfold Poller.getEventHandler at hold
    unfold Poller.getEventHandler eraseEventHandler Poller.eraseEventHandler
    rw [List.find?_filter]
    rw [← hold]
    congr 2
    funext entry
    by_cases hentry : entry.1 = last.fd
    · simp [hentry, hfd, hdistinct]
    · simp [hentry]
  let swapped : PollPoller :=
    { poller.eraseEventHandler (fd ptr) with
      pollfds :=
        (poller.pollfds.set i last).set (poller.pollfds.length - 1)
          poller.pollfds[i] }
  have hswapped : swapped.getEventHandler last.fd = some moved := hlookup
  refine ⟨swapped, ?_, ?_, rfl, rfl, rfl⟩
  · have hpollfds :
        (poller.eraseEventHandler (fd ptr)).pollfds = poller.pollfds := rfl
    simp only [moveLast, hpollfds, hlast, Int.toNat_natCast,
      List.getElem?_eq_getElem hbound]
    change (swapped.getEventHandler last.fd).map _ = _
    rw [hswapped]
    rfl
  · exact dropLast_swap hlast i _

theorem removeEventHandler_eq
    (harranged : Arranged fd order poller) {i : ℕ} {ptr : HandlerId}
    (hi : order[i]? = some ptr) :
    PollPoller.removeEventHandler fd ptr poller =
      (if i = order.length - 1 then some (poller.eraseEventHandler (fd ptr))
        else (poller.eraseEventHandler (fd ptr)).moveLast i).map
          fun poller => poller.dropEntry ptr := by
  have hmem := List.mem_of_getElem? hi
  have hpositive := harranged.positive ptr (harranged.live hmem)
  have hbound := (List.getElem?_eq_some_iff.mp hi).1
  rcases Option.map_eq_some_iff.mp (harranged.index_of i ptr hi) with
    ⟨handler, hhandler, hindex⟩
  have hsize :
      (poller.eraseEventHandler (fd ptr)).pollfds.length = order.length :=
    harranged.length_eq
  have hlast :
      (i : ℤ) = (poller.eraseEventHandler (fd ptr)).lastIndex ↔
        i = order.length - 1 := by
    rw [harranged.lastIndex_eq harranged.nodup (fun _ => harranged.live)
      hsize (by omega)]
    omega
  have hnonneg : ¬ (i : ℤ) < 0 := by omega
  simp only [PollPoller.removeEventHandler, harranged.polling,
    setEventHandler_none _ hpositive, hhandler, Bool.false_eq_true, if_false,
    hindex, hnonneg, ne_eq, hlast, ite_not]

theorem removeEventHandler_last
    (harranged : Arranged fd order poller) {ptr : HandlerId}
    (hi : order[order.length - 1]? = some ptr) :
    ∃ next, PollPoller.removeEventHandler fd ptr poller = some next ∧
      Removed fd order poller (order.length - 1) ptr next := by
  have hlast : order.getLast? = some ptr := by
    rw [List.getLast?_eq_getElem?, hi]
  rw [harranged.removeEventHandler_eq hi]
  refine ⟨_, by rw [if_pos rfl, Option.map_some], ?_⟩
  constructor
  · rw [← harranged.length_eq, swapRemove_last_index]
    rfl
  · rfl
  · rfl
  · have hself := harranged.index_of _ ptr hi
    rw [indexOf_dropEntry, if_pos rfl]
    change (poller.indexOf ptr).map _ = _
    rw [hself]
    rfl
  · intro other hne hother
    rw [hlast, Option.some.injEq] at hother
    exact (hne hother.symm).elim
  · intro other hne _
    rw [indexOf_dropEntry, if_neg hne]
    rfl

theorem removeEventHandler_inner
    (harranged : Arranged fd order poller) {i : ℕ} {ptr moved : HandlerId}
    (hi : order[i]? = some ptr) (hend : i ≠ order.length - 1)
    (hmoved : order.getLast? = some moved) :
    ∃ next, PollPoller.removeEventHandler fd ptr poller = some next ∧
      Removed fd order poller i ptr next := by
  have hne : moved ≠ ptr := by
    rintro rfl
    rw [List.getLast?_eq_getElem?] at hmoved
    have hbound := (List.getElem?_eq_some_iff.mp hi).1
    exact hend ((List.getElem?_inj hbound harranged.nodup).mp
      (hi.trans hmoved.symm))
  rw [harranged.removeEventHandler_eq hi]
  rcases harranged.moveLast_eq hi hmoved hne with
    ⟨swapped, hmove, hpollfds, htable, hhandlers, hpolling⟩
  have hindex : ∀ other, swapped.indexOf other = poller.indexOf other := by
    intro other
    simp [indexOf, hhandlers]
  refine ⟨_, by rw [if_neg hend, hmove, Option.map_some], ?_⟩
  constructor
  · exact hpollfds
  · exact htable
  · exact hpolling
  · rw [indexOf_dropEntry, if_pos rfl, indexOf_setIndex,
      if_neg hne.symm, hindex, harranged.index_of i ptr hi]
    rfl
  · intro other hother hlast
    rw [hmoved, Option.some.injEq] at hlast
    subst other
    rw [indexOf_dropEntry, if_neg hother, indexOf_setIndex, if_pos rfl,
      hindex]
    rw [List.getLast?_eq_getElem?] at hmoved
    rw [harranged.index_of _ moved hmoved]
    rfl
  · intro other hother hlast
    have hnot : other ≠ moved := by
      rintro rfl
      exact hlast hmoved
    rw [indexOf_dropEntry, if_neg hother, indexOf_setIndex, if_neg hnot,
      hindex]

theorem removeEventHandler_registered
    (harranged : Arranged fd order poller) {i : ℕ} {ptr : HandlerId}
    (hi : order[i]? = some ptr) :
    ∃ next, PollPoller.removeEventHandler fd ptr poller = some next ∧
      Removed fd order poller i ptr next := by
  by_cases hend : i = order.length - 1
  · subst i
    exact harranged.removeEventHandler_last hi
  · cases hmoved : order.getLast? with
    | none =>
        rw [List.getLast?_eq_none_iff.mp hmoved] at hi
        simp at hi
    | some moved => exact harranged.removeEventHandler_inner hi hend hmoved

theorem of_removed
    (harranged : Arranged fd order poller) {i : ℕ} {ptr : HandlerId}
    (hi : order[i]? = some ptr) {next : PollPoller}
    (hremoved : Removed fd order poller i ptr next) :
    Arranged fd (swapRemove order i) next := by
  have hmem := mem_swapRemove_iff harranged.nodup hi
  have hlive := harranged.live (List.mem_of_getElem? hi)
  apply harranged.rearrange (swapRemove_nodup harranged.nodup hi)
  · rw [hremoved.pollfds, map_swapRemove, harranged.entries, map_swapRemove]
  · rw [hremoved.eventHandlers]
    apply (harranged.table_without hlive).trans
    apply List.Perm.map
    -- what is left of the order is the order without the handler
    have hperm := (swapRemove_perm hi).filter fun other => other ≠ ptr
    have hself : (swapRemove order i).filter (fun other => other ≠ ptr) =
        swapRemove order i := by
      apply filter_ne_of_not_mem
      intro hptr
      exact ((hmem ptr).mp hptr).2 rfl
    rw [List.filter_cons_of_neg (by simp), hself] at hperm
    exact hperm.symm
  · intro j other hother
    have hne : other ≠ ptr :=
      ((hmem other).mp (List.mem_of_getElem? hother)).2
    rcases getElem?_swapRemove hi hother with
      ⟨_, hend, hold⟩ | ⟨rfl, _, hlast⟩
    · have hnotLast : order.getLast? ≠ some other := by
        intro hlast
        rw [List.getLast?_eq_getElem?] at hlast
        have hbound := (List.getElem?_eq_some_iff.mp hold).1
        exact hend ((List.getElem?_inj hbound harranged.nodup).mp
          (hold.trans hlast.symm))
      rw [hremoved.indexOf_other other hne hnotLast]
      exact harranged.index_of j other hold
    · exact hremoved.indexOf_last other hne hlast
  · intro other index hother hnot
    by_cases heq : other = ptr
    · subst other
      rw [hremoved.indexOf_self, Option.some.injEq] at hother
      exact hother.symm
    · have hout : other ∉ order := fun hin => hnot ((hmem other).mpr ⟨hin, heq⟩)
      have hnotLast : order.getLast? ≠ some other :=
        fun hlast => hout (List.mem_of_getLast? hlast)
      rw [hremoved.indexOf_other other heq hnotLast] at hother
      exact harranged.index_idle other index hother hout
  · intro other hother
    by_cases heq : other = ptr
    · exact heq ▸ hlive
    · by_cases hlast : order.getLast? = some other
      · exact harranged.live (List.mem_of_getLast? hlast)
      · rwa [hremoved.indexOf_other other heq hlast] at hother
  · rw [hremoved.polling, harranged.polling]

/-- A handler that is not registered leaves no trace in the poller. -/
theorem removeEventHandler_idle
    (harranged : Arranged fd order poller) {ptr : HandlerId}
    (hlive : poller.indexOf ptr ≠ none) (hidle : ptr ∉ order) :
    PollPoller.removeEventHandler fd ptr poller = some poller := by
  have hpositive := harranged.positive ptr hlive
  have htable : poller.eraseEventHandler (fd ptr) = poller := by
    have hfilter :
        (poller.eventHandlers.filter fun entry => entry.1 ≠ fd ptr) =
          poller.eventHandlers := by
      apply List.filter_eq_self.mpr
      intro entry hentry
      rcases (harranged.mem_table_iff entry).mp hentry with ⟨hmem, hfd⟩
      have hne : entry.1 ≠ fd ptr := by
        rw [hfd]
        intro heq
        exact hidle (harranged.distinct _ _ (harranged.live hmem) hlive heq ▸
          hmem)
      simpa using hne
    unfold eraseEventHandler Poller.eraseEventHandler
    rw [hfilter]
  rcases Option.ne_none_iff_exists'.mp
    ((poller.handlers_ne_none_iff ptr).mpr hlive) with ⟨handler, hhandler⟩
  have hindex : handler.index = -1 :=
    harranged.index_idle ptr _ (by simp [indexOf, hhandler]) hidle
  simp [PollPoller.removeEventHandler, harranged.polling,
    setEventHandler_none _ hpositive, htable, hhandler, hindex]

theorem removeEventHandler
    (harranged : Arranged fd order poller) {ptr : HandlerId}
    (hlive : poller.indexOf ptr ≠ none) :
    ∃ next ptrs, PollPoller.removeEventHandler fd ptr poller = some next ∧
      Arranged fd ptrs next ∧
        ∀ other, other ∈ ptrs ↔ other ∈ order ∧ other ≠ ptr := by
  by_cases hmem : ptr ∈ order
  · rcases List.mem_iff_getElem?.mp hmem with ⟨i, hi⟩
    rcases harranged.removeEventHandler_registered hi with
      ⟨next, hnext, hremoved⟩
    exact ⟨next, _, hnext, harranged.of_removed hi hremoved,
      mem_swapRemove_iff harranged.nodup hi⟩
  · refine ⟨poller, order, harranged.removeEventHandler_idle hlive hmem,
      harranged, ?_⟩
    intro other
    constructor
    · intro hother
      refine ⟨hother, ?_⟩
      rintro rfl
      exact hmem hother
    · exact fun hother => hother.1

/-! ## Polling -/

/-- The handler that the loop of `PollOnce` reports for an entry. -/
def reported (poller : PollPoller) (e : Pollfd) : Option HandlerId :=
  if e.revents = 0 then none else poller.getEventHandler e.fd

theorem pollEntries_fd (pollfds : List Pollfd) (outcome : PollOutcome) :
    (pollEntries pollfds outcome).map Pollfd.fd = pollfds.map Pollfd.fd := by
  cases outcome with
  | ready revents =>
      apply List.ext_getElem?
      intro i
      simp only [pollEntries, List.getElem?_map, List.getElem?_mapIdx,
        Option.map_map]
      rfl
  | interrupted =>
      rw [pollEntries, List.map_map]
      rfl
  | refused => rfl

/-- The loop changes nothing but the returned events of the handlers. -/
theorem reportEntries_preserves
    (entries : List Pollfd) (num : ℤ) (poller : PollPoller) :
    (reportEntries entries num poller).2.pollfds = poller.pollfds ∧
      (reportEntries entries num poller).2.eventHandlers =
        poller.eventHandlers ∧
      ∀ ptr, (reportEntries entries num poller).2.indexOf ptr =
        poller.indexOf ptr := by
  induction entries generalizing num poller with
  | nil => exact ⟨rfl, rfl, fun _ => rfl⟩
  | cons e rest ih =>
      simp only [reportEntries]
      split
      next => exact ih num poller
      next =>
        split
        next => exact ih num poller
        next handle _ =>
          have hsame :
              ∀ ptr, (poller.modifyHandler handle fun handler =>
                  { handler with
                    revents := returnedEvents e.revents }).indexOf ptr =
                poller.indexOf ptr := by
            intro ptr
            apply poller.indexOf_modifyHandler_same handle ptr
            intro handler
            rfl
          split
          next => exact ⟨rfl, rfl, hsame⟩
          next =>
            rcases ih (num - 1) (poller.modifyHandler handle _) with
              ⟨hpollfds, htable, hindex⟩
            exact ⟨hpollfds, htable,
              fun ptr => (hindex ptr).trans (hsame ptr)⟩

/-- The counter stops the loop only behind the last entry that is ready. -/
theorem reportEntries_eq
    (entries : List Pollfd) {num : ℤ} (poller : PollPoller)
    (hfound :
      ∀ e ∈ entries, e.revents ≠ 0 → poller.getEventHandler e.fd ≠ none)
    (hnum :
      num < 0 ∨ num = (entries.countP fun e => e.revents ≠ 0 : ℕ)) :
    (reportEntries entries num poller).1 =
      entries.filterMap (reported poller) := by
  induction entries generalizing num poller with
  | nil => rfl
  | cons e rest ih =>
      rw [List.forall_mem_cons] at hfound
      by_cases hready : e.revents = 0
      · have hskip : reported poller e = none := by simp [reported, hready]
        rw [List.filterMap_cons_none hskip]
        simp only [reportEntries, hready, if_true]
        apply ih poller hfound.2
        simpa [hready] using hnum
      · cases hhandle : poller.getEventHandler e.fd with
        | none => exact (hfound.1 hready hhandle).elim
        | some handle =>
            have hreport : reported poller e = some handle := by
              simp [reported, hready, hhandle]
            rw [List.filterMap_cons_some hreport]
            simp only [reportEntries, hready, if_false, hhandle]
            have hcount :
                num < 0 ∨
                  num = (rest.countP fun e => e.revents ≠ 0 : ℕ) + 1 := by
              simpa [hready] using hnum
            split
            next hstop =>
              -- the last entry that is ready
              have hzero :
                  (rest.countP fun e => e.revents ≠ 0) = 0 := by omega
              have hnone : rest.filterMap (reported poller) = [] := by
                rw [List.filterMap_eq_nil_iff]
                intro other hother
                have hidle := List.countP_eq_zero.mp hzero other hother
                simp only [decide_not, Bool.not_eq_eq_eq_not, Bool.not_true,
                  decide_eq_false_iff_not, not_not] at hidle
                simp [reported, hidle]
              rw [hnone]
            next =>
              rw [List.cons.injEq]
              refine ⟨rfl, ?_⟩
              exact ih (poller.modifyHandler handle _) hfound.2 (by omega)

theorem pollOnce_reports
    (harranged : Arranged fd order poller) (outcome : PollOutcome) :
    (poller.pollOnce outcome).1 =
      (pollEntries poller.pollfds outcome).filterMap (reported poller) := by
  apply reportEntries_eq
  · intro e he _
    have hfd : e.fd ∈ poller.pollfds.map Pollfd.fd := by
      rw [← pollEntries_fd poller.pollfds outcome]
      exact List.mem_map_of_mem he
    rw [harranged.entries, List.mem_map] at hfd
    rcases hfd with ⟨ptr, hptr, hsame⟩
    have hlookup :=
      (harranged.getEventHandler_iff e.fd ptr).mpr ⟨hptr, hsame⟩
    have hnow :
        Poller.getEventHandler
            ({ poller with
              pollfds := pollEntries poller.pollfds outcome
              polling := true } : PollPoller).toPoller
            e.fd =
          some ptr := hlookup
    simp [hnow]
  · cases outcome with
    | ready revents => exact .inr rfl
    | interrupted => exact .inl (by simp [pollResult])
    | refused => exact .inl (by simp [pollResult])

theorem pollOnce
    (harranged : Arranged fd order poller) (outcome : PollOutcome) :
    Arranged fd order (poller.pollOnce outcome).2 := by
  rcases reportEntries_preserves (pollEntries poller.pollfds outcome)
    (pollResult poller.pollfds outcome)
    { poller with
      pollfds := pollEntries poller.pollfds outcome, polling := true } with
    ⟨hpollfds, htable, hindex⟩
  apply harranged.congr
  · change (reportEntries _ _ _).2.pollfds.map Pollfd.fd = _
    rw [hpollfds]
    exact pollEntries_fd poller.pollfds outcome
  · exact htable
  · exact hindex
  · rfl

/-! ## What the arrangement says about the representation -/

theorem entry_order
    (harranged : Arranged fd order poller) {i : ℕ} {e : Pollfd}
    (he : poller.pollfds[i]? = some e) :
    ∃ ptr, order[i]? = some ptr ∧ fd ptr = e.fd := by
  have hmap := congrArg (fun l => l[i]?) harranged.entries
  simp only [List.getElem?_map, he, Option.map_some] at hmap
  exact Option.map_eq_some_iff.mp hmap.symm

theorem handler_of_order
    (harranged : Arranged fd order poller) {i : ℕ} {ptr : HandlerId}
    (hi : order[i]? = some ptr) :
    ∃ handler, poller.handlers ptr = some handler ∧ handler.index = i :=
  Option.map_eq_some_iff.mp (harranged.index_of i ptr hi)

theorem consistent (harranged : Arranged fd order poller) :
    PollConsistent fd poller := by
  constructor
  · intro ptr hptr
    rw [harranged.registered_iff] at hptr
    rcases List.mem_iff_getElem?.mp hptr with ⟨i, hi⟩
    rcases harranged.handler_of_order hi with ⟨handler, hhandler, hindex⟩
    have hbound := (List.getElem?_eq_some_iff.mp hi).1
    have hentry := congrArg (fun l => l[i]?) harranged.entries
    simp only [List.getElem?_map, hi, Option.map_some] at hentry
    refine ⟨handler, hhandler, by omega, ?_, ?_⟩
    · rw [harranged.length_eq]
      omega
    · rw [hindex]
      exact hentry
  · intro i e he
    rcases harranged.entry_order he with ⟨ptr, hi, hfd⟩
    rcases harranged.handler_of_order hi with ⟨handler, hhandler, hindex⟩
    have hmem := List.mem_of_getElem? hi
    refine ⟨ptr, handler, ?_, hfd, hhandler, hindex, ?_⟩
    · exact (harranged.mem_table_iff (e.fd, ptr)).mpr ⟨hmem, hfd.symm⟩
    · intro entry hentry hsame
      rcases (harranged.mem_table_iff entry).mp hentry with ⟨hother, hkey⟩
      apply harranged.distinct _ _ (harranged.live hother)
        (harranged.live hmem)
      rw [← hkey, hsame, hfd]
  · rw [harranged.length_eq]
    simpa using harranged.table.length_eq.symm
  · intro ptr handler hhandler hidle
    rw [harranged.registered_iff] at hidle
    exact harranged.index_idle ptr _ (by simp [indexOf, hhandler]) hidle
  · intro ptr hptr
    rw [handlers_ne_none_iff] at hptr
    rcases harranged.removeEventHandler hptr with ⟨next, _, hnext, _, _⟩
    simp [hnext]
  · intro outcome
    rw [harranged.pollOnce_reports]
    have hdistinct :
        (pollEntries poller.pollfds outcome).Pairwise
          fun a b => a.fd ≠ b.fd := by
      rw [← List.pairwise_map (f := Pollfd.fd), pollEntries_fd,
        harranged.entries, List.pairwise_map]
      apply harranged.nodup.imp_of_mem
      intro a b ha hb hne heq
      exact hne (harranged.distinct a b (harranged.live ha)
        (harranged.live hb) heq)
    rw [List.Nodup, List.pairwise_filterMap]
    apply hdistinct.imp
    intro a b hne x hx y hy
    rintro rfl
    simp only [reported] at hx hy
    split at hx
    · contradiction
    · split at hy
      · contradiction
      · rw [harranged.getEventHandler_iff] at hx hy
        exact hne (hx.2.symm.trans hy.2)
  · intro outcome ptr
    rw [harranged.pollOnce_reports, List.mem_filterMap,
      harranged.registered_iff]
    constructor
    · rintro ⟨e, he, hreport⟩
      simp only [reported] at hreport
      split at hreport
      · contradiction
      next hready =>
        rw [harranged.getEventHandler_iff] at hreport
        exact ⟨hreport.1, e, he, hreport.2.symm, hready⟩
    · rintro ⟨hptr, e, he, hfd, hready⟩
      refine ⟨e, he, ?_⟩
      simp only [reported, hready, if_false]
      exact (harranged.getEventHandler_iff e.fd ptr).mpr ⟨hptr, hfd.symm⟩

/-! ## Sequences of calls -/

theorem construct
    (harranged : Arranged fd order poller) {ptr : HandlerId}
    (hnew : poller.handlers ptr = none) (hpositive : 0 < (fd ptr).val)
    (hdistinct :
      ∀ other, poller.handlers other ≠ none → fd other ≠ fd ptr) :
    Arranged fd order
      { poller with
        handlers :=
          Function.update poller.handlers ptr (some EventHandler.new) } := by
  have hindex :
      ∀ other,
        indexOf
            { poller with
              handlers :=
                Function.update poller.handlers ptr (some EventHandler.new) }
            other =
          if other = ptr then some (-1) else poller.indexOf other := by
    intro other
    by_cases heq : other = ptr
    · subst other
      simp [indexOf, EventHandler.new]
    · simp [indexOf, heq]
  have hfresh : ptr ∉ order := by
    intro hptr
    exact harranged.live hptr (by simp [indexOf, hnew])
  constructor
  · exact harranged.nodup
  · exact harranged.entries
  · exact harranged.table
  · intro i other hother
    have hne : other ≠ ptr := by
      rintro rfl
      exact hfresh (List.mem_of_getElem? hother)
    rw [hindex, if_neg hne]
    exact harranged.index_of i other hother
  · intro other index hother hout
    rw [hindex] at hother
    split at hother
    next => exact (Option.some.inj hother).symm
    next => exact harranged.index_idle other index hother hout
  · intro other hother
    rw [hindex] at hother
    split at hother
    next heq => exact heq ▸ hpositive
    next => exact harranged.positive other hother
  · intro a b ha hb hfd
    rw [hindex] at ha hb
    by_cases hpa : a = ptr
    · by_cases hpb : b = ptr
      · rw [hpa, hpb]
      · rw [if_neg hpb, ← handlers_ne_none_iff] at hb
        exact (hdistinct b hb (by rw [← hfd, hpa])).elim
    · rw [if_neg hpa] at ha
      by_cases hpb : b = ptr
      · rw [← handlers_ne_none_iff] at ha
        exact (hdistinct a ha (by rw [hfd, hpb])).elim
      · rw [if_neg hpb] at hb
        exact harranged.distinct a b ha hb hfd
  · exact harranged.polling

theorem destroy
    (harranged : Arranged fd order poller) {ptr : HandlerId}
    (hidle : ptr ∉ order) :
    Arranged fd order
      { poller with
        handlers := Function.update poller.handlers ptr none } := by
  have hindex :
      ∀ other,
        indexOf
            { poller with
              handlers := Function.update poller.handlers ptr none }
            other =
          if other = ptr then none else poller.indexOf other := by
    intro other
    by_cases heq : other = ptr
    · subst other
      simp [indexOf]
    · simp [indexOf, heq]
  apply harranged.rearrange harranged.nodup
  · exact harranged.entries
  · exact harranged.table
  · intro i other hother
    have hne : other ≠ ptr := by
      rintro rfl
      exact hidle (List.mem_of_getElem? hother)
    rw [hindex, if_neg hne]
    exact harranged.index_of i other hother
  · intro other index hother hout
    rw [hindex] at hother
    split at hother
    · contradiction
    · exact harranged.index_idle other index hother hout
  · intro other hother
    rw [hindex] at hother
    split at hother
    · contradiction
    · exact hother
  · exact harranged.polling

/-- An allowed call is possible.  The registered handlers after it are those
before it, with the handler that it adds and without the one that it removes. -/
theorem step_order
    (harranged : Arranged fd order poller) {label : PollLabel}
    (hallowed : PollAllowed fd poller label) :
    ∃ next ptrs, PollPoller.step fd poller label = some next ∧
      Arranged fd ptrs next ∧
        ∀ other, other ∈ ptrs ↔
          (other ∈ order ∧ label ≠ .remove other) ∨ label = .add other := by
  cases label with
  | construct ptr =>
      exact ⟨_, order, rfl,
        harranged.construct hallowed.1 hallowed.2.1 hallowed.2.2, by simp⟩
  | destroy ptr =>
      have hidle : ptr ∉ order := fun hptr =>
        hallowed ((harranged.registered_iff ptr).mpr hptr)
      exact ⟨_, order, rfl, harranged.destroy hidle, by simp⟩
  | setEvents ptr events =>
      refine ⟨_, order, rfl, ?_, by simp⟩
      apply harranged.congr
      · rfl
      · rfl
      · intro other
        exact poller.indexOf_modifyHandler_same ptr other fun _ => rfl
      · exact harranged.polling
  | add ptr =>
      have hidle : ptr ∉ order := fun hptr =>
        hallowed.2 ((harranged.registered_iff ptr).mpr hptr)
      have hlive := (poller.handlers_ne_none_iff ptr).mp hallowed.1
      rcases harranged.addEventHandler hlive hidle with
        ⟨next, hnext, hafter⟩
      refine ⟨next, _, hnext, hafter, ?_⟩
      intro other
      simp [eq_comm]
  | remove ptr =>
      have hlive := (poller.handlers_ne_none_iff ptr).mp hallowed
      rcases harranged.removeEventHandler hlive with
        ⟨next, ptrs, hnext, hafter, hmem⟩
      refine ⟨next, ptrs, hnext, hafter, ?_⟩
      intro other
      rw [hmem]
      simp [eq_comm]
  | poll outcome =>
      exact ⟨_, order, rfl, harranged.pollOnce outcome, by simp⟩

theorem step
    (harranged : Arranged fd order poller) {label : PollLabel}
    (hallowed : PollAllowed fd poller label) :
    ∃ next, PollPoller.step fd poller label = some next ∧
      ∃ ptrs, Arranged fd ptrs next := by
  obtain ⟨next, ptrs, hnext, hafter, -⟩ := harranged.step_order hallowed
  exact ⟨next, hnext, ptrs, hafter⟩

/-- The last call for a handler decides whether it is registered: a call of the
rest, or else the first one. -/
theorem stillAdded_cons (label : PollLabel) (labels : List PollLabel)
    (ptr : HandlerId) :
    StillAdded (label :: labels) ptr ↔
      (label = .add ptr ∧ .remove ptr ∉ labels) ∨ StillAdded labels ptr := by
  constructor
  · rintro ⟨before, after, hsplit, hkept⟩
    cases before with
    | nil =>
        obtain ⟨rfl, rfl⟩ := List.cons.inj hsplit
        exact Or.inl ⟨rfl, hkept⟩
    | cons other before =>
        obtain ⟨rfl, rfl⟩ := List.cons.inj hsplit
        exact Or.inr ⟨before, after, rfl, hkept⟩
  · rintro (⟨rfl, hkept⟩ | ⟨before, after, rfl, hkept⟩)
    · exact ⟨[], labels, rfl, hkept⟩
    · exact ⟨label :: before, after, rfl, hkept⟩

/-- Every sequence of allowed calls runs to its end.  The registered handlers
are then those of the beginning that have not been removed, and those that have
been added and not removed since. -/
theorem run_order
    (harranged : Arranged fd order poller) {labels : List PollLabel}
    (hallowed :
      EachStep (PollPoller.step fd) (PollAllowed fd) poller labels) :
    ∃ final ptrs, run (PollPoller.step fd) poller labels = some final ∧
      Arranged fd ptrs final ∧
        ∀ ptr, ptr ∈ ptrs ↔
          (ptr ∈ order ∧ .remove ptr ∉ labels) ∨ StillAdded labels ptr := by
  induction labels generalizing poller order with
  | nil =>
      refine ⟨poller, order, rfl, harranged, ?_⟩
      simp [StillAdded]
  | cons label labels ih =>
      obtain ⟨next, between, hnext, hbetween, hmem⟩ :=
        harranged.step_order hallowed.1
      simp only [EachStep, hnext] at hallowed
      obtain ⟨final, ptrs, hfinal, hafter, hptrs⟩ := ih hbetween hallowed.2
      refine ⟨final, ptrs, ?_, hafter, ?_⟩
      · simp only [run, hnext, hfinal]
      · intro ptr
        rw [hptrs, hmem, stillAdded_cons, List.mem_cons, not_or, ne_comm]
        tauto

end Arranged

/-- Every sequence of allowed calls runs to its end, and wherever it stops the
representation is consistent and the table holds exactly the handlers that have
been added and not removed since. -/
theorem pollPoller_consistent
    {labels : List PollLabel}
    (hallowed :
      EachStep (step fd) (PollAllowed fd) PollPoller.new labels) :
    ∃ final, run (step fd) PollPoller.new labels = some final ∧
      PollConsistent fd final ∧
        ∀ entry, entry ∈ final.eventHandlers ↔
          StillAdded labels entry.2 ∧ entry.1 = fd entry.2 := by
  obtain ⟨final, ptrs, hfinal, harranged, hptrs⟩ :=
    Arranged.new.run_order hallowed
  refine ⟨final, hfinal, harranged.consistent, ?_⟩
  intro entry
  rw [harranged.mem_table_iff, hptrs]
  simp

/-- Handlers numbered from zero with the descriptors from one. -/
def smallDescriptor (ptr : HandlerId) : Descriptor :=
  ⟨(ptr % 1000 : ℕ) + 1, by omega⟩

/-- Of two registered handlers the first is removed twice. -/
theorem pollPoller_consistent_two_removals :
    ∃ final,
      run (step smallDescriptor) PollPoller.new
          [.construct 1, .add 1, .construct 2, .add 2,
            .poll (.ready fun i => i), .remove 1, .remove 1, .destroy 1] =
        some final ∧
      PollConsistent smallDescriptor final ∧
        ∀ entry, entry ∈ final.eventHandlers ↔
          StillAdded
              [.construct 1, .add 1, .construct 2, .add 2,
                .poll (.ready fun i => i), .remove 1, .remove 1, .destroy 1]
              entry.2 ∧
            entry.1 = smallDescriptor entry.2 := by
  apply pollPoller_consistent smallDescriptor
  refine ⟨⟨rfl, by decide, fun other hother => (hother rfl).elim⟩,
    ⟨by decide, by decide⟩, ⟨rfl, by decide, ?_⟩, ⟨by decide, by decide⟩,
    trivial, by unfold PollAllowed; decide, by unfold PollAllowed; decide,
    by unfold PollAllowed; decide, trivial⟩
  intro other hother
  by_cases heq : other = 1
  · rw [heq]
    decide
  · exfalso
    apply hother
    simp [heq, PollPoller.new, Poller.new, setIndex, modifyHandler,
      Poller.modifyHandler, Poller.eraseEventHandler]

end PollPoller

end GreenTurtle.Polling
