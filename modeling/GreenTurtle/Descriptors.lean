import GreenTurtle.EventLoopModel
import GreenTurtle.Execution
import Mathlib.Tactic

/-!
# Who closes a descriptor

A handler gets its descriptor when it is constructed, from `socket` or
`accept`, and the kernel always gives out the lowest number that is not in use.
`EventHandler::~EventHandler` closes the descriptor.  `TcpAcceptor` has a
destructor that closes it before, and `SocketOption::Listen` closes it when the
address cannot be used, so an acceptor closes its number two or three times.
In between the kernel may have given that number to somebody else.
-/

namespace GreenTurtle.Descriptors

open Connections (HandlerId)
open EventLoops (HandlerKind)
open Execution

/-! ## The table of the kernel -/

/-- Sockets of handlers, and whatever else the process has opened. -/
inductive Holder where
  | outside
  | handler (ptr : HandlerId)
  deriving DecidableEq

/-- The numbers from zero on, each free or in use. -/
abbrev Table := List (Option Holder)

def lowest (table : Table) : ℕ := table.findIdx Option.isNone

def allocate (holder : Holder) (table : Table) : Table :=
  if lowest table < table.length then table.set (lowest table) (some holder)
  else table ++ [some holder]

/-- A number that is not in use gives an error and changes nothing. -/
def close (fd : ℤ) (table : Table) : Table :=
  if 0 ≤ fd then table.set fd.toNat none else table

/-- `SocketOption::DestoryFD`. -/
def destoryFD (fd : ℤ) (table : Table) : Table :=
  if fd ≠ 0 then close fd table else table

/-! ## Handlers -/

/-- The field `fd_`, and how many calls of `DestoryFD` are left in the
destructors. -/
inductive Life where
  | unborn
  | alive (fd : ℤ)
  | closing (fd : ℤ) (left : ℕ)
  deriving DecidableEq

/-- The calls of `DestoryFD` in the destructors of a class and its bases. -/
def closings : HandlerKind → ℕ
  | .acceptor => 2
  | .connection => 1
  | .client => 1

/-- The last field lists the acceptors whose `Listen` has failed. -/
structure DescriptorSystem where
  table : Table
  life : HandlerId → Life
  refused : List HandlerId

inductive DescriptorLabel where
  | construct (ptr : HandlerId) (success : Bool)
  | listen (ptr : HandlerId) (success : Bool)
  | destroy (ptr : HandlerId)
  | close (ptr : HandlerId)
  | openOutside
  | closeOutside (d : ℕ)
  deriving DecidableEq

namespace DescriptorSystem

def new (table : Table) : DescriptorSystem where
  table := table
  life := fun _ => .unborn
  refused := []

section Steps

variable (kind : HandlerId → HandlerKind)

/-- Where `socket` fails, the handler has the descriptor `-1`. -/
def step (system : DescriptorSystem) :
    DescriptorLabel → Option DescriptorSystem
  | .construct ptr success =>
      if system.life ptr = .unborn then
        if success then
          some
            { system with
              table := allocate (.handler ptr) system.table
              life :=
                Function.update system.life ptr
                  (.alive (lowest system.table)) }
        else
          some
            { system with
              life := Function.update system.life ptr (.alive (-1)) }
      else none
  | .listen ptr success =>
      match kind ptr, system.life ptr with
      | .acceptor, .alive fd =>
          if success then some system
          else
            some
              { system with
                table := Descriptors.close fd system.table
                refused := ptr :: system.refused }
      | _, _ => none
  | .destroy ptr =>
      match system.life ptr with
      | .alive fd =>
          some
            { system with
              life :=
                Function.update system.life ptr
                  (.closing fd (closings (kind ptr))) }
      | _ => none
  | .close ptr =>
      match system.life ptr with
      | .closing fd (left + 1) =>
          some
            { system with
              table := destoryFD fd system.table
              life := Function.update system.life ptr (.closing fd left) }
      | _ => none
  | .openOutside =>
      some { system with table := allocate .outside system.table }
  | .closeOutside d =>
      if system.table[d]? = some (some .outside) then
        some { system with table := system.table.set d none }
      else none

/-- The number that a handler is to have in the table. -/
def held (system : DescriptorSystem) (ptr : HandlerId) : Option ℕ :=
  match system.life ptr with
  | .unborn => none
  | .alive fd =>
      if 0 ≤ fd ∧ ptr ∉ system.refused then some fd.toNat else none
  | .closing fd left =>
      if 0 ≤ fd ∧ ptr ∉ system.refused ∧
          (left = closings (kind ptr) ∨ fd = 0) then
        some fd.toNat
      else none

/-- The number that a handler has closed and may close again. -/
def stale (system : DescriptorSystem) (ptr : HandlerId) : Option ℕ :=
  match system.life ptr with
  | .unborn => none
  | .alive fd =>
      if 0 ≤ fd ∧ ptr ∈ system.refused then some fd.toNat else none
  | .closing fd left =>
      if 0 < fd ∧ 0 < left ∧
          (ptr ∈ system.refused ∨ left < closings (kind ptr)) then
        some fd.toNat
      else none

end Steps

end DescriptorSystem

/-! ## What happens to the table -/

theorem getElem?_lowest (table : Table) (holder : Holder) :
    table[lowest table]? ≠ some (some holder) := by
  intro hused
  obtain ⟨hlt, hentry⟩ := List.getElem?_eq_some_iff.mp hused
  have hfree : (table[lowest table]).isNone = true :=
    List.findIdx_getElem (w := hlt)
  rw [hentry] at hfree
  cases hfree

theorem getElem?_allocate (holder : Holder) (table : Table) (d : ℕ) :
    (allocate holder table)[d]? =
      if d = lowest table then some (some holder) else table[d]? := by
  have hle : lowest table ≤ table.length := List.findIdx_le_length
  unfold allocate
  by_cases hlt : lowest table < table.length
  · rw [if_pos hlt, List.getElem?_set, if_pos hlt]
    by_cases heq : lowest table = d
    · simp [heq]
    · simp [heq, Ne.symm heq]
  · have hlength : lowest table = table.length := by omega
    rw [if_neg hlt, hlength, List.getElem?_append]
    by_cases hd : d < table.length
    · rw [if_pos hd, if_neg (by omega)]
    · by_cases heq : d = table.length
      · subst heq
        simp
      · rw [if_neg hd, if_neg heq, List.getElem?_eq_none (by simp; omega),
          List.getElem?_eq_none (by omega)]

theorem getElem?_close {fd : ℤ} (hfd : 0 ≤ fd) (table : Table) (d : ℕ) :
    (close fd table)[d]? =
      if d = fd.toNat then table[d]?.map fun _ => none else table[d]? := by
  rw [close, if_pos hfd, List.getElem?_set]
  by_cases heq : fd.toNat = d
  · subst heq
    by_cases hlt : fd.toNat < table.length
    · simp [hlt]
    · simp [hlt]
  · simp [heq, Ne.symm heq]

/-! ## The invariant -/

/-- The table says of every handler what the handler believes, and a number
that will be closed once more is free. -/
structure Sound
    (kind : HandlerId → HandlerKind) (system : DescriptorSystem) :
    Prop where
  held :
    ∀ ptr d,
      system.table[d]? = some (some (.handler ptr)) ↔
        system.held kind ptr = some d
  stale :
    ∀ ptr d, system.stale kind ptr = some d → system.table[d]? = some none
  left :
    ∀ ptr fd left, system.life ptr = .closing fd left →
      left ≤ closings (kind ptr)
  refused : ∀ ptr ∈ system.refused, system.life ptr ≠ .unborn

/-- A number that is given out is not one that will be closed once more. -/
def Avoids
    (kind : HandlerId → HandlerKind) (system : DescriptorSystem) :
    DescriptorLabel → Prop
  | .construct _ true =>
      ∀ ptr, system.stale kind ptr ≠ some (lowest system.table)
  | .openOutside =>
      ∀ ptr, system.stale kind ptr ≠ some (lowest system.table)
  | _ => True

section Soundness

variable {kind : HandlerId → HandlerKind}
variable {system next : DescriptorSystem} {ptr : HandlerId}

theorem DescriptorSystem.held_congr
    (hlife : next.life ptr = system.life ptr)
    (hrefused : ptr ∈ next.refused ↔ ptr ∈ system.refused) :
    next.held kind ptr = system.held kind ptr := by
  simp only [held, hlife, hrefused]

theorem DescriptorSystem.stale_congr
    (hlife : next.life ptr = system.life ptr)
    (hrefused : ptr ∈ next.refused ↔ ptr ∈ system.refused) :
    next.stale kind ptr = system.stale kind ptr := by
  simp only [stale, hlife, hrefused]

theorem Sound.new
    (kind : HandlerId → HandlerKind) {table : Table}
    (htable : ∀ ptr, some (.handler ptr) ∉ table) :
    Sound kind (DescriptorSystem.new table) := by
  constructor
  · intro ptr d
    refine iff_of_false ?_ (by simp [DescriptorSystem.held,
      DescriptorSystem.new])
    intro hentry
    exact htable ptr (List.mem_of_getElem? hentry)
  · intro ptr d hstale
    simp [DescriptorSystem.stale, DescriptorSystem.new] at hstale
  · intro ptr fd left hlife
    cases hlife
  · intro ptr hptr
    cases hptr

/-- A step of one handler: of the others nothing changes, neither what they
have nor what they may still close. -/
theorem Sound.of_others
    (hsound : Sound kind system)
    (hlife : ∀ other, other ≠ ptr → next.life other = system.life other)
    (hrefused :
      ∀ other, other ≠ ptr →
        (other ∈ next.refused ↔ other ∈ system.refused))
    (hentries :
      ∀ (other : HandlerId) (d : ℕ), other ≠ ptr →
        (next.table[d]? = some (some (.handler other)) ↔
          system.table[d]? = some (some (.handler other))))
    (hfree :
      ∀ other d, other ≠ ptr → system.stale kind other = some d →
        system.table[d]? = some none → next.table[d]? = some none)
    (hheld :
      ∀ d, next.table[d]? = some (some (.handler ptr)) ↔
        next.held kind ptr = some d)
    (hstale :
      ∀ d, next.stale kind ptr = some d → next.table[d]? = some none)
    (hleft :
      ∀ fd left, next.life ptr = .closing fd left →
        left ≤ closings (kind ptr))
    (hborn : ptr ∈ next.refused → next.life ptr ≠ .unborn) :
    Sound kind next := by
  constructor
  · intro other d
    by_cases hother : other = ptr
    · subst hother
      exact hheld d
    · rw [hentries other d hother, hsound.held,
        DescriptorSystem.held_congr (hlife other hother)
          (hrefused other hother)]
  · intro other d hclosed
    by_cases hother : other = ptr
    · subst hother
      exact hstale d hclosed
    · rw [DescriptorSystem.stale_congr (hlife other hother)
        (hrefused other hother)] at hclosed
      exact hfree other d hother hclosed (hsound.stale other d hclosed)
  · intro other fd left hclosing
    by_cases hother : other = ptr
    · subst hother
      exact hleft fd left hclosing
    · rw [hlife other hother] at hclosing
      exact hsound.left other fd left hclosing
  · intro other hmem
    by_cases hother : other = ptr
    · subst hother
      exact hborn hmem
    · rw [hlife other hother]
      exact hsound.refused other ((hrefused other hother).mp hmem)

/-! ## Closing -/

/-- A handler that closes its number for the first time. -/
theorem Sound.getElem?_close_held
    (hsound : Sound kind system) {fd : ℤ} (hfd : 0 ≤ fd)
    (hheld : system.held kind ptr = some fd.toNat) (d : ℕ) :
    (close fd system.table)[d]? =
      if d = fd.toNat then some none else system.table[d]? := by
  have hentry := (hsound.held ptr fd.toNat).mpr hheld
  rw [getElem?_close hfd]
  by_cases heq : d = fd.toNat
  · subst heq
    simp [hentry]
  · simp [heq]

/-- A handler that closes its number once more. -/
theorem Sound.getElem?_close_stale
    (hsound : Sound kind system) {fd : ℤ} (hfd : 0 ≤ fd)
    (hstale : system.stale kind ptr = some fd.toNat) (d : ℕ) :
    (close fd system.table)[d]? = system.table[d]? := by
  have hentry := hsound.stale ptr fd.toNat hstale
  rw [getElem?_close hfd]
  by_cases heq : d = fd.toNat
  · subst heq
    simp [hentry]
  · simp [heq]

/-- What a close does to the entries, seen from the other handlers. -/
theorem Sound.close_entries
    (hsound : Sound kind system) {fd : ℤ} (hfd : 0 ≤ fd)
    (hmine :
      system.held kind ptr = some fd.toNat ∨
        system.stale kind ptr = some fd.toNat) :
    (∀ (d : ℕ) holder, holder ≠ .handler ptr →
      ((close fd system.table)[d]? = some (some holder) ↔
        system.table[d]? = some (some holder))) ∧
      (∀ d : ℕ, system.table[d]? = some none →
        (close fd system.table)[d]? = some none) ∧
      (close fd system.table)[fd.toNat]? = some none := by
  rcases hmine with hheld | hstale
  · have hentry := (hsound.held ptr fd.toNat).mpr hheld
    refine ⟨?_, ?_, ?_⟩
    · intro d holder hother
      rw [hsound.getElem?_close_held hfd hheld]
      by_cases heq : d = fd.toNat
      · subst heq
        simp [hentry, Ne.symm hother]
      · simp [heq]
    · intro d hfree
      rw [hsound.getElem?_close_held hfd hheld, hfree]
      simp
    · rw [hsound.getElem?_close_held hfd hheld, if_pos rfl]
  · refine ⟨?_, ?_, ?_⟩
    · intro d holder _
      rw [hsound.getElem?_close_stale hfd hstale]
    · intro d hfree
      rw [hsound.getElem?_close_stale hfd hstale, hfree]
    · rw [hsound.getElem?_close_stale hfd hstale]
      exact hsound.stale ptr _ hstale

/-- After a close the handler has no number any more. -/
theorem Sound.close_not_held
    (hsound : Sound kind system) {fd : ℤ} (hfd : 0 ≤ fd)
    (hmine :
      system.held kind ptr = some fd.toNat ∨
        (system.held kind ptr = none ∧
          system.stale kind ptr = some fd.toNat)) (d : ℕ) :
    (close fd system.table)[d]? ≠ some (some (.handler ptr)) := by
  intro hentry
  rcases hmine with hheld | ⟨hnone, hstale⟩
  · rw [hsound.getElem?_close_held hfd hheld] at hentry
    by_cases heq : d = fd.toNat
    · simp [heq] at hentry
    · rw [if_neg heq, hsound.held, hheld, Option.some.injEq] at hentry
      exact heq hentry.symm
  · rw [hsound.getElem?_close_stale hfd hstale, hsound.held, hnone]
      at hentry
    cases hentry

/-- A close by a handler that is entitled to it, or that has closed before. -/
theorem Sound.of_close
    (hsound : Sound kind system) {fd : ℤ} (hfd : 0 ≤ fd)
    (hmine :
      system.held kind ptr = some fd.toNat ∨
        (system.held kind ptr = none ∧
          system.stale kind ptr = some fd.toNat))
    (htable : next.table = close fd system.table)
    (hlife : ∀ other, other ≠ ptr → next.life other = system.life other)
    (hrefused :
      ∀ other, other ≠ ptr →
        (other ∈ next.refused ↔ other ∈ system.refused))
    (hheld : next.held kind ptr = none)
    (hstale :
      next.stale kind ptr = some fd.toNat ∨ next.stale kind ptr = none)
    (hleft :
      ∀ fd left, next.life ptr = .closing fd left →
        left ≤ closings (kind ptr))
    (hborn : next.life ptr ≠ .unborn) :
    Sound kind next := by
  obtain ⟨hentries, hfree, hclosed⟩ :=
    hsound.close_entries hfd (hmine.imp_right And.right)
  refine hsound.of_others hlife hrefused ?_ ?_ ?_ ?_ hleft
    (fun _ => hborn)
  · intro other d hother
    rw [htable]
    exact hentries d _ (by simpa using hother)
  · intro other d _ _ hunused
    rw [htable]
    exact hfree d hunused
  · intro d
    rw [htable, hheld]
    exact iff_of_false (hsound.close_not_held hfd hmine d) (by simp)
  · intro d hd
    rcases hstale with hsame | hnone
    · rw [hsame, Option.some.injEq] at hd
      subst hd
      rwa [htable]
    · rw [hnone] at hd
      cases hd

/-- A handler that is about to close its number has it, or has closed it. -/
theorem Sound.closing_mine
    (hsound : Sound kind system) {fd : ℤ} {left : ℕ} (hfd : 0 < fd)
    (hlife : system.life ptr = .closing fd (left + 1)) :
    system.held kind ptr = some fd.toNat ∨
      (system.held kind ptr = none ∧
        system.stale kind ptr = some fd.toNat) := by
  have hbound := hsound.left ptr fd (left + 1) hlife
  by_cases hfirst : ptr ∉ system.refused ∧ left + 1 = closings (kind ptr)
  · left
    simp [DescriptorSystem.held, hlife, hfd.le, hfirst]
  · right
    have hagain :
        ptr ∈ system.refused ∨ left + 1 < closings (kind ptr) := by
      by_contra hnot
      rw [not_or] at hnot
      exact hfirst ⟨hnot.1, by omega⟩
    simp only [DescriptorSystem.held, DescriptorSystem.stale, hlife]
    refine ⟨if_neg ?_, if_pos ⟨hfd, by omega, hagain⟩⟩
    rintro ⟨-, hclean, hfull | hzero⟩
    · exact hfirst ⟨hclean, hfull⟩
    · omega

theorem DescriptorSystem.alive_mine
    (kind : HandlerId → HandlerKind) {fd : ℤ} (hfd : 0 ≤ fd)
    (hlife : system.life ptr = .alive fd) :
    system.held kind ptr = some fd.toNat ∨
      (system.held kind ptr = none ∧
        system.stale kind ptr = some fd.toNat) := by
  by_cases hrefused : ptr ∈ system.refused
  · right
    simp [held, stale, hlife, hfd, hrefused]
  · left
    simp [held, hlife, hfd, hrefused]

/-- A step that leaves the table alone. -/
theorem Sound.of_same_table
    (hsound : Sound kind system) (ptr : HandlerId)
    (htable : next.table = system.table)
    (hlife : ∀ other, other ≠ ptr → next.life other = system.life other)
    (hrefused :
      ∀ other, other ≠ ptr →
        (other ∈ next.refused ↔ other ∈ system.refused))
    (hheld : next.held kind ptr = system.held kind ptr)
    (hstale :
      ∀ d, next.stale kind ptr = some d → system.stale kind ptr = some d)
    (hleft :
      ∀ fd left, next.life ptr = .closing fd left →
        left ≤ closings (kind ptr))
    (hborn : next.life ptr ≠ .unborn) :
    Sound kind next := by
  refine hsound.of_others hlife hrefused ?_ ?_ ?_ ?_ hleft
    (fun _ => hborn)
  · intro other d _
    rw [htable]
  · intro other d _ _ hunused
    rwa [htable]
  · intro d
    rw [htable, hheld]
    exact hsound.held ptr d
  · intro d hd
    rw [htable]
    exact hsound.stale ptr d (hstale d hd)

theorem Sound.listen
    (hsound : Sound kind system) {success : Bool}
    (hstep :
      system.step kind (.listen ptr success) = some next) :
    Sound kind next := by
  simp only [DescriptorSystem.step] at hstep
  split at hstep
  next fd hkind hlife =>
    cases success with
    | true =>
        obtain rfl := Option.some.inj hstep
        exact hsound
    | false =>
        obtain rfl := Option.some.inj hstep
        have hothers :
            ∀ other, other ≠ ptr →
              (other ∈ ptr :: system.refused ↔
                other ∈ system.refused) := by
          intro other hother
          simp [hother]
        by_cases hfd : 0 ≤ fd
        · refine hsound.of_close hfd
            (DescriptorSystem.alive_mine kind hfd hlife) rfl (fun _ _ => rfl)
            hothers ?_ ?_ ?_ ?_
          · simp [DescriptorSystem.held, hlife]
          · left
            simp [DescriptorSystem.stale, hlife, hfd]
          · simp [hlife]
          · simp [hlife]
        · refine hsound.of_same_table ptr (if_neg hfd) (fun _ _ => rfl)
            hothers ?_ ?_ ?_ ?_
          · simp [DescriptorSystem.held, hlife, hfd]
          · simp [DescriptorSystem.stale, hlife, hfd]
          · simp [hlife]
          · simp [hlife]
  next => cases hstep

theorem Sound.destroy
    (hsound : Sound kind system)
    (hstep : system.step kind (.destroy ptr) = some next) :
    Sound kind next := by
  simp only [DescriptorSystem.step] at hstep
  split at hstep
  next fd hlife =>
    obtain rfl := Option.some.inj hstep
    refine hsound.of_same_table ptr rfl ?_ (fun _ _ => Iff.rfl) ?_ ?_ ?_ ?_
    · intro other hother
      exact Function.update_of_ne hother _ _
    · simp [DescriptorSystem.held, hlife]
    · intro d hd
      simp only [DescriptorSystem.stale, Function.update_self, lt_irrefl,
        or_false] at hd
      split at hd
      next hclosed =>
        simp only [DescriptorSystem.stale, hlife]
        rw [if_pos ⟨hclosed.1.le, hclosed.2.2⟩]
        exact hd
      next => cases hd
    · intro other left hclosing
      simp only [Function.update_self, Life.closing.injEq] at hclosing
      exact hclosing.2.ge
    · simp
  next => cases hstep

theorem Sound.close
    (hsound : Sound kind system)
    (hstep : system.step kind (.close ptr) = some next) :
    Sound kind next := by
  simp only [DescriptorSystem.step] at hstep
  split at hstep
  next fd left hlife =>
    obtain rfl := Option.some.inj hstep
    have hbound := hsound.left ptr fd (left + 1) hlife
    have hothers :
        ∀ other, other ≠ ptr →
          Function.update system.life ptr (.closing fd left) other =
            system.life other := by
      intro other hother
      exact Function.update_of_ne hother _ _
    have hleft :
        ∀ (number : ℤ) (remaining : ℕ),
          Function.update system.life ptr (.closing fd left) ptr =
              .closing number remaining →
            remaining ≤ closings (kind ptr) := by
      intro number remaining hclosing
      simp only [Function.update_self, Life.closing.injEq] at hclosing
      omega
    by_cases hfd : 0 < fd
    · refine hsound.of_close hfd.le (hsound.closing_mine hfd hlife) ?_
        hothers (fun _ _ => Iff.rfl) ?_ ?_ hleft ?_
      · rw [destoryFD, if_pos hfd.ne']
      · simp only [DescriptorSystem.held, Function.update_self]
        rw [if_neg (by omega)]
      · simp only [DescriptorSystem.stale, Function.update_self]
        split
        next => exact .inl rfl
        next => exact .inr rfl
      · simp
    · refine hsound.of_same_table ptr ?_ hothers (fun _ _ => Iff.rfl) ?_ ?_
        hleft ?_
      · simp only [destoryFD, Descriptors.close]
        split
        next hzero => exact if_neg (by omega)
        next => rfl
      · simp only [DescriptorSystem.held, Function.update_self, hlife]
        by_cases hzero : fd = 0
        · simp [hzero]
        · rw [if_neg (by omega), if_neg (by omega)]
      · simp [DescriptorSystem.stale, hfd]
      · simp
  next => cases hstep

/-! ## Allocating -/

/-- The number that is given out was nobody's. -/
theorem allocate_entries
    (table : Table) (holder : Holder) {other : HandlerId}
    (hother : holder ≠ .handler other) (d : ℕ) :
    (allocate holder table)[d]? = some (some (.handler other)) ↔
      table[d]? = some (some (.handler other)) := by
  rw [getElem?_allocate]
  by_cases heq : d = lowest table
  · subst heq
    rw [if_pos rfl]
    refine iff_of_false ?_ (getElem?_lowest _ _)
    simpa using hother
  · rw [if_neg heq]

theorem Sound.construct
    (hsound : Sound kind system) {success : Bool}
    (havoids : Avoids kind system (.construct ptr success))
    (hstep : system.step kind (.construct ptr success) = some next) :
    Sound kind next := by
  simp only [DescriptorSystem.step] at hstep
  split at hstep
  next hlife =>
    have hclean : ptr ∉ system.refused := by
      intro hrefused
      exact hsound.refused ptr hrefused hlife
    have hothers :
        ∀ fd other, other ≠ ptr →
          Function.update system.life ptr (.alive fd) other =
            system.life other := by
      intro fd other hother
      exact Function.update_of_ne hother _ _
    cases success with
    | true =>
        obtain rfl := Option.some.inj hstep
        refine hsound.of_others (hothers _) (fun _ _ => Iff.rfl) ?_ ?_ ?_
          ?_ ?_ ?_
        · intro other d hother
          exact allocate_entries _ _ (by simpa using Ne.symm hother) d
        · intro other d _ hstale hfree
          rw [getElem?_allocate, if_neg ?_]
          · exact hfree
          · rintro rfl
            exact havoids other hstale
        · intro d
          have hnone : system.table[d]? ≠ some (some (.handler ptr)) := by
            rw [Ne, hsound.held]
            simp [DescriptorSystem.held, hlife]
          rw [getElem?_allocate]
          simp only [DescriptorSystem.held, Function.update_self,
            Int.natCast_nonneg, hclean, not_false_eq_true, and_self,
            if_true, Int.toNat_natCast, Option.some.injEq]
          by_cases heq : d = lowest system.table
          · simp [heq]
          · simp [heq, Ne.symm heq, hnone]
        · intro d hd
          simp [DescriptorSystem.stale, hclean] at hd
        · simp
        · simp
    | false =>
        obtain rfl := Option.some.inj hstep
        refine hsound.of_same_table ptr rfl (hothers _)
          (fun _ _ => Iff.rfl) ?_ ?_ ?_ ?_
        · simp [DescriptorSystem.held, hlife]
        · simp [DescriptorSystem.stale]
        · simp
        · simp
  next => cases hstep

/-- What the rest of the process opens and closes. -/
theorem Sound.of_outside
    (hsound : Sound kind system) {table : Table}
    (hentries :
      ∀ (other : HandlerId) (d : ℕ),
        table[d]? = some (some (.handler other)) ↔
          system.table[d]? = some (some (.handler other)))
    (hfree :
      ∀ other d, system.stale kind other = some d →
        system.table[d]? = some none → table[d]? = some none) :
    Sound kind { system with table := table } := by
  constructor
  · intro other d
    rw [hentries other d]
    exact hsound.held other d
  · intro other d hstale
    exact hfree other d hstale (hsound.stale other d hstale)
  · exact hsound.left
  · exact hsound.refused

theorem Sound.step
    (hsound : Sound kind system) {label : DescriptorLabel}
    (havoids : Avoids kind system label)
    (hstep : system.step kind label = some next) :
    Sound kind next := by
  cases label with
  | construct ptr success => exact hsound.construct havoids hstep
  | listen ptr success => exact hsound.listen hstep
  | destroy ptr => exact hsound.destroy hstep
  | close ptr => exact hsound.close hstep
  | openOutside =>
      obtain rfl := Option.some.inj hstep
      apply hsound.of_outside
      · intro other d
        exact allocate_entries _ .outside (by simp) d
      · intro other d hstale hfree
        rw [getElem?_allocate, if_neg ?_]
        · exact hfree
        · rintro rfl
          exact havoids other hstale
  | closeOutside d =>
      simp only [DescriptorSystem.step] at hstep
      split at hstep
      next houtside =>
        obtain rfl := Option.some.inj hstep
        apply hsound.of_outside
        · intro other e
          rw [List.getElem?_set]
          by_cases heq : d = e
          · subst heq
            simp [houtside]
          · simp [heq]
        · intro other e _ hfree
          rw [List.getElem?_set]
          by_cases heq : d = e
          · subst heq
            rw [houtside] at hfree
            cases hfree
          · simp [heq, hfree]
      next => cases hstep

/-! ## Safety -/

/-- The calls that close a number on behalf of a handler. -/
def DescriptorLabel.Closes (ptr : HandlerId) (label : DescriptorLabel) :
    Prop :=
  label = .close ptr ∨ label = .listen ptr false

/-- Nobody else loses anything. -/
theorem Sound.closes_own
    (hsound : Sound kind system) {label : DescriptorLabel}
    (hcloses : label.Closes ptr)
    (hstep : system.step kind label = some next) (d : ℕ) {holder : Holder}
    (hholder : holder ≠ .handler ptr) :
    next.table[d]? = some (some holder) ↔
      system.table[d]? = some (some holder) := by
  rcases hcloses with rfl | rfl
  · simp only [DescriptorSystem.step] at hstep
    split at hstep
    next fd left hlife =>
      obtain rfl := Option.some.inj hstep
      simp only [destoryFD]
      by_cases hfd : 0 < fd
      · rw [if_pos hfd.ne']
        have hmine := hsound.closing_mine hfd hlife
        exact (hsound.close_entries hfd.le
          (hmine.imp_right And.right)).1 d holder hholder
      · split
        next hzero => rw [Descriptors.close, if_neg (by omega)]
        next => rfl
    next => cases hstep
  · simp only [DescriptorSystem.step] at hstep
    split at hstep
    next fd hkind hlife =>
      obtain rfl := Option.some.inj hstep
      dsimp only
      by_cases hfd : 0 ≤ fd
      · have hmine := DescriptorSystem.alive_mine kind hfd hlife
        exact (hsound.close_entries hfd
          (hmine.imp_right And.right)).1 d holder hholder
      · rw [Descriptors.close, if_neg hfd]
    next => cases hstep

theorem Sound.run
    (hsound : Sound kind system) {labels : List DescriptorLabel}
    (hrun : run (DescriptorSystem.step kind) system labels = some next)
    (havoids :
      EachStep (DescriptorSystem.step kind) (Avoids kind) system labels) :
    Sound kind next :=
  run_preserves (DescriptorSystem.step kind) (Sound kind) (Avoids kind)
    (fun _ _ _ hsound havoids hstep => hsound.step havoids hstep) hsound
    hrun havoids

/-- As long as no number is given out that an acceptor is going to close once
more, every live handler that got a descriptor has it, except an acceptor whose
`Listen` has failed and closed it; a handler that is gone has none (unless it
was number zero), and a close takes nothing from anybody else. -/
theorem handlers_keep_descriptors
    (kind : HandlerId → HandlerKind) {table : Table}
    (htable : ∀ ptr, some (.handler ptr) ∉ table)
    {labels : List DescriptorLabel} {final : DescriptorSystem}
    (hrun :
      run (DescriptorSystem.step kind) (.new table) labels = some final)
    (havoids :
      EachStep (DescriptorSystem.step kind) (Avoids kind) (.new table)
        labels) :
    (∀ ptr (d : ℕ), final.life ptr = .alive d → ptr ∉ final.refused →
      final.table[d]? = some (some (.handler ptr))) ∧
    (∀ ptr fd (d : ℕ), final.life ptr = .closing fd 0 → fd ≠ 0 →
      final.table[d]? ≠ some (some (.handler ptr))) ∧
    ∀ ptr label next (d : ℕ) holder, label.Closes ptr →
      final.step kind label = some next → holder ≠ .handler ptr →
        (next.table[d]? = some (some holder) ↔
          final.table[d]? = some (some holder)) := by
  have hsound := (Sound.new kind htable).run hrun havoids
  refine ⟨?_, ?_, ?_⟩
  · intro ptr d hlife hclean
    rw [hsound.held]
    simp [DescriptorSystem.held, hlife, hclean]
  · intro ptr fd d hlife hzero
    have hclosings : 0 ≠ closings (kind ptr) := by
      cases kind ptr <;> decide
    rw [Ne, hsound.held]
    simp [DescriptorSystem.held, hlife, hzero, hclosings]
  · intro ptr label next d holder hcloses hstep hholder
    exact hsound.closes_own hcloses hstep d hholder

/-! ## An acceptor that goes away -/

theorem lowest_eq
    {table : Table} {d : ℕ} (hfree : table[d]? = some none)
    (hlow : ∀ e < d, ∃ holder, table[e]? = some (some holder)) :
    lowest table = d := by
  obtain ⟨hd, hentry⟩ := List.getElem?_eq_some_iff.mp hfree
  rw [lowest, List.findIdx_eq hd]
  refine ⟨by rw [hentry]; rfl, ?_⟩
  intro e he
  obtain ⟨holder, hholder⟩ := hlow e he
  obtain ⟨hlt, hused⟩ := List.getElem?_eq_some_iff.mp hholder
  rw [hused]
  rfl

theorem length_le_allocate (holder : Holder) (table : Table) :
    table.length ≤ (allocate holder table).length := by
  unfold allocate
  split <;> simp

theorem lowest_lt_allocate (holder : Holder) (table : Table) :
    lowest table < (allocate holder table).length := by
  have hentry := getElem?_allocate holder table (lowest table)
  rw [if_pos rfl] at hentry
  exact (List.getElem?_eq_some_iff.mp hentry).1

theorem length_close (fd : ℤ) (table : Table) :
    (close fd table).length = table.length := by
  unfold close
  split <;> simp

theorem length_destoryFD (fd : ℤ) (table : Table) :
    (destoryFD fd table).length = table.length := by
  unfold destoryFD
  split
  next => exact length_close fd table
  next => rfl

/-- What holds whoever closes what: the number of a live handler was given out
once, and only what was constructed is refused. -/
structure Grounded (system : DescriptorSystem) : Prop where
  within :
    ∀ ptr (d : ℕ), system.life ptr = .alive d → d < system.table.length
  refused : ∀ ptr ∈ system.refused, system.life ptr ≠ .unborn

/-- A step that makes no handler alive. -/
theorem Grounded.of_alive
    (hgrounded : Grounded system)
    (hlength : system.table.length ≤ next.table.length)
    (halive :
      ∀ ptr fd, next.life ptr = .alive fd → system.life ptr = .alive fd)
    (hrefused : ∀ ptr ∈ next.refused, next.life ptr ≠ .unborn) :
    Grounded next := by
  refine ⟨?_, hrefused⟩
  intro ptr d hlife
  exact (hgrounded.within ptr d (halive ptr d hlife)).trans_le hlength

theorem Grounded.construct
    (hgrounded : Grounded system) {table : Table} {fd : ℤ}
    (hlength : system.table.length ≤ table.length)
    (hfd : ∀ d : ℕ, fd = d → d < table.length) :
    Grounded
      { system with
        table := table
        life := Function.update system.life ptr (.alive fd) } := by
  constructor
  · intro other d hlife
    by_cases hother : other = ptr
    · subst hother
      simp only [Function.update_self, Life.alive.injEq] at hlife
      exact hfd d hlife
    · simp only [Function.update_of_ne hother] at hlife
      exact (hgrounded.within other d hlife).trans_le hlength
  · intro other hmem
    by_cases hother : other = ptr
    · simp [hother]
    · simp only [Function.update_of_ne hother]
      exact hgrounded.refused other hmem

/-- A handler in its destructors. -/
theorem Grounded.closing
    (hgrounded : Grounded system) {table : Table} {fd : ℤ} {left : ℕ}
    (hlength : system.table.length ≤ table.length) :
    Grounded
      { system with
        table := table
        life := Function.update system.life ptr (.closing fd left) } := by
  refine hgrounded.of_alive hlength ?_ ?_
  · intro other number hlife
    by_cases hother : other = ptr
    · simp [hother] at hlife
    · simpa only [Function.update_of_ne hother] using hlife
  · intro other hmem
    by_cases hother : other = ptr
    · simp [hother]
    · simp only [Function.update_of_ne hother]
      exact hgrounded.refused other hmem

theorem Grounded.step
    (hgrounded : Grounded system) {label : DescriptorLabel}
    (hstep : system.step kind label = some next) : Grounded next := by
  cases label with
  | construct ptr success =>
      simp only [DescriptorSystem.step] at hstep
      split at hstep
      next =>
        cases success with
        | true =>
            obtain rfl := Option.some.inj hstep
            apply hgrounded.construct (length_le_allocate _ _)
            intro d hd
            rw [← Int.natCast_inj.mp hd]
            exact lowest_lt_allocate _ _
        | false =>
            obtain rfl := Option.some.inj hstep
            apply hgrounded.construct le_rfl
            intro d hd
            omega
      next => cases hstep
  | listen ptr success =>
      simp only [DescriptorSystem.step] at hstep
      split at hstep
      next fd hkind hlife =>
        cases success with
        | true =>
            obtain rfl := Option.some.inj hstep
            exact hgrounded
        | false =>
            obtain rfl := Option.some.inj hstep
            refine hgrounded.of_alive (length_close _ _).ge
              (fun _ _ halive => halive) ?_
            rintro other (_ | ⟨_, hmem⟩)
            · simp [hlife]
            · exact hgrounded.refused other hmem
      next => cases hstep
  | destroy ptr =>
      simp only [DescriptorSystem.step] at hstep
      split at hstep
      next =>
        obtain rfl := Option.some.inj hstep
        exact hgrounded.closing le_rfl
      next => cases hstep
  | close ptr =>
      simp only [DescriptorSystem.step] at hstep
      split at hstep
      next =>
        obtain rfl := Option.some.inj hstep
        exact hgrounded.closing (length_destoryFD _ _).ge
      next => cases hstep
  | openOutside =>
      obtain rfl := Option.some.inj hstep
      exact hgrounded.of_alive (length_le_allocate _ _)
        (fun _ _ halive => halive) hgrounded.refused
  | closeOutside d =>
      simp only [DescriptorSystem.step] at hstep
      split at hstep
      next =>
        obtain rfl := Option.some.inj hstep
        exact hgrounded.of_alive (List.length_set).ge
          (fun _ _ halive => halive) hgrounded.refused
      next => cases hstep

theorem grounded_new (table : Table) :
    Grounded (DescriptorSystem.new table) := by
  constructor
  · intro ptr d hlife
    cases hlife
  · intro ptr hmem
    cases hmem

/-- Whenever an acceptor is destroyed whose number is not zero and the lowest
one to become free, a handler that is constructed between the two destructors is
alive and without a descriptor after the second. -/
theorem destroyed_acceptor_closes_other
    (kind : HandlerId → HandlerKind) {table : Table}
    {labels : List DescriptorLabel} {state : DescriptorSystem}
    (hrun :
      run (DescriptorSystem.step kind) (.new table) labels = some state)
    {acceptor newcomer : HandlerId} {d : ℕ}
    (hkind : kind acceptor = .acceptor) (hpos : 0 < d)
    (hlife : state.life acceptor = .alive d)
    (hlow : ∀ e < d, ∃ holder, state.table[e]? = some (some holder))
    (hnew : state.life newcomer = .unborn) :
    ∃ last,
      run (DescriptorSystem.step kind) state
          [.destroy acceptor, .close acceptor, .construct newcomer true,
            .close acceptor] = some last ∧
        last.life newcomer = .alive d ∧ newcomer ∉ last.refused ∧
          last.table[d]? = some none := by
  have hgrounded : Grounded state :=
    run_invariant (DescriptorSystem.step kind) Grounded
      (fun _ _ _ hstate hstep => hstate.step hstep) (grounded_new table)
      hrun
  have hother : newcomer ≠ acceptor := by
    rintro rfl
    rw [hlife] at hnew
    cases hnew
  have hunrefused : newcomer ∉ state.refused := by
    intro hrefused
    exact hgrounded.refused newcomer hrefused hnew
  have hentry := List.getElem?_eq_getElem (hgrounded.within acceptor d hlife)
  have hclosed :
      ∀ e : ℕ, (close d state.table)[e]? =
        if e = d then some none else state.table[e]? := by
    intro e
    rw [getElem?_close (Int.natCast_nonneg d), Int.toNat_natCast]
    by_cases heq : e = d
    · subst heq
      rw [if_pos rfl, if_pos rfl, hentry, Option.map_some]
    · rw [if_neg heq, if_neg heq]
  have hlowest : lowest (close d state.table) = d := by
    apply lowest_eq
    · rw [hclosed, if_pos rfl]
    · intro e he
      rw [hclosed, if_neg he.ne]
      exact hlow e he
  have hnonzero : (d : ℤ) ≠ 0 := by omega
  refine
    ⟨⟨close d (allocate (.handler newcomer) (close d state.table)),
      Function.update
        (Function.update
          (Function.update
            (Function.update state.life acceptor (.closing d 2))
            acceptor (.closing d 1))
          newcomer (.alive d))
        acceptor (.closing d 0),
      state.refused⟩, ?_, ?_, hunrefused, ?_⟩
  · simp only [run, DescriptorSystem.step, hlife, hkind, closings,
      Function.update_self, destoryFD, hnonzero, ne_eq, not_false_eq_true,
      if_true, Function.update_of_ne hother, hnew, hlowest,
      Function.update_of_ne (Ne.symm hother)]
  · simp [Function.update_of_ne hother]
  · rw [getElem?_close (Int.natCast_nonneg d), Int.toNat_natCast,
      if_pos rfl, getElem?_allocate, if_pos hlowest.symm]
    rfl

end Soundness

/-! ## A small program -/

/-- Handler number three is an acceptor, all others are connections. -/
def oneListener (ptr : HandlerId) : HandlerKind :=
  if ptr = 3 then .acceptor else .connection

/-- Standard input, output and error. -/
def standardTable : Table :=
  [some .outside, some .outside, some .outside]

def opening : List DescriptorLabel :=
  [.construct 3 true, .listen 3 true, .construct 5 true]

/-- The connection comes to its end, and then the acceptor. -/
def orderlyEnd : List DescriptorLabel :=
  [.destroy 5, .close 5, .destroy 3, .close 3, .close 3, .construct 6 true]

theorem avoids_orderlyEnd :
    EachStep (DescriptorSystem.step oneListener) (Avoids oneListener)
      (.new standardTable) (opening ++ orderlyEnd) := by
  refine ⟨?_, trivial, ?_, trivial, trivial, trivial, trivial, trivial, ?_,
    trivial⟩
  · intro ptr
    simp [DescriptorSystem.stale, DescriptorSystem.new]
  · intro ptr
    by_cases hthree : ptr = 3 <;>
      simp [DescriptorSystem.stale, DescriptorSystem.new, hthree]
  · intro ptr
    by_cases hthree : ptr = 3 <;> by_cases hfive : ptr = 5 <;>
      simp [DescriptorSystem.stale, DescriptorSystem.new, hthree, hfive]

theorem not_mem_standardTable (ptr : HandlerId) :
    some (.handler ptr) ∉ standardTable := by
  simp [standardTable]

theorem handlers_keep_descriptors_orderly_end :
    ∃ final,
      run (DescriptorSystem.step oneListener) (.new standardTable)
          (opening ++ orderlyEnd) = some final ∧
        final.life 6 = .alive 3 ∧
        final.table[3]? = some (some (.handler 6)) := by
  have hrun :
      ∃ final,
        run (DescriptorSystem.step oneListener) (.new standardTable)
            (opening ++ orderlyEnd) = some final ∧
          final.life 6 = .alive 3 ∧ final.refused = [] :=
    ⟨_, rfl, rfl, rfl⟩
  obtain ⟨final, hfinal, hlife, hrefused⟩ := hrun
  refine ⟨final, hfinal, hlife, ?_⟩
  exact (handlers_keep_descriptors oneListener not_mem_standardTable hfinal
    avoids_orderlyEnd).1 6 3 hlife (by simp [hrefused])

/-- Connection number six is given descriptor three, and loses it. -/
theorem destroyed_acceptor_closes_other_sixth :
    ∃ state last,
      run (DescriptorSystem.step oneListener) (.new standardTable)
          opening = some state ∧
        run (DescriptorSystem.step oneListener) state
            [.destroy 3, .close 3, .construct 6 true, .close 3] =
          some last ∧
        last.life 6 = .alive (3 : ℕ) ∧ last.table[3]? = some none := by
  have hrun :
      ∃ state,
        run (DescriptorSystem.step oneListener) (.new standardTable)
            opening = some state ∧
          state.life 3 = .alive (3 : ℕ) ∧ state.life 6 = .unborn ∧
          ∀ e < 3, state.table[e]? = some (some .outside) :=
    ⟨_, rfl, rfl, rfl, by decide⟩
  obtain ⟨state, hstate, hlife, hnew, hlow⟩ := hrun
  obtain ⟨last, hlast, hsix, -, htable⟩ :=
    destroyed_acceptor_closes_other oneListener hstate rfl (by decide)
      hlife (fun e he => ⟨.outside, hlow e he⟩) hnew
  exact ⟨state, last, hstate, hlast, hsix, htable⟩

end GreenTurtle.Descriptors
