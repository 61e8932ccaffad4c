import GreenTurtle.Execution
import GreenTurtle.SortedSearch
import Mathlib.Tactic

/-!
# `VectorMap`

`vector_map.h`: a map kept as a vector of entries that is sorted by key.  Keys
are equal to the map when neither compares less than the other.  The vector
refines a function from keys to values, and along every sequence of calls this
function is the one that remembers the last value given to each key.
-/

namespace GreenTurtle

open Execution
open SortedSearch

structure VectorMap (Key T : Type) where
  container : List (Key × T)

namespace VectorMap

variable {Key T : Type} (compare : Key → Key → Bool)

def new : VectorMap Key T where
  container := []

def equalTo (a b : Key × T) : Bool :=
  if !compare a.1 b.1 && !compare b.1 a.1 then true else false

def compareValueType (a b : Key × T) : Bool :=
  compare a.1 b.1

/-- `std::lower_bound` over the whole container. -/
def lowerBound (map : VectorMap Key T) (value : Key × T) : ℕ :=
  SortedSearch.lowerBound (fun a b => compareValueType compare a b = true)
    map.container value

def emplace
    (key : Key) (second : T) (map : VectorMap Key T) : VectorMap Key T :=
  let value := (key, second)
  let iter := lowerBound compare map value
  match map.container[iter]? with
  | some entry =>
      if equalTo compare entry value then
        { container := map.container.set iter (entry.1, value.2) }
      else { container := map.container.insertIdx iter value }
  | none => { container := map.container.insertIdx iter value }

def size (map : VectorMap Key T) : ℕ :=
  map.container.length

def clear (_map : VectorMap Key T) : VectorMap Key T where
  container := []

variable [Inhabited T]

/-- An iterator is the index it points at, and the end is the size. -/
def find (key : Key) (map : VectorMap Key T) : ℕ :=
  let iter := lowerBound compare map (key, default)
  match map.container[iter]? with
  | some entry =>
      if equalTo compare entry (key, default) then iter
      else map.container.length
  | none => map.container.length

/-- The overload for constant maps, which has the same body. -/
def findConst (key : Key) (map : VectorMap Key T) : ℕ :=
  find compare key map

/-- `operator[]`.  There is no result when its assertion fails. -/
def subscript (key : Key) (map : VectorMap Key T) : Option T :=
  (map.container[findConst compare key map]?).map Prod.snd

def erase (key : Key) (map : VectorMap Key T) : VectorMap Key T :=
  let iter := find compare key map
  match map.container[iter]? with
  | some entry =>
      if equalTo compare entry (key, default) then
        { container := map.container.eraseIdx iter }
      else map
  | none => map

/-! ## Sequences of calls -/

inductive MapCall (Key T : Type) where
  | emplace (key : Key) (second : T)
  | erase (key : Key)
  | find (key : Key)
  | subscript (key : Key)
  | clear

/-- A call of `operator[]` that fails its assertion ends the program. -/
def step (map : VectorMap Key T) : MapCall Key T → Option (VectorMap Key T)
  | .emplace key second => some (emplace compare key second map)
  | .erase key => some (erase compare key map)
  | .find _ => some map
  | .subscript key => (subscript compare key map).map fun _ => map
  | .clear => some map.clear

/-- Keys of which neither is less. -/
abbrev Equivalent (a b : Key) : Prop :=
  IncompRel (fun a b => compare a b = true) a b

instance (a b : Key) : Decidable (Equivalent compare a b) := by
  unfold Equivalent IncompRel
  infer_instance

/-- What a call makes of the value of one key. -/
def remember (k : Key) (old : Option T) : MapCall Key T → Option T
  | .emplace key second => if Equivalent compare key k then some second else old
  | .erase key => if Equivalent compare key k then none else old
  | .find _ => old
  | .subscript _ => old
  | .clear => none

/-- The value of the last `emplace` of a key, unless the key was erased since
then or the map was cleared. -/
def lastValue (calls : List (MapCall Key T)) (k : Key) : Option T :=
  calls.foldl (remember compare k) none

/-- The key that a call is about. -/
def MapCall.key : MapCall Key T → Option Key
  | .emplace key _ => some key
  | .erase key => some key
  | .find key => some key
  | .subscript key => some key
  | .clear => none

/-- A list with one key for each class of keys that have a value. -/
structure LiveKeys
    (calls : List (MapCall Key T)) (keys : List Key) : Prop where
  distinct : keys.Pairwise fun a b => ¬ Equivalent compare a b
  live_iff :
    ∀ k, (lastValue compare calls k).isSome ↔
      ∃ key ∈ keys, Equivalent compare key k

/-- The map after a sequence of calls is the finite map of the last values. -/
structure IsFiniteMap
    (calls : List (MapCall Key T)) (map : VectorMap Key T) : Prop where
  increasing :
    map.container.Pairwise fun a b => compare a.1 b.1 = true
  liveKeys : LiveKeys compare calls (map.container.map Prod.fst)
  size_eq :
    ∀ keys, LiveKeys compare calls keys → map.size = keys.length
  find_some :
    ∀ k v, lastValue compare calls k = some v →
      ∃ key, map.container[find compare k map]? = some (key, v) ∧
        map.container[findConst compare k map]? = some (key, v) ∧
        Equivalent compare key k
  find_none :
    ∀ k, lastValue compare calls k = none →
      find compare k map = map.size ∧ findConst compare k map = map.size
  subscript_eq : ∀ k, subscript compare k map = lastValue compare calls k
  others :
    ∀ call key next, call.key = some key → step compare map call = some next →
      ∀ k, ¬ Equivalent compare key k →
        subscript compare k next = subscript compare k map

/-! ## What each operation does to the entries -/

section Operations

variable {compare}

/-- The order of the entries is the order of their keys. -/
abbrev EntryLess (compare : Key → Key → Bool) (a b : Key × T) : Prop :=
  compareValueType compare a b = true

omit [Inhabited T] in
theorem equalTo_iff (a b : Key × T) :
    equalTo compare a b = true ↔ Equivalent compare a.1 b.1 := by
  simp [equalTo, IncompRel]

variable [IsStrictWeakOrder Key fun a b => compare a b = true]

instance : IsStrictWeakOrder (Key × T) (EntryLess compare) :=
  inferInstanceAs
    (IsStrictWeakOrder (Key × T)
      (Order.Preimage Prod.fst fun a b : Key => compare a b = true))

omit [Inhabited T] in
/-- At the lower bound of an entry the map holds the entry with its key, or the
test for equal keys fails. -/
theorem lowerBound_cases
    {map : VectorMap Key T}
    (hsorted : map.container.Pairwise (EntryLess compare)) (value : Key × T) :
    (∃ low entry high,
      map.container = low ++ entry :: high ∧
        lowerBound compare map value = low.length ∧
        Equivalent compare entry.1 value.1 ∧
        (∀ y ∈ low, EntryLess compare y value) ∧
        ∀ y ∈ high, EntryLess compare value y) ∨
      ∃ low high,
        map.container = low ++ high ∧
          lowerBound compare map value = low.length ∧
          (∀ y ∈ low, EntryLess compare y value) ∧
          ∀ y ∈ high, EntryLess compare value y := by
  have hlocated :
      Located (EntryLess compare) value map.container
        (lowerBound compare map value) :=
    located_lowerBound hsorted value
  generalize lowerBound compare map value = iter at hlocated ⊢
  generalize map.container = container at hlocated ⊢
  cases hlocated with
  | @found low high entry hlow hentry hhigh =>
      exact .inl ⟨low, entry, high, rfl, rfl, hentry, hlow, hhigh⟩
  | @absent low high hlow hhigh =>
      exact .inr ⟨low, high, rfl, rfl, hlow, hhigh⟩

omit [Inhabited T] [IsStrictWeakOrder Key fun a b => compare a b = true] in
/-- The first larger entry fails the test for equal keys. -/
theorem equalTo_of_above
    {value : Key × T} {high : List (Key × T)}
    (hhigh : ∀ y ∈ high, EntryLess compare value y)
    {low : List (Key × T)} {entry : Key × T}
    (hentry : (low ++ high)[low.length]? = some entry) :
    equalTo compare entry value = false := by
  rw [List.getElem?_append_right le_rfl] at hentry
  rw [Bool.eq_false_iff, Ne, equalTo_iff]
  intro hequivalent
  exact hequivalent.2 (hhigh entry (List.mem_of_getElem? hentry))

omit [Inhabited T] in
theorem emplace_spec
    {map : VectorMap Key T}
    (hsorted : map.container.Pairwise (EntryLess compare))
    (key : Key) (second : T) :
    ∃ entry : Key × T,
      entry.2 = second ∧ Equivalent compare entry.1 key ∧
        (emplace compare key second map).container.Pairwise
          (EntryLess compare) ∧
        ∀ y, y ∈ (emplace compare key second map).container ↔
          y = entry ∨ (y ∈ map.container ∧ ¬ Equivalent compare y.1 key) := by
  rcases lowerBound_cases hsorted (key, second) with
    ⟨low, entry, high, hmap, hiter, hentry, hlow, hhigh⟩ |
    ⟨low, high, hmap, hiter, hlow, hhigh⟩
  · have hnew :
        (emplace compare key second map).container =
          low ++ (entry.1, second) :: high := by
      have hequal : equalTo compare entry (key, second) = true :=
        (equalTo_iff _ _).mpr hentry
      simp [emplace, hiter, hmap, hequal]
    rw [hmap] at hsorted
    refine ⟨(entry.1, second), rfl, hentry, ?_, ?_⟩
    · rw [hnew]
      exact pairwise_insert hlow hhigh (pairwise_of_insert hsorted) hentry
    · intro y
      have hothers :
          y ∈ low ++ high ↔
            y ∈ low ++ entry :: high ∧ ¬ Equivalent compare y.1 key :=
        mem_others_iff hlow hhigh hentry y
      rw [hnew, hmap, ← hothers, List.perm_middle.mem_iff, List.mem_cons]
  · have hnew :
        (emplace compare key second map).container =
          low ++ (key, second) :: high := by
      have hinsert := insertIdx_at_length low high (key, second)
      unfold emplace
      simp only [hiter, hmap]
      split
      next entry hfound =>
        have hequal : equalTo compare entry (key, second) = false :=
          equalTo_of_above hhigh hfound
        simp [hequal, hinsert]
      next => exact hinsert
    have hirrefl := irrefl_of (fun a b => compare a b = true) key
    have hself : Equivalent compare key key := ⟨hirrefl, hirrefl⟩
    rw [hmap] at hsorted
    refine ⟨(key, second), rfl, hself, ?_, ?_⟩
    · rw [hnew]
      exact pairwise_insert hlow hhigh hsorted hself
    · intro y
      have hothers : y ∈ low ++ high → ¬ Equivalent compare y.1 key :=
        fun hy => not_incompRel_of_mem hlow hhigh hy
      rw [hnew, hmap, List.perm_middle.mem_iff, List.mem_cons,
        and_iff_left_of_imp hothers]

theorem find_spec
    {map : VectorMap Key T}
    (hsorted : map.container.Pairwise (EntryLess compare)) (key : Key) :
    (∃ low entry high,
      map.container = low ++ entry :: high ∧
        find compare key map = low.length ∧
        Equivalent compare entry.1 key ∧
        ∀ y, y ∈ low ++ high ↔
          y ∈ map.container ∧ ¬ Equivalent compare y.1 key) ∨
      (find compare key map = map.container.length ∧
        ∀ y ∈ map.container, ¬ Equivalent compare y.1 key) := by
  rcases lowerBound_cases hsorted (key, default) with
    ⟨low, entry, high, hmap, hiter, hentry, hlow, hhigh⟩ |
    ⟨low, high, hmap, hiter, hlow, hhigh⟩
  · refine .inl ⟨low, entry, high, hmap, ?_, hentry, ?_⟩
    · have hequal : equalTo compare entry (key, default) = true :=
        (equalTo_iff _ _).mpr hentry
      simp [find, hiter, hmap, hequal]
    · intro y
      rw [hmap]
      exact mem_others_iff hlow hhigh hentry y
  · refine .inr ⟨?_, ?_⟩
    · unfold find
      simp only [hiter, hmap]
      split
      next entry hfound =>
        have hequal : equalTo compare entry (key, default) = false :=
          equalTo_of_above hhigh hfound
        simp [hequal]
      next => rfl
    · intro y hy
      rw [hmap] at hy
      exact not_incompRel_of_mem hlow hhigh hy

theorem erase_spec
    {map : VectorMap Key T}
    (hsorted : map.container.Pairwise (EntryLess compare)) (key : Key) :
    (erase compare key map).container.Pairwise (EntryLess compare) ∧
      ∀ y, y ∈ (erase compare key map).container ↔
        y ∈ map.container ∧ ¬ Equivalent compare y.1 key := by
  rcases find_spec hsorted key with
    ⟨low, entry, high, hmap, hiter, hentry, hothers⟩ | ⟨hiter, hothers⟩
  · have hnew : (erase compare key map).container = low ++ high := by
      have hequal : equalTo compare entry (key, default) = true :=
        (equalTo_iff _ _).mpr hentry
      simp [erase, hiter, hmap, hequal, List.eraseIdx_append_of_length_le]
    rw [hmap] at hsorted
    rw [hnew]
    exact ⟨pairwise_of_insert hsorted, hothers⟩
  · have hnew : erase compare key map = map := by
      simp [erase, hiter]
    rw [hnew]
    refine ⟨hsorted, ?_⟩
    intro y
    exact ⟨fun hy => ⟨hy, hothers y hy⟩, fun hy => hy.1⟩

end Operations

/-! ## The vector refines a function on keys -/

/-- The entries are sorted, and they are the values of the function. -/
structure Refines (values : Key → Option T) (map : VectorMap Key T) : Prop where
  increasing : map.container.Pairwise (EntryLess compare)
  value_iff :
    ∀ k v, values k = some v ↔
      ∃ entry ∈ map.container, entry.2 = v ∧ Equivalent compare entry.1 k

namespace Refines

variable {compare} [IsStrictWeakOrder Key fun a b => compare a b = true]
variable {values : Key → Option T} {map : VectorMap Key T}

/-- Equivalent keys are equivalent to the same keys. -/
theorem equivalent_iff
    {a b : Key} (hab : Equivalent compare a b) (k : Key) :
    Equivalent compare a k ↔ Equivalent compare b k :=
  ⟨fun hak => incompRel_trans hab.symm hak, fun hbk => incompRel_trans hab hbk⟩

omit [Inhabited T] in
theorem emplace
    (hrefines : Refines compare values map) (key : Key) (second : T) :
    Refines compare
      (fun k => if Equivalent compare key k then some second else values k)
      (map.emplace compare key second) := by
  rcases emplace_spec hrefines.increasing key second with
    ⟨entry, hsecond, hentry, hsorted, hmem⟩
  constructor
  · exact hsorted
  · intro k v
    by_cases hk : Equivalent compare key k
    · simp only [hk, if_true, Option.some.injEq]
      constructor
      · rintro rfl
        exact ⟨entry, (hmem entry).mpr (.inl rfl), hsecond,
          incompRel_trans hentry hk⟩
      · rintro ⟨other, hother, rfl, hequivalent⟩
        rcases (hmem other).mp hother with rfl | ⟨_, hdistinct⟩
        · exact hsecond.symm
        · exact (hdistinct (incompRel_trans hequivalent hk.symm)).elim
    · simp only [hk, if_false, hrefines.value_iff]
      constructor
      · rintro ⟨other, hother, hv, hequivalent⟩
        refine ⟨other, (hmem other).mpr (.inr ⟨hother, ?_⟩), hv, hequivalent⟩
        intro hsame
        exact hk ((equivalent_iff hsame k).mp hequivalent)
      · rintro ⟨other, hother, hv, hequivalent⟩
        rcases (hmem other).mp hother with rfl | ⟨hold, _⟩
        · exact (hk ((equivalent_iff hentry k).mp hequivalent)).elim
        · exact ⟨other, hold, hv, hequivalent⟩

theorem erase
    (hrefines : Refines compare values map) (key : Key) :
    Refines compare
      (fun k => if Equivalent compare key k then none else values k)
      (map.erase compare key) := by
  rcases erase_spec hrefines.increasing key with ⟨hsorted, hmem⟩
  constructor
  · exact hsorted
  · intro k v
    by_cases hk : Equivalent compare key k
    · simp only [hk, if_true, reduceCtorEq, false_iff]
      rintro ⟨other, hother, _, hequivalent⟩
      exact ((hmem other).mp hother).2
        (incompRel_trans hequivalent hk.symm)
    · simp only [hk, if_false, hrefines.value_iff]
      constructor
      · rintro ⟨other, hother, hv, hequivalent⟩
        refine ⟨other, (hmem other).mpr ⟨hother, ?_⟩, hv, hequivalent⟩
        intro hsame
        exact hk ((equivalent_iff hsame k).mp hequivalent)
      · rintro ⟨other, hother, hv, hequivalent⟩
        exact ⟨other, ((hmem other).mp hother).1, hv, hequivalent⟩

theorem step
    (hrefines : Refines compare values map) {call : MapCall Key T}
    {next : VectorMap Key T} (hstep : map.step compare call = some next) :
    Refines compare (fun k => remember compare k (values k) call) next := by
  cases call with
  | emplace key second =>
      simp only [VectorMap.step, Option.some.injEq] at hstep
      subst next
      exact hrefines.emplace key second
  | erase key =>
      simp only [VectorMap.step, Option.some.injEq] at hstep
      subst next
      exact hrefines.erase key
  | find key =>
      simp only [VectorMap.step, Option.some.injEq] at hstep
      subst next
      exact hrefines
  | subscript key =>
      rcases Option.map_eq_some_iff.mp hstep with ⟨_, _, rfl⟩
      exact hrefines
  | clear =>
      simp only [VectorMap.step, Option.some.injEq] at hstep
      subst next
      exact ⟨List.Pairwise.nil, by simp [remember, clear]⟩

theorem run
    (hrefines : Refines compare values map) {calls : List (MapCall Key T)}
    {final : VectorMap Key T}
    (hrun : run (VectorMap.step compare) map calls = some final) :
    Refines compare
      (fun k => calls.foldl (remember compare k) (values k)) final := by
  induction calls generalizing map values with
  | nil =>
      simp only [Execution.run, Option.some.injEq] at hrun
      subst final
      exact hrefines
  | cons call calls ih =>
      rcases (run_cons_eq_some_iff _).mp hrun with ⟨next, hstep, hrest⟩
      exact ih (hrefines.step hstep) hrest

omit [Inhabited T] [IsStrictWeakOrder Key fun a b => compare a b = true] in
theorem new : Refines compare (fun _ => none) (new : VectorMap Key T) :=
  ⟨List.Pairwise.nil, by simp [VectorMap.new]⟩

theorem find_some
    (hrefines : Refines compare values map) {k : Key} {v : T}
    (hvalue : values k = some v) :
    ∃ key, map.container[find compare k map]? = some (key, v) ∧
      Equivalent compare key k := by
  rcases (hrefines.value_iff k v).mp hvalue with ⟨entry, hentry, rfl, hk⟩
  rcases find_spec hrefines.increasing k with
    ⟨low, found, high, hmap, hiter, hfound, hothers⟩ | ⟨_, hothers⟩
  · -- only the entry at the position has an equivalent key
    have heq : entry = found := by
      by_contra hne
      rw [hmap] at hentry
      have hrest : entry ∈ low ++ high := by simpa [hne] using hentry
      exact ((hothers entry).mp hrest).2 hk
    subst heq
    exact ⟨entry.1, by simp [hiter, hmap], hk⟩
  · exact (hothers entry hentry hk).elim

theorem find_none
    (hrefines : Refines compare values map) {k : Key}
    (hvalue : values k = none) : find compare k map = map.size := by
  rcases find_spec hrefines.increasing k with
    ⟨low, entry, high, hmap, _, hentry, _⟩ | ⟨hiter, _⟩
  · have hsome : values k = some entry.2 :=
      (hrefines.value_iff k entry.2).mpr
        ⟨entry, by simp [hmap], rfl, hentry⟩
    simp [hvalue] at hsome
  · exact hiter

theorem subscript_eq
    (hrefines : Refines compare values map) (k : Key) :
    subscript compare k map = values k := by
  cases hvalue : values k with
  | none =>
      have hend := hrefines.find_none hvalue
      simp [subscript, findConst, hend, size]
  | some v =>
      rcases hrefines.find_some hvalue with ⟨key, hentry, _⟩
      simp [subscript, findConst, hentry]

end Refines

omit [Inhabited T] in
/-- A call about one key leaves the values of the other keys alone. -/
theorem remember_of_not_equivalent
    {call : MapCall Key T} {key k : Key} (hkey : call.key = some key)
    (hother : ¬ Equivalent compare key k) (old : Option T) :
    remember compare k old call = old := by
  cases call with
  | emplace key' second =>
      simp only [MapCall.key, Option.some.injEq] at hkey
      subst key'
      simp [remember, hother]
  | erase key' =>
      simp only [MapCall.key, Option.some.injEq] at hkey
      subst key'
      simp [remember, hother]
  | find key' => rfl
  | subscript key' => rfl
  | clear => simp [MapCall.key] at hkey

theorem vectorMap_isFiniteMap
    [IsStrictWeakOrder Key fun a b => compare a b = true]
    {calls : List (MapCall Key T)} {map : VectorMap Key T}
    (hrun : run (step compare) new calls = some map) :
    IsFiniteMap compare calls map := by
  have hrefines : Refines compare (lastValue compare calls) map :=
    Refines.new.run hrun
  have hlive : LiveKeys compare calls (map.container.map Prod.fst) := by
    constructor
    · rw [List.pairwise_map]
      exact hrefines.increasing.imp fun hless hequivalent =>
        hequivalent.1 hless
    · intro k
      simp only [Option.isSome_iff_exists, hrefines.value_iff, List.mem_map]
      constructor
      · rintro ⟨v, entry, hentry, _, hk⟩
        exact ⟨entry.1, ⟨entry, hentry, rfl⟩, hk⟩
      · rintro ⟨_, ⟨entry, hentry, rfl⟩, hk⟩
        exact ⟨entry.2, entry, hentry, rfl, hk⟩
  constructor
  · exact hrefines.increasing
  · exact hlive
  · intro keys hkeys
    have hlength := length_eq_of_same_classes hlive.distinct hkeys.distinct
      (fun k => (hlive.live_iff k).symm.trans (hkeys.live_iff k))
    simpa [size] using hlength
  · intro k v hvalue
    rcases hrefines.find_some hvalue with ⟨key, hentry, hk⟩
    exact ⟨key, hentry, hentry, hk⟩
  · intro k hvalue
    have hend := hrefines.find_none hvalue
    exact ⟨hend, hend⟩
  · exact hrefines.subscript_eq
  · intro call key next hkey hstep k hother
    rw [(hrefines.step hstep).subscript_eq, hrefines.subscript_eq,
      remember_of_not_equivalent compare hkey hother]

/-- Numbers compared by their halves. -/
def lessHalf (a b : ℕ) : Bool := a / 2 < b / 2

instance : IsStrictWeakOrder ℕ fun a b => lessHalf a b = true where
  irrefl := by simp [lessHalf]
  trans := by
    simp only [lessHalf, decide_eq_true_eq]
    omega
  incomp_trans := by
    simp only [lessHalf, decide_eq_true_eq]
    omega

/-- The value of 1 is replaced under the equivalent key 0, and 5 is erased
under the equivalent key 4. -/
theorem vectorMap_isFiniteMap_lessHalf :
    ∃ map : VectorMap ℕ ℤ,
      run (step lessHalf) new
          [.emplace 5 20, .emplace 1 10, .emplace 0 30, .subscript 1,
            .erase 4, .find 4] =
        some map ∧
      map.container = [(1, 30)] ∧
      IsFiniteMap lessHalf
        [.emplace 5 20, .emplace 1 10, .emplace 0 30, .subscript 1,
          .erase 4, .find 4] map := by
  refine ⟨_, rfl, by decide, ?_⟩
  exact vectorMap_isFiniteMap lessHalf rfl

end VectorMap

end GreenTurtle
