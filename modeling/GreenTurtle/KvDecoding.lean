import GreenTurtle.Iteration
import GreenTurtle.KvFraming
import Mathlib.Tactic

/-!
# The loop of the decoder

`IoTask::Decoding` once more, iteration by iteration.  Only a length field that
is larger than the number of readable bytes leaves the loop.  A negative length
field makes the allocation throw.  When less than a head is readable, the
iteration does nothing, and the loop has no other exit.
-/

namespace GreenTurtle.Kv

open FixedWidth
open Iteration
open LittleEndian
open Memory

/-- The receive buffer, and the blocks handed to `PushMessage` so far. -/
structure DecodingState where
  data : Buffer
  handed : List (List Byte)

inductive Exit where
  | returned
  | thrown
deriving DecidableEq

/-- One iteration of the loop `while (true)`. -/
def decodingBody (state : DecodingState) :
    DecodingState ⊕ (Exit × DecodingState) :=
  let size := readableSize state.data
  if (headSize : ℤ) ≤ size then
    let msgLen := messageLength state.data
    if msgLen ≤ size then
      if msgLen < 0 then .inr (.thrown, state)
      else
        .inl
          { data := state.data.hasRead msgLen.toNat
            handed :=
              state.handed ++
                [slice state.data.array state.data.read msgLen.toNat] }
    else .inr (.returned, state)
  else .inl state

/-- The length field in front of some bytes, as `Decoding` reads it. -/
def lengthField (bytes : List Byte) : ℤ :=
  toInt32 (decode (bytes.take 4))

theorem messageLength_eq
    {data : Buffer} (hlength : 4 ≤ data.readableLength) :
    messageLength data = lengthField data.readable := by
  rw [messageLength, take_readable hlength, lengthField]

section Bodies

variable {state : DecodingState}

theorem readableSize_eq
    {data : Buffer} (hint : data.readable.length < 2147483648) :
    readableSize data = data.readable.length := by
  rw [data.length_readable] at hint ⊢
  exact toInt32_of_bounds (by omega) (by omega)

theorem messageLength_of_head
    {data : Buffer} (hhead : headSize ≤ data.readable.length) :
    messageLength data = lengthField data.readable := by
  rw [data.length_readable] at hhead
  unfold headSize at hhead
  exact messageLength_eq (by omega)

theorem decodingBody_of_short
    (hshort : readableSize state.data < headSize) :
    decodingBody state = .inl state := by
  unfold decodingBody
  rw [if_neg (not_le.mpr hshort)]

theorem decodingBody_of_large
    (hsize : headSize ≤ readableSize state.data)
    (hlarge : readableSize state.data < messageLength state.data) :
    decodingBody state = .inr (.returned, state) := by
  unfold decodingBody
  rw [if_pos hsize]
  dsimp only
  rw [if_neg (not_le.mpr hlarge)]

theorem decodingBody_of_negative
    (hsize : headSize ≤ readableSize state.data)
    (hneg : messageLength state.data < 0) :
    decodingBody state = .inr (.thrown, state) := by
  unfold decodingBody
  rw [if_pos hsize]
  dsimp only
  rw [if_pos (by omega), if_pos hneg]

theorem decodingBody_of_block
    (hsize : headSize ≤ readableSize state.data) {count : ℕ}
    (hfield : messageLength state.data = count)
    (hcount : count ≤ readableSize state.data) :
    decodingBody state =
      .inl
        { data := state.data.hasRead count
          handed :=
            state.handed ++
              [slice state.data.array state.data.read count] } := by
  unfold decodingBody
  rw [if_pos hsize, hfield]
  dsimp only
  rw [if_pos hcount, if_neg (by omega), Int.toNat_natCast]

theorem decodingBody_spins
    (hint : state.data.readable.length < 2147483648)
    (hshort : state.data.readable.length < headSize) :
    decodingBody state = .inl state := by
  apply decodingBody_of_short
  rw [readableSize_eq hint]
  omega

theorem decodingBody_returns
    (hint : state.data.readable.length < 2147483648)
    (hhead : headSize ≤ state.data.readable.length)
    (hfield :
      state.data.readable.length < lengthField state.data.readable) :
    decodingBody state = .inr (.returned, state) := by
  apply decodingBody_of_large
  · rw [readableSize_eq hint]
    omega
  · rwa [readableSize_eq hint, messageLength_of_head hhead]

theorem decodingBody_throws
    (hint : state.data.readable.length < 2147483648)
    (hhead : headSize ≤ state.data.readable.length)
    (hfield : lengthField state.data.readable < 0) :
    decodingBody state = .inr (.thrown, state) := by
  apply decodingBody_of_negative
  · rw [readableSize_eq hint]
    omega
  · rwa [messageLength_of_head hhead]

theorem decodingBody_hands
    (hint : state.data.readable.length < 2147483648)
    (hhead : headSize ≤ state.data.readable.length)
    {count : ℕ} (hfield : lengthField state.data.readable = count)
    (hcount : count ≤ state.data.readable.length) :
    decodingBody state =
      .inl
        { data := state.data.hasRead count
          handed := state.handed ++ [state.data.readable.take count] } := by
  have hslice :=
    @take_readable state.data count
      (by rwa [state.data.length_readable] at hcount)
  rw [← hslice]
  apply decodingBody_of_block
  · rw [readableSize_eq hint]
    omega
  · rw [messageLength_of_head hhead]
    exact hfield
  · rw [readableSize_eq hint]
    omega

end Bodies

/-! ## Which contents let the loop return -/

/-- Cutting the bytes at their length fields gives blocks that are not empty,
and then the rest. -/
inductive CutsTo : List Byte → List Byte → Prop where
  | nothing (bytes : List Byte) : CutsTo bytes bytes
  | block (bytes rest : List Byte) (count : ℕ)
      (hhead : headSize ≤ bytes.length)
      (hfield : lengthField bytes = count) (hpos : 0 < count)
      (hcount : count ≤ bytes.length)
      (hcuts : CutsTo (bytes.drop count) rest) : CutsTo bytes rest

/-- A head is there, and it promises more bytes than are there. -/
def Awaits (rest : List Byte) : Prop :=
  headSize ≤ rest.length ∧ rest.length < lengthField rest

def Negative (rest : List Byte) : Prop :=
  headSize ≤ rest.length ∧ lengthField rest < 0

/-- How the loop is left, by the bytes that it leaves unread. -/
def ExitsOn : Exit → List Byte → Prop
  | .returned => Awaits
  | .thrown => Negative

/-- A block of length zero is handed on again and again. -/
theorem not_ends_of_zero
    {state : DecodingState} {result : Exit × DecodingState}
    (hint : state.data.readable.length < 2147483648)
    (hhead : headSize ≤ state.data.readable.length)
    (hfield : lengthField state.data.readable = 0) :
    ¬ Ends decodingBody state result := by
  apply not_ends_of_invariant fun other => other.data = state.data
  · rintro ⟨_, handed⟩ rfl
    have hbody :=
      @decodingBody_hands ⟨state.data, handed⟩ hint hhead 0
        (hfield.trans Nat.cast_zero.symm) (Nat.zero_le _)
    exact ⟨_, hbody, rfl⟩
  · rfl

/-- The rest after a block is shorter, and read from a well-formed buffer. -/
theorem hasRead_block
    {data : Buffer} (hformed : data.WellFormed) {count : ℕ}
    (hint : data.readable.length < 2147483648)
    (hcount : count ≤ data.readable.length) :
    (data.hasRead count).WellFormed ∧
      (data.hasRead count).readable = data.readable.drop count ∧
      (data.hasRead count).readable.length < 2147483648 := by
  rw [data.length_readable] at hcount
  obtain ⟨hread, hdrop⟩ := hformed.hasRead hcount
  refine ⟨hread, hdrop, ?_⟩
  rw [hdrop, List.length_drop]
  omega

theorem cutsTo_of_ends
    {state left : DecodingState} {exit : Exit}
    (hformed : state.data.WellFormed)
    (hint : state.data.readable.length < 2147483648)
    (hends : Ends decodingBody state (exit, left)) :
    CutsTo state.data.readable left.data.readable ∧
      ExitsOn exit left.data.readable := by
  obtain ⟨fuel, hfuel⟩ := hends
  induction fuel generalizing state with
  | zero => simp [iterate] at hfuel
  | succ fuel ih =>
      have hends : Ends decodingBody state (exit, left) := ⟨_, hfuel⟩
      by_cases hhead : headSize ≤ state.data.readable.length
      · rcases lt_trichotomy (lengthField state.data.readable) 0 with
          hneg | hzero | hpos
        · rw [ends_of_left (decodingBody_throws hint hhead hneg)] at hends
          obtain ⟨rfl, rfl⟩ := Prod.mk.inj hends
          exact ⟨.nothing _, hhead, hneg⟩
        · exact absurd hends (not_ends_of_zero hint hhead hzero)
        · obtain ⟨count, hfield⟩ := Int.eq_ofNat_of_zero_le hpos.le
          by_cases hcount : count ≤ state.data.readable.length
          · have hbody := decodingBody_hands hint hhead hfield hcount
            rw [iterate_of_next hbody] at hfuel
            obtain ⟨hread, hdrop, hless⟩ := hasRead_block hformed hint hcount
            obtain ⟨hcuts, hexit⟩ := ih hread hless hfuel
            rw [hdrop] at hcuts
            exact
              ⟨.block _ _ count hhead hfield (by omega) hcount hcuts, hexit⟩
          · have hlarge :
                state.data.readable.length <
                  lengthField state.data.readable := by
              omega
            rw [ends_of_left (decodingBody_returns hint hhead hlarge)]
              at hends
            obtain ⟨rfl, rfl⟩ := Prod.mk.inj hends
            exact ⟨.nothing _, hhead, hlarge⟩
      · have hbody := decodingBody_spins hint (not_le.mp hhead)
        exact absurd hends (not_ends_of_fixed hbody)

theorem ends_of_cutsTo
    {bytes rest : List Byte} (hcuts : CutsTo bytes rest)
    {exit : Exit} (hexit : ExitsOn exit rest) {state : DecodingState}
    (hformed : state.data.WellFormed)
    (hint : state.data.readable.length < 2147483648)
    (hbytes : state.data.readable = bytes) :
    ∃ left, Ends decodingBody state (exit, left) := by
  induction hcuts generalizing state with
  | nothing bytes =>
      subst hbytes
      refine ⟨state, ?_⟩
      cases exit with
      | returned =>
          rw [ends_of_left (decodingBody_returns hint hexit.1 hexit.2)]
      | thrown =>
          rw [ends_of_left (decodingBody_throws hint hexit.1 hexit.2)]
  | block bytes rest count hhead hfield hpos hcount _ ih =>
      subst hbytes
      obtain ⟨hread, hdrop, hless⟩ := hasRead_block hformed hint hcount
      obtain ⟨left, hleft⟩ :=
        @ih hexit ⟨state.data.hasRead count, _⟩ hread hless hdrop
      refine ⟨left, ?_⟩
      rw [ends_of_next (decodingBody_hands hint hhead hfield hcount)]
      exact hleft

/-- The loop is left in the given way exactly when the content, cut at its
length fields, ends in the rest that leads to it. -/
theorem ends_iff_cutsTo
    {data : Buffer} (hformed : data.WellFormed)
    (hint : data.readable.length < 2147483648) (exit : Exit) :
    (∃ left, Ends decodingBody ⟨data, []⟩ (exit, left)) ↔
      ∃ rest, CutsTo data.readable rest ∧ ExitsOn exit rest := by
  constructor
  · rintro ⟨left, hends⟩
    exact ⟨_, cutsTo_of_ends hformed hint hends⟩
  · rintro ⟨rest, hcuts, hexit⟩
    exact ends_of_cutsTo hcuts hexit hformed hint rfl

/-- A buffer that has been filled once. -/
def filled (bytes : List Byte) : Buffer where
  array := store (fun _ => 0) 0 bytes
  write := bytes.length
  read := 0
  size := bytes.length

theorem filled_wellFormed
    {bytes : List Byte} (hlength : bytes.length < 18446744073709551616) :
    (filled bytes).WellFormed := by
  constructor
  · exact Nat.zero_le _
  · exact le_rfl
  · exact hlength

theorem readable_filled
    {bytes : List Byte} (hlength : bytes.length < 18446744073709551616) :
    (filled bytes).readable = bytes := by
  unfold Buffer.readable
  rw [(filled_wellFormed hlength).readableLength]
  exact slice_store _ _ bytes

/-- A request behind which the head of a longer one waits. -/
def requestAndHead : List Byte :=
  noopFrame ++ [13, 0, 0, 0, 128, 2, 5, 0, 7, 0, 0, 0]

/-- A call that returns has pushed the blocks that it has handed on. -/
theorem decodingLoop_of_ends
    {poolSize : ℕ} (hpool : 0 < poolSize) {state left : DecodingState}
    (hends : Ends decodingBody state (.returned, left)) :
    ∃ rounds,
      decodingLoop poolSize rounds state.data
          (state.handed.map (route poolSize)) =
        some (left.data, left.handed.map (route poolSize)) := by
  obtain ⟨fuel, hfuel⟩ := hends
  induction fuel generalizing state with
  | zero => simp [iterate] at hfuel
  | succ fuel ih =>
      cases hbody : decodingBody state with
      | inl next =>
          rw [iterate_of_next hbody] at hfuel
          obtain ⟨rounds, hrounds⟩ := ih hfuel
          simp only [decodingBody] at hbody
          split at hbody
          next hsize =>
            split at hbody
            next hle =>
              split at hbody
              next => cases hbody
              next hnonneg =>
                obtain rfl := Sum.inl.inj hbody
                refine ⟨rounds + 1, ?_⟩
                simp only [List.map_append, List.map_cons, List.map_nil]
                  at hrounds
                simp only [decodingLoop]
                rw [if_pos hsize, if_pos hle, if_neg (by omega), hrounds]
            next => cases hbody
          next =>
            obtain rfl := Sum.inl.inj hbody
            exact ⟨rounds, hrounds⟩
      | inr result =>
          have hresult : result = (.returned, left) := by
            have hleft := (ends_of_left hbody).mp ⟨_, hfuel⟩
            exact hleft.symm
          subst hresult
          simp only [decodingBody] at hbody
          split at hbody
          next hsize =>
            split at hbody
            next hle => split at hbody <;> cases hbody
            next hlarge =>
              obtain rfl := (Prod.mk.inj (Sum.inr.inj hbody)).2
              refine ⟨1, ?_⟩
              simp only [decodingLoop]
              rw [if_pos hsize, if_neg hlarge]
          next => cases hbody

/-! ## What an iteration may do to the buffer -/

/-- The state behind the iteration, also when it leaves the loop. -/
def afterBody (state : DecodingState) : DecodingState :=
  (decodingBody state).elim id Prod.snd

theorem afterBody_of_next
    {state next : DecodingState} (hbody : decodingBody state = .inl next) :
    afterBody state = next := by
  rw [afterBody, hbody, Sum.elim_inl, id]

theorem afterBody_of_left
    {state left : DecodingState} {exit : Exit}
    (hbody : decodingBody state = .inr (exit, left)) :
    afterBody state = left := by
  rw [afterBody, hbody, Sum.elim_inr]

/-- The positions stay in order and do not go back, and what is handed on comes
from the readable bytes and holds a head. -/
def Harmless (state : DecodingState) : Prop :=
  let next := afterBody state
  next.data.read ≤ next.data.write ∧ next.data.write ≤ next.data.size ∧
    state.data.read ≤ next.data.read ∧
    (next.handed = state.handed ∨
      ∃ block, next.handed = state.handed ++ [block] ∧
        block <+: state.data.readable ∧ headSize ≤ block.length)

/-- A length field that `Decoding` acts on is negative or covers the head. -/
def CoversHead (data : Buffer) : Prop :=
  headSize ≤ readableSize data → messageLength data ≤ readableSize data →
    messageLength data < 0 ∨ headSize ≤ messageLength data

/-- What an iteration does: nothing, or one block from the front. -/
theorem afterBody_cases (state : DecodingState) :
    (afterBody state = state ∧ CoversHead state.data) ∨
      ∃ count : ℕ,
        headSize ≤ readableSize state.data ∧
          count ≤ readableSize state.data ∧
          messageLength state.data = count ∧
          afterBody state =
            { data := state.data.hasRead count
              handed :=
                state.handed ++
                  [slice state.data.array state.data.read count] } := by
  unfold CoversHead
  by_cases hsize : (headSize : ℤ) ≤ readableSize state.data
  · by_cases hneg : messageLength state.data < 0
    · have hbody := decodingBody_of_negative hsize hneg
      exact .inl ⟨afterBody_of_left hbody, fun _ _ => .inl hneg⟩
    · obtain ⟨count, hfield⟩ := Int.eq_ofNat_of_zero_le (not_lt.mp hneg)
      by_cases hcount : (count : ℤ) ≤ readableSize state.data
      · have hbody := decodingBody_of_block hsize hfield hcount
        exact .inr ⟨count, hsize, hcount, hfield, afterBody_of_next hbody⟩
      · have hlarge :
            readableSize state.data < messageLength state.data := by
          rw [hfield]
          exact not_le.mp hcount
        have hbody := decodingBody_of_large hsize hlarge
        exact .inl ⟨afterBody_of_left hbody,
          fun _ hle => absurd hle (not_le.mpr hlarge)⟩
  · have hbody := decodingBody_of_short (not_le.mp hsize)
    exact .inl ⟨afterBody_of_next hbody,
      fun hother => absurd hother hsize⟩

theorem afterBody_wellFormed
    {state : DecodingState} (hformed : state.data.WellFormed) :
    (afterBody state).data.WellFormed ∧
      state.data.read ≤ (afterBody state).data.read := by
  rcases afterBody_cases state with ⟨hsame, -⟩ | ⟨count, -, hcount, -, hnext⟩
  · rw [hsame]
    exact ⟨hformed, le_rfl⟩
  · have hbound := hcount.trans (readableSize_le state.data)
    rw [hnext]
    exact
      ⟨(hformed.hasRead (by exact_mod_cast hbound)).1, Nat.le_add_right _ _⟩

theorem wellFormed_of_reaches
    {first state : DecodingState} (hformed : first.data.WellFormed)
    (hreached : Reaches decodingBody first state) :
    state.data.WellFormed := by
  refine
    @Reaches.preserves _ _ _ (fun state => state.data.WellFormed) ?_ _ _
      hreached hformed
  intro state next hstate hbody
  rw [← afterBody_of_next hbody]
  exact (afterBody_wellFormed hstate).1

/-- In front of every iteration, whatever the buffer holds: the iteration does
no harm exactly when the length field does not fall short of a head. -/
theorem decoding_harmless_iff
    {data : Buffer} (hformed : data.WellFormed) {state : DecodingState}
    (hreached : Reaches decodingBody ⟨data, []⟩ state) :
    Harmless state ↔ CoversHead state.data := by
  have hstate := wellFormed_of_reaches hformed hreached
  have hafter := afterBody_wellFormed hstate
  rcases afterBody_cases state with
    ⟨hsame, hcovers⟩ | ⟨count, hsize, hcount, hfield, hnext⟩
  · refine iff_of_true ?_ hcovers
    exact ⟨hafter.1.read_le, hafter.1.write_le, hafter.2,
      .inl (congrArg DecodingState.handed hsame)⟩
  · have hbound := hcount.trans (readableSize_le state.data)
    have hblock :
        slice state.data.array state.data.read count <+:
          state.data.readable := by
      rw [take_readable (by exact_mod_cast hbound)]
      exact List.take_prefix _ _
    constructor
    · rintro ⟨-, -, -, hkept | ⟨block, hhanded, -, hlength⟩⟩
      · rw [hnext] at hkept
        simp at hkept
      · intro _ _
        rw [hnext] at hhanded
        have hsame := List.append_cancel_left hhanded
        rw [List.cons.injEq] at hsame
        rw [← hsame.1, length_slice] at hlength
        omega
    · intro hcovers
      refine ⟨hafter.1.read_le, hafter.1.write_le, hafter.2, .inr ?_⟩
      rw [hnext]
      refine ⟨_, rfl, hblock, ?_⟩
      rw [length_slice]
      have hlarge := hcovers hsize (hfield ▸ hcount)
      omega

theorem decoding_harmless_request :
    (filled noopFrame).WellFormed ∧
      Reaches decodingBody ⟨filled noopFrame, []⟩ ⟨filled noopFrame, []⟩ ∧
      Harmless ⟨filled noopFrame, []⟩ := by
  have hformed : (filled noopFrame).WellFormed :=
    filled_wellFormed (by decide)
  refine ⟨hformed, .refl, ?_⟩
  apply (decoding_harmless_iff hformed .refl).mpr
  unfold CoversHead
  decide +kernel

/-- A length field of 5 in front of 12 bytes: the block that is handed on ends
in front of the opcode. -/
theorem decoding_hands_short_block :
    (filled [5, 0, 0, 0, 128, 2, 5, 0, 7, 0, 0, 0]).WellFormed ∧
      (afterBody
          ⟨filled [5, 0, 0, 0, 128, 2, 5, 0, 7, 0, 0, 0], []⟩).handed =
        [[5, 0, 0, 0, 128]] ∧
      ¬ Harmless ⟨filled [5, 0, 0, 0, 128, 2, 5, 0, 7, 0, 0, 0], []⟩ := by
  have hhanded :
      (afterBody
          ⟨filled [5, 0, 0, 0, 128, 2, 5, 0, 7, 0, 0, 0], []⟩).handed =
        [[5, 0, 0, 0, 128]] := by
    decide +kernel
  refine ⟨filled_wellFormed (by decide), hhanded, ?_⟩
  rintro ⟨-, -, -, hkept | ⟨block, hblock, -, hlength⟩⟩
  · rw [hhanded] at hkept
    cases hkept
  · rw [hhanded] at hblock
    obtain rfl := (List.cons.inj hblock).1
    revert hlength
    decide

end GreenTurtle.Kv
