import GreenTurtle.Num2aModel
import Mathlib.Tactic

/-!
# Text behind a pointer

The conversions of `num2a.h` write from left to right through a moving pointer.
What has been written so far is a text, and every store makes it longer.
-/

namespace GreenTurtle.Num2a

open Memory
open Formatting

/-- The text stands from `buffer` on, and the pointer has moved behind it. -/
structure Appends (buffer final : Cursor) (text : List Byte) : Prop where
  pos_eq : final.pos = buffer.pos + text.length
  slice_eq : slice final.array buffer.pos text.length = text
  frame :
    ∀ address < buffer.pos, final.array address = buffer.array address

theorem Appends.refl (buffer : Cursor) : Appends buffer buffer [] where
  pos_eq := by simp
  slice_eq := rfl
  frame := fun _ _ => rfl

theorem Appends.trans
    {buffer middle final : Cursor} {first second : List Byte}
    (hfirst : Appends buffer middle first)
    (hsecond : Appends middle final second) :
    Appends buffer final (first ++ second) where
  pos_eq := by
    rw [hsecond.pos_eq, hfirst.pos_eq, List.length_append]
    push_cast
    ring
  slice_eq := by
    have hkept :
        slice final.array buffer.pos first.length =
          slice middle.array buffer.pos first.length := by
      apply slice_congr
      intro address _ hlt
      exact hsecond.frame address (by rw [hfirst.pos_eq]; exact hlt)
    rw [List.length_append, slice_add, hkept, hfirst.slice_eq,
      ← hfirst.pos_eq, hsecond.slice_eq]
  frame := by
    intro address hbefore
    rw [hsecond.frame address (by rw [hfirst.pos_eq]; omega),
      hfirst.frame address hbefore]

theorem appends_store (buffer : Cursor) (data : List Byte) :
    Appends buffer
      { array := store buffer.array buffer.pos data
        pos := buffer.pos + data.length } data where
  pos_eq := rfl
  slice_eq := slice_store buffer.array buffer.pos data
  frame := fun _ hbefore => store_of_lt _ _ hbefore

theorem Appends.store
    {buffer : Cursor} {array : ℤ → Byte} {pos : ℤ} {text : List Byte}
    (happends : Appends buffer { array := array, pos := pos } text)
    (data : List Byte) :
    Appends buffer
      { array := Memory.store array pos data, pos := pos + data.length }
      (text ++ data) :=
  happends.trans (appends_store _ data)

/-- A gap in the text is made by moving its rest. -/
theorem Appends.insert
    {buffer : Cursor} {array : ℤ → Byte} {pos : ℤ}
    {front rest : List Byte}
    (happends :
      Appends buffer { array := array, pos := pos } (front ++ rest))
    (gap : List Byte) :
    Appends buffer
      { array :=
          Memory.store
            (memmove array (buffer.pos + front.length + gap.length)
              (buffer.pos + front.length) rest.length)
            (buffer.pos + front.length) gap
        pos := pos + gap.length }
      (front ++ (gap ++ rest)) := by
  have hslice := happends.slice_eq
  have hpos := happends.pos_eq
  dsimp only at hslice hpos
  rw [List.length_append] at hslice hpos
  rw [slice_add] at hslice
  rcases List.append_inj hslice (length_slice _ _ _) with ⟨hfront, hrest⟩
  unfold memmove
  rw [hrest]
  refine ⟨?_, ?_, ?_⟩
  · dsimp only
    rw [hpos, List.length_append, List.length_append]
    push_cast
    ring
  · rw [List.length_append, List.length_append]
    exact slice_insert gap hfront
  · intro address hbefore
    dsimp only
    rw [store_of_lt _ _ (by omega), store_of_lt _ _ (by omega)]
    exact happends.frame address hbefore

theorem appends_put (buffer : Cursor) (c : Byte) :
    Appends buffer (buffer.put c) [c] :=
  appends_store buffer [c]

theorem Appends.put
    {buffer middle : Cursor} {text : List Byte}
    (happends : Appends buffer middle text) (c : Byte) :
    Appends buffer (middle.put c) (text ++ [c]) :=
  happends.trans (appends_put middle c)

theorem Appends.putIf
    {buffer middle : Cursor} {text : List Byte}
    (happends : Appends buffer middle text) (p : Prop) [Decidable p]
    (c : Byte) :
    Appends buffer (if p then middle.put c else middle)
      (text ++ if p then [c] else []) := by
  split
  next => exact happends.put c
  next =>
    rw [List.append_nil]
    exact happends

theorem appends_block
    (buffer : Cursor) {data : List ℕ} {advance : ℕ}
    (hle : advance ≤ data.length) :
    Appends buffer (buffer.block data advance)
      ((data.take advance).map UInt8.ofNat) where
  pos_eq := by simp [Cursor.block, hle]
  slice_eq := by
    have hstored :=
      slice_store buffer.array buffer.pos (data.map UInt8.ofNat)
    rw [List.length_map, List.length_take, min_eq_left hle, Cursor.block,
      slice_store_before _ _ le_rfl,
      ← take_slice _ _ (by simpa using hle :
        advance ≤ (data.map UInt8.ofNat).length), hstored, List.map_take]
  frame := by
    intro address hbefore
    simp only [Cursor.block]
    rw [store_of_lt _ _ (by omega), store_of_lt _ _ hbefore]

end GreenTurtle.Num2a
