import GreenTurtle.FormatModel
import Mathlib.Tactic

/-!
# When formatting is all or nothing

If all texts fit, `Format` writes their concatenation.  If they do not, it
should report an error; it does so exactly when the walk over the arguments
meets a number or character for which there is no room, or when it skips more
strings than it has written bytes, because each skipped string moves the cursor
back by one.
-/

namespace GreenTurtle.Formatting

open FixedWidth
open Memory

/-! ## What a single overload does -/

/-- The contract of a writer for a given text.  Room is an `int32_t`. -/
structure Writes
    (reportsLength : Bool) (text : List Byte) (writer : Writer) : Prop where
  fits :
    ∀ mem cursor (left : ℤ), text.length ≤ left → left < 2147483648 →
      (writer mem cursor left).1 = text.length ∧
        slice (writer mem cursor left).2 cursor text.length = text
  misfits :
    ∀ mem cursor (left : ℤ), 0 ≤ left → left < 2147483648 →
      left < text.length →
        (writer mem cursor left).1 =
          if reportsLength then (text.length : ℤ) else -1
  frame :
    ∀ mem cursor (left : ℤ) address, 0 ≤ left → left < 2147483648 →
      address < cursor →
        (writer mem cursor left).2 address = mem address

theorem writes_char (c : Byte) : Writes true [c] (writeChar c) := by
  constructor
  · intro mem cursor left hle _
    have hroom : 1 ≤ left := by simpa using hle
    simp only [writeChar, hroom, if_true]
    exact ⟨rfl, slice_store mem cursor [c]⟩
  · intro mem cursor left _ _ hlt
    have hfull : ¬ 1 ≤ left := by simpa using hlt
    simp [writeChar, hfull]
  · intro mem cursor left address _ _ hbefore
    unfold writeChar
    split <;> exact store_of_lt mem _ hbefore

theorem writes_number (digits : List Byte) :
    Writes true digits (writeNumber digits) := by
  constructor
  · intro mem cursor left hle _
    simp only [writeNumber, hle, if_true]
    exact ⟨trivial, slice_store mem cursor digits⟩
  · intro mem cursor left _ _ hlt
    simp [writeNumber, not_le.mpr hlt]
  · intro mem cursor left address _ _ hbefore
    unfold writeNumber
    split <;> exact store_of_lt mem _ hbefore

theorem writes_signedChar (c : Byte) :
    Writes false [c] (writeSignedChar c) := by
  constructor
  · intro mem cursor left hle _
    have hroom : ¬ left ≤ 0 := by
      simp only [List.length_singleton, Nat.cast_one] at hle
      omega
    simp only [writeSignedChar, hroom, if_false]
    exact ⟨rfl, slice_store mem cursor [c]⟩
  · intro mem cursor left _ _ hlt
    have hfull : left ≤ 0 := by
      simp only [List.length_singleton, Nat.cast_one] at hlt
      omega
    simp [writeSignedChar, hfull]
  · intro mem cursor left address _ _ hbefore
    unfold writeSignedChar
    split
    next => rfl
    next => exact store_of_lt mem _ hbefore

theorem writes_slice (text : List Byte) :
    Writes false text (writeSlice text) := by
  constructor
  · intro mem cursor left hle hint
    have hroom : toUInt64 left = left.toNat :=
      toUInt64_of_bounds (by omega) (by omega)
    have hlength : toInt32 text.length = text.length :=
      toInt32_of_bounds (by omega) (by omega)
    have hfits : ¬ text.length > left.toNat := by omega
    simp only [writeSlice, hroom, hfits, if_false, hlength]
    exact ⟨trivial, slice_store mem cursor text⟩
  · intro mem cursor left hnonneg hint hlt
    have hroom : toUInt64 left = left.toNat :=
      toUInt64_of_bounds (by omega) (by omega)
    have hmisfits : text.length > left.toNat := by omega
    simp [writeSlice, hroom, hmisfits]
  · intro mem cursor left address _ _ hbefore
    unfold writeSlice
    split
    next => rfl
    next => exact store_of_lt mem _ hbefore

theorem writes_hex (bytes value : ℕ) :
    Writes false (hexText bytes value) (writeHex bytes value) := by
  constructor
  · intro mem cursor left hle _
    have hfits : ¬ left < (hexText bytes value).length := by omega
    simp only [writeHex, hfits, if_false]
    exact ⟨trivial, slice_store mem cursor _⟩
  · intro mem cursor left _ _ hlt
    simp [writeHex, hlt]
  · intro mem cursor left address _ _ hbefore
    unfold writeHex
    dsimp only
    split
    next => rfl
    next => exact store_of_lt mem _ hbefore

/-! ## Aligned values -/

theorem length_upperBytes (text : List Byte) :
    (upperBytes text).length = text.length := by
  induction text using upperBytes.induct with
  | case1 b0 b1 b2 b3 rest ih =>
      simp only [upperBytes, List.length_append, ih, bytesOfWord,
        List.length_cons, List.length_nil]
      omega
  | case2 rest hshort =>
      rw [upperBytes]
      · exact List.length_map _
      · exact hshort

theorem length_raiseText (flags : UInt8) (text : List Byte) :
    (raiseText flags text).length = text.length := by
  unfold raiseText
  split
  next => exact length_upperBytes text
  next => rfl

theorem length_padText
    (flags : UInt8) (width : ℕ) (pad : Byte) (text : List Byte) :
    (padText flags width pad text).length = max text.length width := by
  unfold padText
  dsimp only
  split
  next =>
    simp only [List.length_append, List.length_replicate]
    omega
  next =>
    split
    next =>
      simp only [List.length_append, List.length_replicate]
      omega
    next =>
      simp only [List.length_append, List.length_replicate]
      omega

theorem slice_toUpper
    {mem : ℤ → Byte} {buffer : ℤ} {text : List Byte}
    (htext : slice mem buffer text.length = text) :
    slice (toUpper mem buffer text.length) buffer text.length =
      upperBytes text := by
  have hstored :=
    slice_store mem buffer (upperBytes text ++ [0])
  have hpart := congrArg (List.take text.length) hstored
  rw [take_slice _ _ (by simp [length_upperBytes]),
    List.take_append_of_le_length (length_upperBytes text).ge,
    List.take_of_length_le (length_upperBytes text).le] at hpart
  unfold toUpper
  rw [htext]
  exact hpart

/-- Moving a text back and filling the gap puts the padding in front of it. -/
theorem slice_shift
    {mem : ℤ → Byte} {buffer : ℤ} {text : List Byte}
    (htext : slice mem buffer text.length = text) (pad : Byte)
    (space : ℕ) :
    slice
        (memset (memmove mem (buffer + space) buffer text.length) buffer pad
          space)
        buffer (space + text.length) =
      List.replicate space pad ++ text := by
  unfold memset memmove
  rw [htext, slice_add]
  congr 1
  · have hpad :=
      slice_store (store mem (buffer + space) text) buffer
        (List.replicate space pad)
    rwa [List.length_replicate] at hpad
  · rw [slice_store_after _ _ (by simp)]
    exact slice_store mem _ text

theorem align_center
    {flags : UInt8} (haligned : flags &&& kAlignMask ≠ 0)
    (hnotLeft : flags &&& kAlignMask ≠ kAlignLeft)
    (hnotRight : flags &&& kAlignMask ≠ kAlignRight) :
    flags &&& kAlignMask = kAlignCenter := by
  have hle : flags &&& kAlignMask ≤ kAlignMask := UInt8.and_le_right
  unfold kAlignLeft kAlignRight kAlignCenter kAlignMask at *
  grind

theorem slice_padAligned
    {flags : UInt8} (haligned : flags &&& kAlignMask ≠ 0)
    {mem : ℤ → Byte} {buffer : ℤ} {text : List Byte}
    (htext : slice mem buffer text.length = text) (pad : Byte)
    (width : ℕ) :
    slice
        (padAligned flags pad buffer text.length (width - text.length) mem)
        buffer (max text.length width) =
      padText flags width pad text := by
  unfold padAligned padText
  dsimp only
  by_cases hspace : 0 < width - text.length
  · rw [if_pos hspace]
    have hmax :
        max text.length width = width - text.length + text.length := by
      omega
    split
    next =>
      rw [hmax, Nat.add_comm]
      have happended :=
        slice_store_append mem buffer text.length
          (List.replicate (width - text.length) pad)
      rwa [List.length_replicate, htext] at happended
    next hnotLeft =>
      split
      next =>
        rw [hmax]
        exact slice_shift htext pad _
      next hnotRight =>
        rw [if_pos (align_center haligned hnotLeft hnotRight)]
        generalize hgap : width - text.length = space at *
        have hlength :
            max text.length width =
              space / 2 + text.length + (space - space / 2) := by
          omega
        have hplace :
            buffer + text.length + (space / 2 : ℕ) =
              buffer + (space / 2 + text.length : ℕ) := by
          push_cast
          ring
        have happended :=
          slice_store_append
            (memset (memmove mem (buffer + (space / 2 : ℕ)) buffer
              text.length) buffer pad (space / 2))
            buffer (space / 2 + text.length)
            (List.replicate (space - space / 2) pad)
        rw [List.length_replicate, slice_shift htext] at happended
        rw [hlength, hplace]
        exact happended
  · have hzero : width - text.length = 0 := by omega
    have hmax : max text.length width = text.length := by omega
    rw [if_neg hspace, hzero, hmax, htext]
    simp

theorem padAligned_frame
    (flags : UInt8) (pad : Byte) {buffer address : ℤ} (length space : ℕ)
    (mem : ℤ → Byte) (hbefore : address < buffer) :
    padAligned flags pad buffer length space mem address = mem address := by
  unfold padAligned memset memmove
  split
  next =>
    split
    next => exact store_of_lt mem _ (by omega)
    next =>
      split
      next =>
        rw [store_of_lt _ _ hbefore, store_of_lt _ _ (by omega)]
      next =>
        split
        next =>
          rw [store_of_lt _ _ (by omega), store_of_lt _ _ hbefore,
            store_of_lt _ _ (by omega)]
        next => rfl
  next => rfl

theorem length_alignedText
    (flags : UInt8) (width : UInt8) (pad : Byte) (text : List Byte) :
    (padText flags width.toNat pad (raiseText flags text)).length =
      max text.length width.toNat := by
  rw [length_padText, length_raiseText]

theorem Writes.aligned_fits
    {reportsLength : Bool} {text : List Byte} {writer : Writer}
    (hwriter : Writes reportsLength text writer) {width : UInt8}
    {pad : Byte} {flags : UInt8} (haligned : flags &&& kAlignMask ≠ 0)
    (mem : ℤ → Byte) (cursor : ℤ) {left : ℤ}
    (hle : (max text.length width.toNat : ℕ) ≤ left)
    (hint : left < 2147483648) :
    (writeAligned width pad flags writer mem cursor left).1 =
        (max text.length width.toNat : ℕ) ∧
      slice (writeAligned width pad flags writer mem cursor left).2 cursor
          (max text.length width.toNat) =
        padText flags width.toNat pad (raiseText flags text) := by
  rcases hwriter.fits mem cursor left (by omega) hint with
    ⟨hreported, hwritten⟩
  have hmax :
      (if (text.length : ℤ) < width.toNat then (width.toNat : ℤ)
        else text.length) = (max text.length width.toNat : ℕ) := by
    split <;> omega
  have hspace :
      ((max text.length width.toNat : ℕ) - (text.length : ℤ)).toNat =
        width.toNat - (raiseText flags text).length := by
    rw [length_raiseText]
    omega
  have hraised :
      slice
          (if flags &&& kAlignUpper ≠ 0 then
            toUpper (writer mem cursor left).2 cursor text.length
          else (writer mem cursor left).2)
          cursor (raiseText flags text).length =
        raiseText flags text := by
    rw [length_raiseText]
    unfold raiseText
    split
    next => exact slice_toUpper hwritten
    next => exact hwritten
  have hpadded :=
    slice_padAligned haligned hraised pad width.toNat
  simp only [writeAligned, hreported, hmax]
  rw [if_neg (by omega)]
  refine ⟨rfl, ?_⟩
  dsimp only
  rw [slice_store_before _ _ le_rfl, hspace, Int.toNat_natCast]
  rw [length_raiseText] at hpadded ⊢
  exact hpadded

theorem Writes.aligned_misfits
    {reportsLength : Bool} {text : List Byte} {writer : Writer}
    (hwriter : Writes reportsLength text writer) (width : UInt8)
    (pad : Byte) (flags : UInt8) (mem : ℤ → Byte) (cursor : ℤ)
    {left : ℤ} (hnonneg : 0 ≤ left) (hint : left < 2147483648)
    (hlt : left < (max text.length width.toNat : ℕ)) :
    (writeAligned width pad flags writer mem cursor left).1 = -1 := by
  simp only [writeAligned]
  rw [if_pos]
  by_cases hfits : (text.length : ℤ) ≤ left
  · right
    rw [(hwriter.fits mem cursor left hfits hint).1]
    split <;> omega
  · rw [hwriter.misfits mem cursor left hnonneg hint (by omega)]
    split
    next =>
      right
      split <;> omega
    next =>
      left
      omega

theorem Writes.aligned_frame
    {reportsLength : Bool} {text : List Byte} {writer : Writer}
    (hwriter : Writes reportsLength text writer) (width : UInt8)
    (pad : Byte) (flags : UInt8) (mem : ℤ → Byte) {cursor left : ℤ}
    {address : ℤ} (hnonneg : 0 ≤ left) (hint : left < 2147483648)
    (hbefore : address < cursor) :
    (writeAligned width pad flags writer mem cursor left).2 address =
      mem address := by
  have hwritten :=
    hwriter.frame mem cursor left address hnonneg hint hbefore
  have hwide :
      0 ≤ (if (writer mem cursor left).1 < width.toNat then
        (width.toNat : ℤ) else (writer mem cursor left).1) := by
    split <;> omega
  unfold writeAligned
  dsimp only
  generalize (if (writer mem cursor left).1 < width.toNat then
    (width.toNat : ℤ) else (writer mem cursor left).1) = wide at hwide ⊢
  split
  next => exact hwritten
  next =>
    dsimp only
    rw [store_of_lt _ _ (by omega), padAligned_frame _ _ _ _ _ hbefore]
    split
    next =>
      unfold toUpper
      rw [store_of_lt _ _ hbefore]
      exact hwritten
    next => exact hwritten

/-- Whichever way the value reports that it does not fit, the aligned value
reports `-1`. -/
theorem writes_aligned
    {reportsLength : Bool} {text : List Byte} {writer : Writer}
    (hwriter : Writes reportsLength text writer) (width : UInt8)
    (pad : Byte) {flags : UInt8} (haligned : flags &&& kAlignMask ≠ 0) :
    Writes false (padText flags width.toNat pad (raiseText flags text))
      (writeAligned width pad flags writer) := by
  constructor
  · intro mem cursor left hle hint
    rw [length_alignedText] at hle ⊢
    exact hwriter.aligned_fits haligned mem cursor hle hint
  · intro mem cursor left hnonneg hint hlt
    rw [length_alignedText] at hlt
    simp only [Bool.false_eq_true, if_false]
    exact hwriter.aligned_misfits width pad flags mem cursor hnonneg hint
      hlt
  · intro mem cursor left address hnonneg hint hbefore
    exact hwriter.aligned_frame width pad flags mem hnonneg hint hbefore

/-! ## Every overload keeps the contract -/

theorem writes_toHex (value : FormatValue) :
    ∃ reportsLength, Writes reportsLength value.hex (toHex value) := by
  induction value with
  | char c => exact ⟨true, writes_char c⟩
  | signedChar c => exact ⟨false, writes_hex 1 c.toNat⟩
  | slice text => exact ⟨false, writes_slice text⟩
  | integer bytes value digits => exact ⟨false, writes_hex bytes value⟩
  | floating digits => exact ⟨true, writes_number digits⟩
  | align value width pad flags haligned ih =>
      rcases ih with ⟨reportsLength, hwriter⟩
      exact ⟨false, writes_aligned hwriter width pad haligned⟩

theorem writes_toString (value : FormatValue) :
    Writes value.reportsLength value.text (toString value) := by
  cases value with
  | char c => exact writes_char c
  | signedChar c => exact writes_signedChar c
  | slice text => exact writes_slice text
  | integer bytes value digits => exact writes_number digits
  | floating digits => exact writes_number digits
  | align value width pad flags haligned =>
      rcases writes_toHex value with ⟨reportsLength, hwriter⟩
      exact writes_aligned hwriter width pad haligned

/-! ## The recursion -/

/-- The concatenation of what the arguments write when there is room. -/
def texts (args : List FormatValue) : List Byte :=
  args.flatMap FormatValue.text

theorem length_texts_cons (v : FormatValue) (vn : List FormatValue) :
    (texts (v :: vn)).length = v.text.length + (texts vn).length := by
  simp [texts]

theorem formatFrom_fits
    (args : List FormatValue) (mem : ℤ → Byte) (buffer left sum : ℤ)
    (hfits : (texts args).length ≤ left) (hint : left < 2147483648)
    (hsum : 0 ≤ sum) (hlimit : sum + left < 2147483648) :
    ∃ final,
      formatFrom args mem buffer left sum =
          some (sum + (texts args).length, final) ∧
        slice final buffer (texts args).length = texts args ∧
          final (buffer + (texts args).length) = 0 ∧
            ∀ address < buffer, final address = mem address := by
  induction args generalizing mem buffer left sum with
  | nil =>
      refine ⟨store mem buffer [0], by simp [formatFrom, texts],
        by simp [texts], ?_, ?_⟩
      · simp [texts, store]
      · intro address hbefore
        exact store_of_lt mem _ hbefore
  | cons v vn ih =>
      rw [length_texts_cons] at hfits ⊢
      rcases (writes_toString v).fits mem buffer left (by omega) hint with
        ⟨hreported, hwritten⟩
      rcases ih (toString v mem buffer left).2 (buffer + v.text.length)
          (left - v.text.length) (sum + v.text.length) (by omega) (by omega)
          (by omega) (by omega) with
        ⟨final, hreturned, htext, hend, hframe⟩
      have hhead :
          slice final buffer v.text.length = v.text := by
        rw [← hwritten]
        simp only [length_slice]
        apply slice_congr
        intro address _ hlt
        exact hframe address hlt
      refine ⟨final, ?_, ?_, ?_, ?_⟩
      · simp only [formatFrom, hreported]
        rw [if_neg (by omega), if_neg (by omega), hreturned, Nat.cast_add,
          add_assoc]
      · rw [slice_add, hhead, htext]
        rfl
      · rw [Nat.cast_add, ← add_assoc]
        exact hend
      · intro address hbefore
        rw [hframe address (by omega)]
        exact (writes_toString v).frame mem buffer left address (by omega)
          hint hbefore

/-- The walk over the arguments ends with an error, `left` bytes being free out
of `limit`.  An argument that does not fit and does not report its length is
skipped, and one more byte counts as free. -/
def Rejected (limit : ℕ) : List FormatValue → ℤ → Prop
  | [], left => limit < left
  | v :: vn, left =>
      if v.text.length ≤ left then Rejected limit vn (left - v.text.length)
      else if v.reportsLength then True
      else left < 2147483647 ∧ Rejected limit vn (left + 1)

def decidableRejected (limit : ℕ) :
    (args : List FormatValue) → (left : ℤ) →
      Decidable (Rejected limit args left)
  | [], left => inferInstanceAs (Decidable ((limit : ℤ) < left))
  | v :: vn, left =>
      have := decidableRejected limit vn (left - v.text.length)
      have := decidableRejected limit vn (left + 1)
      by unfold Rejected; infer_instance

instance (limit : ℕ) (args : List FormatValue) (left : ℤ) :
    Decidable (Rejected limit args left) :=
  decidableRejected limit args left

theorem formatFrom_negative_iff
    {limit : ℕ} (hlimit : limit < 2147483648) (args : List FormatValue)
    (mem : ℤ → Byte) (buffer left : ℤ) (hnonneg : 0 ≤ left)
    (hint : left < 2147483648) :
    (∃ returned final,
      formatFrom args mem buffer left (limit - left) =
          some (returned, final) ∧ returned < 0) ↔
      Rejected limit args left := by
  induction args generalizing mem buffer left with
  | nil =>
      simp only [formatFrom, Rejected, Option.some.injEq, Prod.mk.injEq]
      constructor
      · rintro ⟨returned, final, ⟨hreturned, _⟩, hneg⟩
        omega
      · intro hless
        exact ⟨_, _, ⟨rfl, rfl⟩, by omega⟩
  | cons v vn ih =>
      unfold Rejected
      split
      next hfits =>
        rw [← ih (toString v mem buffer left).2 (buffer + v.text.length)
          (left - v.text.length) (by omega) (by omega)]
        have hreported := ((writes_toString v).fits mem buffer left hfits
          hint).1
        simp only [formatFrom, hreported]
        rw [if_neg (by omega), if_neg (by omega),
          show (limit : ℤ) - left + v.text.length =
            limit - (left - v.text.length) by ring]
      next hmisfits =>
        have hreported := (writes_toString v).misfits mem buffer left
          hnonneg hint (by omega)
        split
        next hreports =>
          rw [if_pos hreports] at hreported
          simp only [formatFrom, hreported]
          rw [if_pos (by omega)]
          simp
        next hskips =>
          rw [if_neg hskips] at hreported
          simp only [formatFrom, hreported]
          rw [if_neg (by omega)]
          by_cases hmore : left < 2147483647
          · rw [← ih (toString v mem buffer left).2 (buffer + -1)
              (left + 1) (by omega) (by omega)]
            rw [if_neg (by omega), sub_neg_eq_add,
              show (limit : ℤ) - left + -1 = limit - (left + 1) by ring]
            simp [hmore]
          · rw [if_pos (by omega)]
            simp [hmore]

/-! ## The result -/

/-- Success with every text in the buffer, or an error. -/
def AllOrNothing
    (mem : ℤ → Byte) (maxLength : ℕ) (args : List FormatValue) : Prop :=
  ∃ returned final,
    format mem maxLength args = some (returned, final) ∧
      if (texts args).length ≤ maxLength then
        returned = (texts args).length ∧
          slice final 0 (texts args).length = texts args ∧
            final (texts args).length = 0
      else returned < 0

theorem format_all_or_nothing_iff
    (mem : ℤ → Byte) (maxLength : ℕ) (hint : maxLength < 2147483648)
    (args : List FormatValue) :
    AllOrNothing mem maxLength args ↔
      (texts args).length ≤ maxLength ∨
        Rejected maxLength args maxLength := by
  have hnegative :=
    formatFrom_negative_iff hint args mem 0 maxLength (by omega) (by omega)
  rw [sub_self] at hnegative
  rw [← hnegative]
  unfold AllOrNothing format
  by_cases hfits : (texts args).length ≤ maxLength
  · rcases formatFrom_fits args mem 0 maxLength 0 (by omega) (by omega)
      le_rfl (by omega) with ⟨final, hreturned, htext, hend, _⟩
    rw [zero_add] at hreturned hend
    simp only [hfits, if_true, true_or, iff_true]
    exact ⟨_, final, hreturned, rfl, htext, hend⟩
  · simp [hfits]

theorem format_all_or_nothing_iff_string_then_char :
    AllOrNothing (fun _ => 0) 2 [.slice [97, 98], .char 99] :=
  (format_all_or_nothing_iff (fun _ => 0) 2 (by decide)
    [.slice [97, 98], .char 99]).mpr (Or.inr (by decide))

/-- A string of six bytes does not fit behind two bytes out of four, but the
call reports two bytes, and the second string is gone. -/
theorem format_not_all_or_nothing :
    (∃ final,
      format (fun _ => 0) 4
          [.slice [97, 98], .slice [99, 100, 101, 102, 103, 104],
            .slice [120]] =
          some (2, final) ∧
        slice final 0 3 = [97, 120, 0]) ∧
      ¬ AllOrNothing (fun _ => 0) 4
        [.slice [97, 98], .slice [99, 100, 101, 102, 103, 104],
          .slice [120]] := by
  constructor
  · exact ⟨_, rfl, rfl⟩
  · rintro ⟨returned, final, hreturned, hcontract⟩
    have htwo : returned = 2 := by
      have hsome := Option.some.inj hreturned
      exact (congrArg Prod.fst hsome).symm
    rw [if_neg (by decide), htwo] at hcontract
    omega

end GreenTurtle.Formatting
