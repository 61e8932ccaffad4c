import GreenTurtle.FormatAllOrNothing
import GreenTurtle.FormatFootprint
import Mathlib.Tactic

/-!
# When `Format` stays inside its buffer

Each argument writes a stretch that begins at the cursor.  A text that fits
needs no more than the room that is left, but the terminating zero behind an
aligned value and the one behind the last argument are not counted, so a text
that fills the buffer exactly is followed by a store outside.  Skipped strings
move the cursor back by one and may move it in front of the buffer.
-/

namespace GreenTurtle.Formatting

open FixedWidth
open Memory

/-! ## The stretch that an argument writes -/

/-- The text when there is room, and otherwise the zero that the overloads for
numbers and characters store. -/
def plainExtent (reportsLength : Bool) (size : ℕ) (left : ℤ) : ℕ :=
  if size ≤ left then size else if reportsLength then 1 else 0

/-- The padded text and its terminator when there is room, and otherwise what
the inner conversion has written before that was known. -/
def alignedExtent
    (size width : ℕ) (extent : ℤ → ℕ) (left : ℤ) : ℕ :=
  if (max size width : ℕ) ≤ left then max size width + 1 else extent left

/-- The offset of the first byte that is written.  It is the cursor itself,
except that a value without alignment leaves out its padding. -/
def alignedLead
    (flags : UInt8) (size width : ℕ) (extent lead : ℤ → ℕ)
    (left : ℤ) : ℕ :=
  if (max size width : ℕ) ≤ left then
    if flags &&& kAlignUpper ≠ 0 then 0
    else if size < width ∧ (flags &&& kAlignMask = kAlignRight ∨
        flags &&& kAlignMask = kAlignCenter) then 0
    else if extent left ≠ 0 then lead left
    else if size < width ∧ flags &&& kAlignMask = kAlignLeft then 0
    else max size width
  else lead left

namespace FormatArgument

def hexSize : FormatArgument → ℕ
  | .char _ => 1
  | .signedChar c => (hexText 1 c.toNat).length
  | .slice text => text.length
  | .integer bytes value _ => (hexText bytes value).length
  | .floating digits => digits.length
  | .align value width _ _ => max value.hexSize width.toNat

def size : FormatArgument → ℕ
  | .char _ => 1
  | .signedChar _ => 1
  | .slice text => text.length
  | .integer _ _ digits => digits.length
  | .floating digits => digits.length
  | .align value width _ _ => max value.hexSize width.toNat

def hexReportsLength : FormatArgument → Bool
  | .char _ => true
  | .floating _ => true
  | _ => false

def reportsLength : FormatArgument → Bool
  | .char _ => true
  | .integer _ _ _ => true
  | .floating _ => true
  | _ => false

def hexExtent : FormatArgument → ℤ → ℕ
  | .align value width _ _ =>
      alignedExtent value.hexSize width.toNat value.hexExtent
  | v => plainExtent v.hexReportsLength v.hexSize

def extent : FormatArgument → ℤ → ℕ
  | .align value width _ _ =>
      alignedExtent value.hexSize width.toNat value.hexExtent
  | v => plainExtent v.reportsLength v.size

def lead : FormatArgument → ℤ → ℕ
  | .align value width _ flags =>
      alignedLead flags value.hexSize width.toNat value.hexExtent value.lead
  | _ => fun _ => 0

/-- The stores of the argument stay inside a buffer of `limit` bytes that ends
`left` bytes behind the cursor. -/
def StaysInside (limit : ℕ) (v : FormatArgument) (left : ℤ) : Prop :=
  v.extent left = 0 ∨
    (left ≤ limit + v.lead left ∧ v.extent left ≤ left)

end FormatArgument

/-- Each argument that is reached stays inside, and so does the final zero.  A
string that does not fit is skipped and gives one byte back. -/
def Inside (limit : ℕ) : List FormatArgument → ℤ → Prop
  | [], left => 0 < left ∧ left ≤ limit
  | v :: vn, left =>
      v.StaysInside limit left ∧
        if v.size ≤ left then Inside limit vn (left - v.size)
        else if v.reportsLength then True
        else left < 2147483647 ∧ Inside limit vn (left + 1)

instance (limit : ℕ) (v : FormatArgument) (left : ℤ) :
    Decidable (v.StaysInside limit left) :=
  inferInstanceAs (Decidable (_ ∨ _))

def decidableInside (limit : ℕ) :
    (args : List FormatArgument) → (left : ℤ) →
      Decidable (Inside limit args left)
  | [], left => inferInstanceAs (Decidable (0 < left ∧ left ≤ limit))
  | v :: vn, left =>
      have := decidableInside limit vn (left - v.size)
      have := decidableInside limit vn (left + 1)
      by unfold Inside; infer_instance

instance (limit : ℕ) (args : List FormatArgument) (left : ℤ) :
    Decidable (Inside limit args left) :=
  decidableInside limit args left

/-! ## What a single overload reports and writes -/

structure Traces
    (reportsLength : Bool) (size : ℕ) (extent lead : ℤ → ℕ)
    (tracer : Tracer) : Prop where
  fits :
    ∀ mem cursor (left : ℤ), size ≤ left → left < 2147483648 →
      (tracer mem cursor left).1 = size
  misfits :
    ∀ mem cursor (left : ℤ), 0 ≤ left → left < 2147483648 → left < size →
      (tracer mem cursor left).1 = if reportsLength then (size : ℤ) else -1
  lead_lt : ∀ left, extent left ≠ 0 → lead left < extent left
  extent_fits :
    ∀ left : ℤ, size ≤ left →
      extent left ≤ size + 1 ∧ (size ≠ 0 → extent left ≠ 0)
  spans :
    ∀ mem cursor (left : ℤ), 0 ≤ left → left < 2147483648 →
      Spans (tracer mem cursor left).2 (cursor + lead left)
        (cursor + extent left)

/-- An overload without alignment makes one store at the cursor or none. -/
theorem Traces.plain
    {reportsLength : Bool} {size : ℕ} {tracer : Tracer}
    (hfits :
      ∀ mem cursor (left : ℤ), size ≤ left → left < 2147483648 →
        ∃ data : List Byte, data.length = size ∧
          tracer mem cursor left = ((size : ℤ), [(cursor, data)]))
    (hmisfits :
      ∀ mem cursor (left : ℤ), 0 ≤ left → left < 2147483648 →
        left < size →
          tracer mem cursor left =
            if reportsLength then ((size : ℤ), [(cursor, [0])])
            else (-1, [])) :
    Traces reportsLength size (plainExtent reportsLength size)
      (fun _ => 0) tracer := by
  constructor
  · intro mem cursor left hle hint
    rcases hfits mem cursor left hle hint with ⟨data, _, htracer⟩
    rw [htracer]
  · intro mem cursor left hnonneg hint hlt
    rw [hmisfits mem cursor left hnonneg hint hlt]
    split <;> rfl
  · intro left hextent
    omega
  · intro left hle
    rw [plainExtent, if_pos hle]
    omega
  · intro mem cursor left hnonneg hint
    unfold plainExtent
    by_cases hle : size ≤ left
    · rcases hfits mem cursor left hle hint with ⟨data, hlength, htracer⟩
      rw [htracer, if_pos hle, ← hlength]
      simpa using Spans.single cursor data
    · rw [hmisfits mem cursor left hnonneg hint (by omega), if_neg hle]
      cases reportsLength with
      | true => simpa using Spans.single cursor [(0 : Byte)]
      | false => simpa using Spans.nil (α := Byte) cursor

theorem traces_char (c : Byte) :
    Traces true 1 (plainExtent true 1) (fun _ => 0) (traceChar c) := by
  apply Traces.plain
  · intro mem cursor left hle _
    have hroom : 1 ≤ left := by simpa using hle
    exact ⟨[c], rfl, by simp [traceChar, hroom]⟩
  · intro mem cursor left _ _ hlt
    have hfull : ¬ 1 ≤ left := by simpa using hlt
    simp [traceChar, hfull]

theorem traces_number (digits : List Byte) :
    Traces true digits.length (plainExtent true digits.length) (fun _ => 0)
      (traceNumber digits) := by
  apply Traces.plain
  · intro mem cursor left hle _
    exact ⟨digits, rfl, by simp [traceNumber, hle]⟩
  · intro mem cursor left _ _ hlt
    simp [traceNumber, not_le.mpr hlt]

theorem traces_signedChar (c : Byte) :
    Traces false 1 (plainExtent false 1) (fun _ => 0)
      (traceSignedChar c) := by
  apply Traces.plain
  · intro mem cursor left hle _
    have hroom : ¬ left ≤ 0 := by
      rw [Nat.cast_one] at hle
      omega
    exact ⟨[c], rfl, by simp [traceSignedChar, hroom]⟩
  · intro mem cursor left _ _ hlt
    have hfull : left ≤ 0 := by
      rw [Nat.cast_one] at hlt
      omega
    simp [traceSignedChar, hfull]

theorem traces_slice (text : List Byte) :
    Traces false text.length (plainExtent false text.length) (fun _ => 0)
      (traceSlice text) := by
  apply Traces.plain
  · intro mem cursor left hle hint
    have hroom : toUInt64 left = left.toNat :=
      toUInt64_of_bounds (by omega) (by omega)
    have hlength : toInt32 text.length = text.length :=
      toInt32_of_bounds (by omega) (by omega)
    have hfits : ¬ text.length > left.toNat := by omega
    refine ⟨text, rfl, ?_⟩
    simp only [traceSlice, hroom, hfits, if_false, hlength]
  · intro mem cursor left hnonneg hint hlt
    have hroom : toUInt64 left = left.toNat :=
      toUInt64_of_bounds (by omega) (by omega)
    have hmisfits : text.length > left.toNat := by omega
    simp [traceSlice, hroom, hmisfits]

theorem traces_hex (bytes value : ℕ) :
    Traces false (hexText bytes value).length
      (plainExtent false (hexText bytes value).length) (fun _ => 0)
      (traceHex bytes value) := by
  apply Traces.plain
  · intro mem cursor left hle _
    exact ⟨hexText bytes value, rfl, by simp [traceHex, not_lt.mpr hle]⟩
  · intro mem cursor left _ _ hlt
    simp [traceHex, hlt]

/-! ## Aligned values -/

theorem touched_traceUpper
    (mem : ℤ → Byte) (cursor : ℤ) (len : ℕ) (address : ℤ) :
    Touched (traceUpper mem cursor len) address ↔
      cursor ≤ address ∧ address < cursor + (len + 1 : ℕ) := by
  simp [traceUpper, length_upperBytes]

/-- Padding stays between the cursor and the end of the padded text. -/
theorem touched_tracePad
    {flags : UInt8} {pad : Byte} {cursor address : ℤ} {size space : ℕ}
    {mem : ℤ → Byte}
    (htouched :
      Touched (tracePad flags pad cursor size space mem) address) :
    cursor ≤ address ∧ address < cursor + (size + space : ℕ) := by
  unfold tracePad at htouched
  split at htouched
  next =>
    split at htouched
    next =>
      simp only [touched_cons, touched_nil, List.length_replicate,
        or_false] at htouched
      omega
    next =>
      split at htouched
      next =>
        simp only [touched_cons, touched_nil, List.length_replicate,
          length_slice, or_false] at htouched
        omega
      next =>
        split at htouched
        next =>
          simp only [touched_cons, touched_nil, List.length_replicate,
            length_slice, or_false] at htouched
          omega
        next => simp at htouched
  next => simp at htouched

/-- With the text at the right or in the middle the padding begins at the
cursor. -/
theorem touched_tracePad_cursor
    {flags : UInt8} (pad : Byte) (cursor : ℤ) (size : ℕ) {space : ℕ}
    (mem : ℤ → Byte) (hspace : 0 < space)
    (haligned :
      flags &&& kAlignMask = kAlignRight ∨
        flags &&& kAlignMask = kAlignCenter) :
    Touched (tracePad flags pad cursor size space mem) cursor := by
  rcases haligned with hright | hcenter
  · have hleft : kAlignRight ≠ kAlignLeft := by decide
    simp only [tracePad, hspace, hright, hleft, if_true, if_false,
      touched_cons, List.length_replicate]
    omega
  · have hleft : kAlignCenter ≠ kAlignLeft := by decide
    have hright : kAlignCenter ≠ kAlignRight := by decide
    simp only [tracePad, hspace, hcenter, hleft, hright, if_true, if_false,
      touched_cons, List.length_replicate, length_slice]
    omega

theorem touched_tracePad_left
    {flags : UInt8} (pad : Byte) (cursor : ℤ) (size : ℕ) {space : ℕ}
    (mem : ℤ → Byte) (hspace : 0 < space)
    (hleft : flags &&& kAlignMask = kAlignLeft) (address : ℤ) :
    Touched (tracePad flags pad cursor size space mem) address ↔
      cursor + size ≤ address ∧ address < cursor + size + space := by
  simp [tracePad, hspace, hleft]

theorem tracePad_eq_nil
    {flags : UInt8} (pad : Byte) (cursor : ℤ) (size : ℕ) {space : ℕ}
    (mem : ℤ → Byte)
    (hnone :
      ¬ (0 < space ∧ (flags &&& kAlignMask = kAlignLeft ∨
        flags &&& kAlignMask = kAlignRight ∨
        flags &&& kAlignMask = kAlignCenter))) :
    tracePad flags pad cursor size space mem = [] := by
  by_cases hspace : 0 < space
  · simp only [hspace, true_and, not_or] at hnone
    simp [tracePad, hnone]
  · simp [tracePad, hspace]

section Aligned

variable {reportsLength : Bool} {size : ℕ} {extent lead : ℤ → ℕ}
variable {tracer : Tracer}

/-- The stores before padding: the text, and the same text in upper case. -/
def raisedLog
    (flags : UInt8) (cursor : ℤ) (size : ℕ) (mem : ℤ → Byte)
    (log : StoreLog Byte) : StoreLog Byte :=
  if flags &&& kAlignUpper ≠ 0 then
    log ++ traceUpper (applyLog mem log) cursor size
  else log

theorem Traces.aligned_misfits
    (htraces : Traces reportsLength size extent lead tracer)
    (width : UInt8) (pad : Byte) (flags : UInt8)
    (mem : ℤ → Byte) (cursor : ℤ) {left : ℤ} (hnonneg : 0 ≤ left)
    (hint : left < 2147483648) (hlt : left < (max size width.toNat : ℕ)) :
    traceAligned width pad flags tracer mem cursor left =
      (-1, (tracer mem cursor left).2) := by
  have hskip :
      (tracer mem cursor left).1 < 0 ∨
        left <
          if (tracer mem cursor left).1 < width.toNat then
            (width.toNat : ℤ)
          else (tracer mem cursor left).1 := by
    by_cases hfits : size ≤ left
    · rw [htraces.fits mem cursor left hfits hint]
      right
      split <;> omega
    · rw [htraces.misfits mem cursor left hnonneg hint (by omega)]
      cases reportsLength with
      | true =>
          right
          simp only [if_true]
          split <;> omega
      | false =>
          left
          simp
  simp only [traceAligned]
  rw [if_pos hskip]

theorem Traces.aligned_fits
    (htraces : Traces reportsLength size extent lead tracer)
    (width : UInt8) (pad : Byte) (flags : UInt8)
    (mem : ℤ → Byte) (cursor : ℤ) {left : ℤ}
    (hle : (max size width.toNat : ℕ) ≤ left)
    (hint : left < 2147483648) :
    traceAligned width pad flags tracer mem cursor left =
      (((max size width.toNat : ℕ) : ℤ),
        raisedLog flags cursor size mem (tracer mem cursor left).2 ++
          tracePad flags pad cursor size (max size width.toNat - size)
            (applyLog mem
              (raisedLog flags cursor size mem
                (tracer mem cursor left).2)) ++
          [(cursor + (max size width.toNat : ℕ), [0])]) := by
  have hreported := htraces.fits mem cursor left (by omega) hint
  have hmax :
      (if (size : ℤ) < width.toNat then (width.toNat : ℤ) else size) =
        (max size width.toNat : ℕ) := by
    split <;> omega
  have hspace :
      (((max size width.toNat : ℕ) : ℤ) - size).toNat =
        max size width.toNat - size := by
    omega
  simp only [traceAligned, hreported, hmax, hspace, Int.toNat_natCast]
  rw [if_neg (by omega)]
  rfl

/-- All stores of an aligned value that fits lie between the cursor and its
terminator. -/
theorem Traces.aligned_bounds
    (htraces : Traces reportsLength size extent lead tracer)
    {width : UInt8} {pad : Byte} {flags : UInt8}
    {mem : ℤ → Byte} {cursor left address : ℤ}
    (hle : (max size width.toNat : ℕ) ≤ left)
    (hint : left < 2147483648)
    (htouched :
      Touched (traceAligned width pad flags tracer mem cursor left).2
        address) :
    cursor ≤ address ∧
      address < cursor + (max size width.toNat + 1 : ℕ) := by
  rw [htraces.aligned_fits width pad flags mem cursor hle hint] at htouched
  simp only [touched_append, touched_cons, touched_nil, or_false,
    List.length_singleton] at htouched
  have hextent := (htraces.extent_fits left (by omega)).1
  rcases htouched with (hraised | hpad) | hlast
  · have hinner :
        ∀ address, Touched (tracer mem cursor left).2 address →
          cursor ≤ address ∧ address < cursor + (size + 1 : ℕ) := by
      intro address haddress
      have hbounds :=
        (htraces.spans mem cursor left (by omega) hint).bounds address
          haddress
      omega
    unfold raisedLog at hraised
    split at hraised
    next =>
      rw [touched_append, touched_traceUpper] at hraised
      rcases hraised with htext | hupper
      · have hbounds := hinner address htext
        omega
      · omega
    next =>
      have hbounds := hinner address hraised
      omega
  · have hbounds := touched_tracePad hpad
    omega
  · omega

/-- Without padding in front of the text and without a second pass over it,
the first byte is the first byte of the inner conversion. -/
theorem Traces.aligned_low
    (htraces : Traces reportsLength size extent lead tracer)
    {width : UInt8} {pad : Byte} {flags : UInt8}
    {mem : ℤ → Byte} {cursor left address : ℤ}
    (hle : (max size width.toNat : ℕ) ≤ left)
    (hint : left < 2147483648)
    (hupper : ¬ flags &&& kAlignUpper ≠ 0)
    (hfront :
      ¬ (size < width.toNat ∧ (flags &&& kAlignMask = kAlignRight ∨
        flags &&& kAlignMask = kAlignCenter)))
    (hextent : extent left ≠ 0)
    (htouched :
      Touched (traceAligned width pad flags tracer mem cursor left).2
        address) :
    cursor + lead left ≤ address := by
  have hlead := htraces.lead_lt left hextent
  have hreach := (htraces.extent_fits left (by omega)).1
  rw [htraces.aligned_fits width pad flags mem cursor hle hint] at htouched
  simp only [raisedLog, if_neg hupper, touched_append, touched_cons,
    touched_nil, or_false, List.length_singleton] at htouched
  rcases htouched with (htext | hpad) | hlast
  · have hbounds :=
      (htraces.spans mem cursor left (by omega) hint).bounds address htext
    exact hbounds.1
  · by_cases hleft :
        0 < max size width.toNat - size ∧
          flags &&& kAlignMask = kAlignLeft
    · rw [touched_tracePad_left pad cursor size _ hleft.1 hleft.2] at hpad
      omega
    · rw [tracePad_eq_nil pad cursor size] at hpad
      · simp at hpad
      · rintro ⟨hspace, hmask | hmask⟩
        · exact hleft ⟨hspace, hmask⟩
        · exact hfront ⟨by omega, hmask⟩
  · omega

/-- An empty text without padding leaves nothing but the terminator. -/
theorem Traces.aligned_low_empty
    (htraces : Traces reportsLength size extent lead tracer)
    {width : UInt8} {pad : Byte} {flags : UInt8}
    {mem : ℤ → Byte} {cursor left address : ℤ}
    (hle : (max size width.toNat : ℕ) ≤ left)
    (hint : left < 2147483648)
    (hupper : ¬ flags &&& kAlignUpper ≠ 0)
    (hpad :
      ∀ mem, tracePad flags pad cursor size (max size width.toNat - size)
        mem = [])
    (hextent : extent left = 0)
    (htouched :
      Touched (traceAligned width pad flags tracer mem cursor left).2
        address) :
    cursor + (max size width.toNat : ℕ) ≤ address := by
  rw [htraces.aligned_fits width pad flags mem cursor hle hint, hpad]
    at htouched
  simp only [raisedLog, if_neg hupper, touched_append, touched_cons,
    touched_nil, or_false, List.length_singleton] at htouched
  cases htouched with
  | inl htext =>
      have hbounds :=
        (htraces.spans mem cursor left (by omega) hint).bounds address htext
      omega
  | inr hlast => exact hlast.1

theorem Traces.touched_terminator
    (htraces : Traces reportsLength size extent lead tracer)
    (width : UInt8) (pad : Byte) (flags : UInt8)
    (mem : ℤ → Byte) (cursor : ℤ) {left : ℤ}
    (hle : (max size width.toNat : ℕ) ≤ left)
    (hint : left < 2147483648) :
    Touched (traceAligned width pad flags tracer mem cursor left).2
      (cursor + (max size width.toNat : ℕ)) := by
  rw [htraces.aligned_fits width pad flags mem cursor hle hint]
  simp only [touched_append, touched_cons, List.length_singleton]
  omega

/-- The first byte of an aligned value that fits. -/
theorem Traces.aligned_lead
    (htraces : Traces reportsLength size extent lead tracer)
    (width : UInt8) (pad : Byte) (flags : UInt8)
    (mem : ℤ → Byte) (cursor : ℤ) {left : ℤ}
    (hle : (max size width.toNat : ℕ) ≤ left)
    (hint : left < 2147483648) :
    let log := (traceAligned width pad flags tracer mem cursor left).2
    let first := alignedLead flags size width.toNat extent lead left
    (∀ address, Touched log address → cursor + first ≤ address) ∧
      Touched log (cursor + first) := by
  have hequation :=
    htraces.aligned_fits width pad flags mem cursor hle hint
  have hcursor :
      ∀ address,
        Touched (traceAligned width pad flags tracer mem cursor left).2
            address →
          cursor + (0 : ℕ) ≤ address := by
    intro address haddress
    have hbounds := htraces.aligned_bounds hle hint haddress
    omega
  dsimp only
  unfold alignedLead
  rw [if_pos hle]
  split
  next hupper =>
    refine ⟨hcursor, ?_⟩
    rw [hequation]
    simp only [raisedLog, if_pos hupper, touched_append, touched_traceUpper]
    omega
  next hupper =>
    split
    next hfront =>
      refine ⟨hcursor, ?_⟩
      rw [hequation]
      simp only [touched_append, Nat.cast_zero, add_zero]
      exact .inl (.inr (touched_tracePad_cursor pad cursor size _
        (by omega) hfront.2))
    next hfront =>
      split
      next hextent =>
        refine ⟨fun address haddress =>
          htraces.aligned_low hle hint hupper hfront hextent haddress, ?_⟩
        have hlead := htraces.lead_lt left hextent
        have htext :=
          ((htraces.spans mem cursor left (by omega) hint).ends
            (by omega)).1
        rw [hequation]
        simp only [raisedLog, if_neg hupper, touched_append]
        exact .inl (.inl htext)
      next hextent =>
        -- nothing was written for the text, so the text is empty
        have hempty : size = 0 := by
          by_contra hsize
          exact hextent ((htraces.extent_fits left (by omega)).2 hsize)
        split
        next hleft =>
          refine ⟨hcursor, ?_⟩
          rw [hequation]
          simp only [touched_append]
          refine .inl (.inr ?_)
          rw [touched_tracePad_left pad cursor size _ (by omega) hleft.2]
          omega
        next hleft =>
          have hpad :
              ∀ mem, tracePad flags pad cursor size
                (max size width.toNat - size) mem = [] := by
            intro mem
            apply tracePad_eq_nil
            rintro ⟨hspace, hmask | hmask⟩
            · exact hleft ⟨by omega, hmask⟩
            · exact hfront ⟨by omega, hmask⟩
          exact ⟨fun address haddress =>
            htraces.aligned_low_empty hle hint hupper hpad
              (not_not.mp hextent) haddress,
            htraces.touched_terminator width pad flags mem cursor hle hint⟩

theorem Traces.aligned
    (htraces : Traces reportsLength size extent lead tracer)
    (width : UInt8) (pad : Byte) (flags : UInt8) :
    Traces false (max size width.toNat)
      (alignedExtent size width.toNat extent)
      (alignedLead flags size width.toNat extent lead)
      (traceAligned width pad flags tracer) := by
  constructor
  · intro mem cursor left hle hint
    rw [htraces.aligned_fits width pad flags mem cursor hle hint]
  · intro mem cursor left hnonneg hint hlt
    rw [htraces.aligned_misfits width pad flags mem cursor hnonneg hint hlt]
    rfl
  · intro left hextent
    unfold alignedExtent at hextent ⊢
    unfold alignedLead
    split
    next hle =>
      have hreach := (htraces.extent_fits left (by omega)).1
      have hlead := htraces.lead_lt left
      split_ifs <;> omega
    next hle =>
      rw [if_neg hle] at hextent
      exact htraces.lead_lt left hextent
  · intro left hle
    rw [alignedExtent, if_pos hle]
    omega
  · intro mem cursor left hnonneg hint
    by_cases hle : (max size width.toNat : ℕ) ≤ left
    · have hlead :=
        htraces.aligned_lead width pad flags mem cursor hle hint
      rw [alignedExtent, if_pos hle]
      constructor
      · intro address haddress
        have hbounds := htraces.aligned_bounds hle hint haddress
        have hfirst := hlead.1 address haddress
        exact ⟨hfirst, hbounds.2⟩
      · intro _
        have hlast := htraces.touched_terminator width pad flags mem cursor
          hle hint
        rw [Nat.cast_add_one, ← add_assoc, add_sub_cancel_right]
        exact ⟨hlead.2, hlast⟩
    · rw [htraces.aligned_misfits width pad flags mem cursor hnonneg hint
        (by omega)]
      rw [alignedExtent, alignedLead, if_neg hle, if_neg hle]
      exact htraces.spans mem cursor left hnonneg hint

end Aligned

theorem traces_toHex (v : FormatArgument) :
    Traces v.hexReportsLength v.hexSize v.hexExtent v.lead
      v.traceToHex := by
  induction v with
  | char c => exact traces_char c
  | signedChar c => exact traces_hex 1 c.toNat
  | slice text => exact traces_slice text
  | integer bytes value digits => exact traces_hex bytes value
  | floating digits => exact traces_number digits
  | align value width pad flags ih => exact ih.aligned width pad flags

theorem traces_toString (v : FormatArgument) :
    Traces v.reportsLength v.size v.extent v.lead v.traceToString := by
  cases v with
  | char c => exact traces_char c
  | signedChar c => exact traces_signedChar c
  | slice text => exact traces_slice text
  | integer bytes value digits => exact traces_number digits
  | floating digits => exact traces_number digits
  | align value width pad flags =>
      exact (traces_toHex value).aligned width pad flags

/-! ## The recursion over the arguments -/

/-- The stores of a call, which must have a result, are inside the buffer. -/
def StoresInside
    (limit : ℕ) (result : Option (ℤ × StoreLog Byte)) : Prop :=
  ∃ outcome, result = some outcome ∧
    ∀ address, Touched outcome.2 address → 0 ≤ address ∧ address < limit

theorem staysInside_iff
    (v : FormatArgument) (mem : ℤ → Byte) (limit : ℕ) {left : ℤ}
    (hnonneg : 0 ≤ left) (hint : left < 2147483648) :
    (∀ address,
        Touched (v.traceToString mem (limit - left) left).2 address →
          0 ≤ address ∧ address < limit) ↔
      v.StaysInside limit left := by
  have htraces := traces_toString v
  rw [(htraces.spans mem (limit - left) left hnonneg hint).within_iff]
  have hlead := htraces.lead_lt left
  unfold FormatArgument.StaysInside
  omega

theorem storesInside_append_iff
    {limit : ℕ} {log : StoreLog Byte}
    {rest : Option (ℤ × StoreLog Byte)} :
    StoresInside limit
        (rest.map fun outcome => (outcome.1, log ++ outcome.2)) ↔
      (∀ address, Touched log address → 0 ≤ address ∧ address < limit) ∧
        StoresInside limit rest := by
  cases rest with
  | none => simp [StoresInside]
  | some outcome =>
      simp only [StoresInside, Option.map_some, Option.some.injEq,
        exists_eq_left', touched_append, or_imp, forall_and]
      exact and_and_and_comm

/-- The room is the distance from the cursor to the end of the buffer, and the
sum is the distance of the cursor from where the texts begin. -/
theorem traceFrom_inside_iff
    (args : List FormatArgument) (mem : ℤ → Byte) {limit base : ℕ}
    (hbase : base ≤ limit) (hlimit : limit < 2147483648) {left : ℤ}
    (hnonneg : 0 ≤ left) (hint : left < 2147483648) :
    StoresInside limit
        (traceFrom args mem (limit - left) left (limit - left - base)) ↔
      Inside limit args left := by
  induction args generalizing mem left with
  | nil =>
      simp only [traceFrom, StoresInside, Inside, Option.some.injEq,
        exists_eq_left', touched_cons, touched_nil, or_false,
        List.length_singleton]
      constructor
      · intro hinside
        have hcursor := hinside (limit - left) (by omega)
        omega
      · intro hleft address haddress
        omega
  | cons v vn ih =>
      have hinside := staysInside_iff v mem limit hnonneg hint
      unfold Inside
      rw [← hinside]
      split
      next hfits =>
        have hreported := (traces_toString v).fits mem (limit - left) left
          hfits hint
        simp only [traceFrom, hreported]
        rw [if_neg (by omega), if_neg (by omega), storesInside_append_iff,
          show (limit : ℤ) - left + v.size = limit - (left - v.size) by ring,
          show (limit : ℤ) - left - base + v.size =
            limit - (left - v.size) - base by ring,
          ih _ (by omega) (by omega)]
      next hmisfits =>
        have hreported := (traces_toString v).misfits mem (limit - left)
          left hnonneg hint (by omega)
        split
        next hreports =>
          rw [if_pos hreports] at hreported
          simp only [traceFrom, hreported]
          rw [if_pos (by omega)]
          simp [StoresInside]
        next hskips =>
          rw [if_neg hskips] at hreported
          simp only [traceFrom, hreported]
          rw [if_neg (by omega)]
          by_cases hmore : left < 2147483647
          · rw [if_neg (by omega), storesInside_append_iff,
              sub_neg_eq_add,
              show (limit : ℤ) - left + -1 = limit - (left + 1) by ring,
              show (limit : ℤ) - left - base + -1 =
                limit - (left + 1) - base by ring,
              ih _ (by omega) (by omega)]
            simp [hmore]
          · rw [if_pos (by omega)]
            simp [StoresInside, hmore]

theorem traceFormat_inside_iff
    (mem : ℤ → Byte) {maxLength : ℕ} (hint : maxLength < 2147483648)
    (args : List FormatArgument) :
    StoresInside maxLength (traceFormat mem maxLength args) ↔
      Inside maxLength args maxLength := by
  have hnonneg : (0 : ℤ) ≤ maxLength := by omega
  have hrecursion :=
    traceFrom_inside_iff args mem (Nat.zero_le _) hint hnonneg (by omega)
  rw [sub_self, Nat.cast_zero, sub_self] at hrecursion
  exact hrecursion

/-- A result other than the error is the distance to the final zero. -/
theorem traceFrom_terminates_text
    {args : List FormatArgument} {mem : ℤ → Byte} {buffer left sum : ℤ}
    {outcome : ℤ × StoreLog Byte}
    (hresult : traceFrom args mem buffer left sum = some outcome) :
    outcome.1 = -1 ∨ Touched outcome.2 (buffer + (outcome.1 - sum)) := by
  induction args generalizing mem buffer left sum outcome with
  | nil =>
      simp only [traceFrom, Option.some.injEq] at hresult
      subst hresult
      right
      simp
  | cons v vn ih =>
      simp only [traceFrom] at hresult
      split at hresult
      next =>
        simp only [Option.some.injEq] at hresult
        subst hresult
        exact .inl rfl
      next =>
        split at hresult
        next => simp at hresult
        next =>
          obtain ⟨rest, hrest, houtcome⟩ := Option.map_eq_some_iff.mp hresult
          subst houtcome
          cases ih hrest with
          | inl herror => exact .inl herror
          | inr hend =>
              right
              rw [touched_append]
              right
              convert hend using 1
              ring

/-! ## Sufficient and necessary room -/

def argumentsSize (args : List FormatArgument) : ℕ :=
  (args.map FormatArgument.size).sum

@[simp] theorem argumentsSize_nil : argumentsSize [] = 0 := rfl

@[simp] theorem argumentsSize_cons
    (v : FormatArgument) (vn : List FormatArgument) :
    argumentsSize (v :: vn) = v.size + argumentsSize vn := by
  simp [argumentsSize]

theorem FormatArgument.extent_le
    (v : FormatArgument) {left : ℤ} (hfits : v.size ≤ left) :
    v.extent left ≤ v.size + 1 :=
  ((traces_toString v).extent_fits left hfits).1

/-- One byte more than the texts is enough. -/
theorem inside_of_size_lt
    {limit : ℕ} {args : List FormatArgument} {left : ℤ}
    (hroom : argumentsSize args < left) (hle : left ≤ limit) :
    Inside limit args left := by
  induction args generalizing left with
  | nil =>
      rw [argumentsSize_nil] at hroom
      exact ⟨by omega, hle⟩
  | cons v vn ih =>
      rw [argumentsSize_cons] at hroom
      have hfits : v.size ≤ left := by omega
      have hextent := v.extent_le hfits
      refine ⟨.inr ⟨by omega, by omega⟩, ?_⟩
      rw [if_pos (by omega)]
      exact ih (by omega) (by omega)

/-- Texts that fill the buffer leave no place for the last zero. -/
theorem not_inside_of_size_eq
    {limit : ℕ} {args : List FormatArgument} {left : ℤ}
    (hfull : argumentsSize args = left) :
    ¬ Inside limit args left := by
  induction args generalizing left with
  | nil =>
      rw [argumentsSize_nil] at hfull
      intro hinside
      have hpositive := hinside.1
      omega
  | cons v vn ih =>
      rw [argumentsSize_cons] at hfull
      intro hinside
      have hrest := hinside.2
      rw [if_pos (by omega)] at hrest
      exact ih (by omega) hrest

/-! ## The result -/

/-- `Format` returns, and every byte that it writes is one of the `maxLength`
bytes of the buffer. -/
def FormatStaysInside
    (mem : ℤ → Byte) (maxLength : ℕ) (args : List FormatArgument) : Prop :=
  StoresInside maxLength (traceFormat mem maxLength args)

/-- The bytes around the buffer keep their values. -/
theorem FormatStaysInside.frame
    {mem : ℤ → Byte} {maxLength : ℕ} {args : List FormatValue}
    (hinside :
      FormatStaysInside mem maxLength (args.map FormatValue.argument)) :
    ∃ returned final,
      format mem maxLength args = some (returned, final) ∧
        ∀ address, address < 0 ∨ maxLength ≤ address →
          final address = mem address := by
  obtain ⟨outcome, hresult, hstores⟩ := hinside
  refine ⟨outcome.1, applyLog mem outcome.2, ?_, ?_⟩
  · rw [format_eq_applyLog, hresult]
    rfl
  · intro address houtside
    apply applyLog_of_not_touched
    intro htouched
    have hbounds := hstores address htouched
    omega

/-- There is no buffer that a text may fill. -/
theorem not_formatStaysInside_of_full
    (mem : ℤ → Byte) {maxLength : ℕ} (hint : maxLength < 2147483648)
    {args : List FormatArgument}
    (hfull : argumentsSize args = maxLength) :
    ¬ FormatStaysInside mem maxLength args := by
  intro hinside
  have hroom := (traceFormat_inside_iff mem hint args).mp hinside
  exact not_inside_of_size_eq (congrArg Nat.cast hfull) hroom

theorem format_staysInside_iff
    (mem : ℤ → Byte) (maxLength : ℕ) (hint : maxLength < 2147483648)
    (args : List FormatArgument) :
    FormatStaysInside mem maxLength args ↔
      Inside maxLength args maxLength :=
  traceFormat_inside_iff mem hint args

theorem format_staysInside_iff_padded_number :
    FormatStaysInside (fun _ => 0) 8
      [.slice [97, 98], .align (.integer 4 255 [50, 53, 53]) 4 48 10,
        .char 99] :=
  (format_staysInside_iff (fun _ => 0) 8 (by decide)
    [.slice [97, 98], .align (.integer 4 255 [50, 53, 53]) 4 48 10,
      .char 99]).mpr (by decide)

/-- A string of three bytes in a buffer of three bytes is followed by a zero
at index three. -/
theorem format_exact_fit_writes_behind :
    (∃ log, traceFormat (fun _ => 0) 3 [.slice [97, 98, 99]] =
        some (3, log) ∧ Touched log 3) ∧
      ¬ FormatStaysInside (fun _ => 0) 3 [.slice [97, 98, 99]] := by
  constructor
  · refine ⟨[(0, [97, 98, 99]), (3, [0])], by decide, ?_⟩
    simp
  · exact not_formatStaysInside_of_full _ (by decide) rfl

end GreenTurtle.Formatting
