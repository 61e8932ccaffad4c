import Mathlib.Data.Nat.Digits.Lemmas
import Mathlib.Tactic

/-!
# Registers of 128 bits

A register is a number.  An instruction takes it apart into lanes of one width,
the least significant first, and packs the lanes of its result again, so that
the next instruction may use another width.  The instructions are those of SSE2
with their names shortened.
-/

namespace GreenTurtle.Simd128

abbrev Register := ℕ

def lanes (width : ℕ) (register : Register) : List ℕ :=
  (List.range (128 / width)).map fun i =>
    register / (2 ^ width) ^ i % 2 ^ width

def pack (width : ℕ) (values : List ℕ) : Register :=
  Nat.ofDigits (2 ^ width) values

/-- The values fill a register. -/
structure Fills (width : ℕ) (values : List ℕ) : Prop where
  length_eq : values.length = 128 / width
  lt : ∀ x ∈ values, x < 2 ^ width

/-! ## Instructions -/

def lanewise
    (width : ℕ) (op : ℕ → ℕ → ℕ) (a b : Register) : Register :=
  pack width (List.zipWith op (lanes width a) (lanes width b))

def setzero : Register := 0

def cvtsi32 (value : ℕ) : Register := value % 2 ^ 32

def mulEpu32 (a b : Register) : Register :=
  lanewise 64 (fun x y => (x % 2 ^ 32) * (y % 2 ^ 32)) a b

def srliEpi64 (a : Register) (count : ℕ) : Register :=
  pack 64 ((lanes 64 a).map (· / 2 ^ count))

def slliEpi64 (a : Register) (count : ℕ) : Register :=
  pack 64 ((lanes 64 a).map (· * 2 ^ count % 2 ^ 64))

def addEpi (width : ℕ) (a b : Register) : Register :=
  lanewise width (fun x y => (x + y) % 2 ^ width) a b

def subEpi (width : ℕ) (a b : Register) : Register :=
  lanewise width (fun x y => (x + 2 ^ width - y) % 2 ^ width) a b

def mulhiEpu16 (a b : Register) : Register :=
  lanewise 16 (fun x y => x * y / 2 ^ 16) a b

def mulloEpi16 (a b : Register) : Register :=
  lanewise 16 (fun x y => x * y % 2 ^ 16) a b

/-- The lower halves of two registers, lane by lane in turn. -/
def unpacklo (width : ℕ) (a b : Register) : Register :=
  pack width
    (((List.zip (lanes width a) (lanes width b)).take (64 / width)).flatMap
      fun pair => [pair.1, pair.2])

/-- A signed lane of sixteen bits as an unsigned byte. -/
def saturate (x : ℕ) : ℕ :=
  if x < 2 ^ 15 then min x 255 else 0

def packusEpi16 (a b : Register) : Register :=
  pack 8 ((lanes 16 a ++ lanes 16 b).map saturate)

def cmpeqEpi8 (a b : Register) : Register :=
  lanewise 8 (fun x y => if x = y then 255 else 0) a b

/-- The upper bits of the sixteen bytes. -/
def movemaskEpi8 (a : Register) : ℕ :=
  Nat.ofDigits 2 ((lanes 8 a).map (· / 128))

def srliSi128 (a : Register) (count : ℕ) : Register :=
  a / (2 ^ 8) ^ count

/-- Trailing zero bits of a 32-bit number other than zero. -/
def ctz32 (x : ℕ) : ℕ :=
  ((List.range 32).find? fun i => x.testBit i).getD 32

/-! ## Packing -/

theorem lanes_pack
    {width : ℕ} {values : List ℕ} (hfills : Fills width values) :
    lanes width (pack width values) = values := by
  apply List.ext_getElem
  · simp [lanes, hfills.length_eq]
  · intro i _ hi
    simp only [lanes, pack, List.getElem_map, List.getElem_range]
    rw [Nat.ofDigits_div_pow_eq_ofDigits_drop i (Nat.two_pow_pos width)
        values hfills.lt,
      List.drop_eq_getElem_cons hi, Nat.ofDigits_cons,
      Nat.add_mul_mod_self_left]
    exact Nat.mod_eq_of_lt (hfills.lt _ (List.getElem_mem hi))

theorem lanewise_pack
    {width : ℕ} {first second : List ℕ} (op : ℕ → ℕ → ℕ)
    (hfirst : Fills width first) (hsecond : Fills width second) :
    lanewise width op (pack width first) (pack width second) =
      pack width (List.zipWith op first second) := by
  rw [lanewise, lanes_pack hfirst, lanes_pack hsecond]

/-- Neighbouring lanes as one lane of twice the width. -/
def join (width : ℕ) : List ℕ → List ℕ
  | x :: y :: rest => (x + 2 ^ width * y) :: join width rest
  | rest => rest

theorem pack_join (width : ℕ) (values : List ℕ) :
    pack (width + width) (join width values) = pack width values := by
  induction values using join.induct with
  | case1 x y rest ih =>
      unfold pack at ih ⊢
      rw [join, Nat.ofDigits_cons, ih, Nat.ofDigits_cons, Nat.ofDigits_cons,
        pow_add]
      ring
  | case2 rest hshort =>
      cases rest with
      | nil => rfl
      | cons x tail =>
          cases tail with
          | nil => simp [join, pack]
          | cons y tail => exact absurd rfl (hshort x y tail)

theorem pack_append_zeros (width : ℕ) (values : List ℕ) (count : ℕ) :
    pack width (values ++ List.replicate count 0) = pack width values := by
  rw [pack, Nat.ofDigits_append_replicate_zero]
  rfl

/-- Moving a register to the right drops bytes and lets in zeros. -/
theorem lanes_srliSi128
    {values : List ℕ} (hfills : Fills 8 values) {count : ℕ}
    (hcount : count ≤ 16) :
    lanes 8 (srliSi128 (pack 8 values) count) =
      values.drop count ++ List.replicate count 0 := by
  have hlength := hfills.length_eq
  have hshift :
      srliSi128 (pack 8 values) count =
        pack 8 (values.drop count ++ List.replicate count 0) := by
    rw [pack_append_zeros]
    exact Nat.ofDigits_div_pow_eq_ofDigits_drop count (by norm_num) values
      hfills.lt
  rw [hshift]
  apply lanes_pack
  constructor
  · rw [List.length_append, List.length_drop, List.length_replicate]
    omega
  · intro x hx
    rcases List.mem_append.mp hx with hold | hnew
    · exact hfills.lt x (List.mem_of_mem_drop hold)
    · rw [List.eq_of_mem_replicate hnew]
      norm_num

end GreenTurtle.Simd128
