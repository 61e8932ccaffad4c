import GreenTurtle.FixedWidth
import GreenTurtle.Iteration
import GreenTurtle.Numeral
import GreenTurtle.RoundedArithmetic
import Mathlib.Tactic

/-!
# Shortest digits of a floating-point number

`DiyFp`, `GetCachedPower`, `GrisuRound`, `DigitGen` and `Grisu2` of `num2a.h`.
A number is scaled by a power of ten from a table, together with the borders of
the interval that rounds to it, and digits are generated until the rest is
smaller than the width of the interval.  Loops whose end depends on their data
are cut off after `fuel` iterations.
-/

namespace GreenTurtle.Num2a

open FixedWidth
open Iteration
open Memory
open Numeral
open RoundedArithmetic

/-! ## Significands of 64 bits -/

structure DiyFp where
  f : ℕ
  e : ℤ
deriving DecidableEq

namespace DiyFp

def kDiySignificandSize : ℕ := 64
def kDpSignificandSize : ℕ := 52
def kDpExponentBias : ℤ := 0x3FF + kDpSignificandSize
def kDpMinExponent : ℤ := -kDpExponentBias
def kDpExponentMask : ℕ := 0x7FF0000000000000
def kDpSignificandMask : ℕ := 0x000FFFFFFFFFFFFF
def kDpHiddenBit : ℕ := 0x0010000000000000

/-- `DiyFp(double)`, from the bits of the number. -/
def ofDouble (bits : ℕ) : DiyFp :=
  let biasedE := (bits &&& kDpExponentMask) >>> kDpSignificandSize
  let significand := bits &&& kDpSignificandMask
  if biasedE ≠ 0 then
    { f := significand + kDpHiddenBit, e := biasedE - kDpExponentBias }
  else
    { f := significand, e := kDpMinExponent + 1 }

def sub (x rhs : DiyFp) : DiyFp :=
  { f := toUInt64 (x.f - rhs.f), e := x.e }

/-- `operator*` with a product of 128 bits. -/
def mul (x rhs : DiyFp) : DiyFp :=
  let p := x.f * rhs.f
  let h := p >>> 64
  let l := toUInt64 p
  { f := if l &&& 1 <<< 63 ≠ 0 then toUInt64 (h + 1 : ℕ) else h
    e := x.e + rhs.e + 64 }

/-- `operator*` with products of 64 bits. -/
def mulPortable (x rhs : DiyFp) : DiyFp :=
  let m32 := 0xFFFFFFFF
  let a := x.f >>> 32
  let b := x.f &&& m32
  let c := rhs.f >>> 32
  let d := rhs.f &&& m32
  let ac := toUInt64 (a * c : ℕ)
  let bc := toUInt64 (b * c : ℕ)
  let ad := toUInt64 (a * d : ℕ)
  let bd := toUInt64 (b * d : ℕ)
  let tmp := toUInt64 ((bd >>> 32) + (ad &&& m32) + (bc &&& m32) : ℕ)
  let tmp := toUInt64 (tmp + 1 <<< 31 : ℕ)
  { f := toUInt64 (ac + (ad >>> 32) + (bc >>> 32) + (tmp >>> 32) : ℕ)
    e := x.e + rhs.e + 64 }

/-- `__builtin_clzll`. -/
def clz (f : ℕ) : ℕ :=
  63 - f.log2

def normalize (x : DiyFp) : DiyFp :=
  let s := clz x.f
  { f := toUInt64 (x.f <<< s : ℕ), e := x.e - s }

/-- One round of the loops that shift until a bit is set. -/
def shiftBody (bit : ℕ) (res : DiyFp) : DiyFp ⊕ DiyFp :=
  if res.f &&& bit = 0 then
    .inl { f := toUInt64 (res.f <<< 1 : ℕ), e := res.e - 1 }
  else .inr res

/-- Shift until the bit is set, and then by the places above it. -/
def shiftTo (fuel bit places : ℕ) (x : DiyFp) : Option DiyFp :=
  (iterate (shiftBody bit) fuel x).map fun res =>
    { f := toUInt64 (res.f <<< places : ℕ), e := res.e - places }

/-- `Normalize` without an instruction that counts zeros. -/
def normalizePortable (fuel : ℕ) (x : DiyFp) : Option DiyFp :=
  shiftTo fuel kDpHiddenBit (kDiySignificandSize - kDpSignificandSize - 1) x

def normalizeBoundary (fuel : ℕ) (x : DiyFp) : Option DiyFp :=
  shiftTo fuel (kDpHiddenBit <<< 1)
    (kDiySignificandSize - kDpSignificandSize - 2) x

/-- The borders, the lower one first. -/
def normalizedBoundaries (fuel : ℕ) (x : DiyFp) : Option (DiyFp × DiyFp) := do
  let pl ←
    normalizeBoundary fuel
      { f := toUInt64 ((x.f <<< 1) + 1 : ℕ), e := x.e - 1 }
  let mi : DiyFp :=
    if x.f = kDpHiddenBit then
      { f := toUInt64 ((x.f <<< 2 : ℕ) - 1), e := x.e - 2 }
    else { f := toUInt64 ((x.f <<< 1 : ℕ) - 1), e := x.e - 1 }
  some
    ({ f := toUInt64 (mi.f <<< (mi.e - pl.e).toNat : ℕ), e := pl.e }, pl)

end DiyFp

/-! ## Powers of ten -/

/-- `10 ^ -348`, `10 ^ -340`, ..., `10 ^ 340`. -/
def kCachedPowersF : List ℕ :=
  [
    0xfa8fd5a0081c0288, 0xbaaee17fa23ebf76, 0x8b16fb203055ac76,
    0xcf42894a5dce35ea, 0x9a6bb0aa55653b2d, 0xe61acf033d1a45df,
    0xab70fe17c79ac6ca, 0xff77b1fcbebcdc4f, 0xbe5691ef416bd60c,
    0x8dd01fad907ffc3c, 0xd3515c2831559a83, 0x9d71ac8fada6c9b5,
    0xea9c227723ee8bcb, 0xaecc49914078536d, 0x823c12795db6ce57,
    0xc21094364dfb5637, 0x9096ea6f3848984f, 0xd77485cb25823ac7,
    0xa086cfcd97bf97f4, 0xef340a98172aace5, 0xb23867fb2a35b28e,
    0x84c8d4dfd2c63f3b, 0xc5dd44271ad3cdba, 0x936b9fcebb25c996,
    0xdbac6c247d62a584, 0xa3ab66580d5fdaf6, 0xf3e2f893dec3f126,
    0xb5b5ada8aaff80b8, 0x87625f056c7c4a8b, 0xc9bcff6034c13053,
    0x964e858c91ba2655, 0xdff9772470297ebd, 0xa6dfbd9fb8e5b88f,
    0xf8a95fcf88747d94, 0xb94470938fa89bcf, 0x8a08f0f8bf0f156b,
    0xcdb02555653131b6, 0x993fe2c6d07b7fac, 0xe45c10c42a2b3b06,
    0xaa242499697392d3, 0xfd87b5f28300ca0e, 0xbce5086492111aeb,
    0x8cbccc096f5088cc, 0xd1b71758e219652c, 0x9c40000000000000,
    0xe8d4a51000000000, 0xad78ebc5ac620000, 0x813f3978f8940984,
    0xc097ce7bc90715b3, 0x8f7e32ce7bea5c70, 0xd5d238a4abe98068,
    0x9f4f2726179a2245, 0xed63a231d4c4fb27, 0xb0de65388cc8ada8,
    0x83c7088e1aab65db, 0xc45d1df942711d9a, 0x924d692ca61be758,
    0xda01ee641a708dea, 0xa26da3999aef774a, 0xf209787bb47d6b85,
    0xb454e4a179dd1877, 0x865b86925b9bc5c2, 0xc83553c5c8965d3d,
    0x952ab45cfa97a0b3, 0xde469fbd99a05fe3, 0xa59bc234db398c25,
    0xf6c69a72a3989f5c, 0xb7dcbf5354e9bece, 0x88fcf317f22241e2,
    0xcc20ce9bd35c78a5, 0x98165af37b2153df, 0xe2a0b5dc971f303a,
    0xa8d9d1535ce3b396, 0xfb9b7cd9a4a7443c, 0xbb764c4ca7a44410,
    0x8bab8eefb6409c1a, 0xd01fef10a657842c, 0x9b10a4e5e9913129,
    0xe7109bfba19c0c9d, 0xac2820d9623bf429, 0x80444b5e7aa7cf85,
    0xbf21e44003acdd2d, 0x8e679c2f5e44ff8f, 0xd433179d9c8cb841,
    0x9e19db92b4e31ba9, 0xeb96bf6ebadf77d9, 0xaf87023b9bf0ee6b
  ]

def kCachedPowersE : List ℤ :=
  [
    -1220, -1193, -1166, -1140, -1113, -1087, -1060, -1034, -1007, -980,
    -954, -927, -901, -874, -847, -821, -794, -768, -741, -715,
    -688, -661, -635, -608, -582, -555, -529, -502, -475, -449,
    -422, -396, -369, -343, -316, -289, -263, -236, -210, -183,
    -157, -130, -103, -77, -50, -24, 3, 30, 56, 83,
    109, 136, 162, 189, 216, 242, 269, 295, 322, 348,
    375, 402, 428, 455, 481, 508, 534, 561, 588, 614,
    641, 667, 694, 720, 747, 774, 800, 827, 853, 880,
    907, 933, 960, 986, 1013, 1039, 1066
  ]

/-- The estimate of the decimal exponent, in the arithmetic of `double`. -/
def decimalEstimate (e : ℤ) : Scaled :=
  let factor := Scaled.ofFraction 53 30102999566398114 (10 ^ 17)
  Scaled.add 53 (Scaled.mul 53 (Scaled.ofInt (-61 - e)) factor)
    (Scaled.ofInt 347)

def cachedIndex (e : ℤ) : ℕ :=
  let dk := decimalEstimate e
  let k := dk.truncate
  let k := if Scaled.same (Scaled.ofInt k) dk then k else k + 1
  (((k >>> (3 : ℕ)) + 1) % 4294967296).toNat

/-- The power, and the exponent `K` of the scaled number. -/
def getCachedPower (e : ℤ) : DiyFp × ℤ :=
  let index := cachedIndex e
  ({ f := kCachedPowersF.getD index 0, e := kCachedPowersE.getD index 0 },
    -(-348 + toInt32 ((index <<< 3) % 4294967296 : ℕ)))

/-! ## Digits -/

def kPow10 : List ℕ :=
  [1, 10, 100, 1000, 10000, 100000, 1000000, 10000000, 100000000, 1000000000]

/-- An element of `kPow10`.  Behind the last one stands whatever the compiler
has put there. -/
def readPow10 (behind : ℕ → ℕ) (i : ℕ) : ℕ :=
  if i < 10 then kPow10.getD i 0 else behind i % 4294967296

/-- `buffer[len - 1]--`. -/
def decrementLast (buffer : List Byte) : List Byte :=
  buffer.modify (buffer.length - 1) (· - 1)

/-- One round of the loop of `GrisuRound`. -/
def grisuRoundBody (delta tenKappa wpW : ℕ) :
    ℕ × List Byte → (ℕ × List Byte) ⊕ List Byte
  | (rest, buffer) =>
      if rest < wpW ∧ tenKappa ≤ toUInt64 (delta - rest) ∧
          (toUInt64 (rest + tenKappa) < wpW ∨
            toUInt64 (rest + tenKappa - wpW) < toUInt64 (wpW - rest)) then
        .inl (toUInt64 (rest + tenKappa), decrementLast buffer)
      else .inr buffer

def grisuRound
    (fuel : ℕ) (buffer : List Byte) (delta rest tenKappa wpW : ℕ) :
    Option (List Byte) :=
  iterate (grisuRoundBody delta tenKappa wpW) fuel (rest, buffer)

def countDecimalDigit32 (n : ℕ) : ℕ :=
  if n < 10 then 1
  else if n < 100 then 2
  else if n < 1000 then 3
  else if n < 10000 then 4
  else if n < 100000 then 5
  else if n < 1000000 then 6
  else if n < 10000000 then 7
  else if n < 100000000 then 8
  else if n < 1000000000 then 9
  else 10

/-- `if (d || *len) buffer[(*len)++] = '0' + d`. -/
def pushDigit (buffer : List Byte) (d : ℕ) : List Byte :=
  if d ≠ 0 ∨ buffer ≠ [] then buffer ++ [digitByte d] else buffer

/-- What `DigitGen` has when it calls `GrisuRound`. -/
structure DigitsDone where
  buffer : List Byte
  delta : ℕ
  rest : ℕ
  tenKappa : ℕ
  kappa : ℤ
deriving DecidableEq

/-- The loop over the integral part, left early or with all its digits. -/
def integralDigits (shift delta p2 : ℕ) :
    ℕ → ℕ → List Byte → DigitsDone ⊕ List Byte
  | 0, _, buffer => .inr buffer
  | kappa + 1, p1, buffer =>
      -- the case of the switch for this `kappa`
      let d := p1 / 10 ^ kappa
      let p1 := p1 % 10 ^ kappa
      let buffer := pushDigit buffer d
      let tmp := toUInt64 (toUInt64 (p1 <<< shift : ℕ) + p2)
      if tmp ≤ delta then
        .inl
          { buffer := buffer
            delta := delta
            rest := tmp
            tenKappa := toUInt64 (kPow10.getD kappa 0 <<< shift : ℕ)
            kappa := kappa }
      else integralDigits shift delta p2 kappa p1 buffer

structure Fraction where
  p2 : ℕ
  delta : ℕ
  kappa : ℤ
  buffer : List Byte

/-- One round of the loop over the fractional part. -/
def fractionBody (shift : ℕ) (state : Fraction) : Fraction ⊕ DigitsDone :=
  let p2 := toUInt64 (state.p2 * 10 : ℕ)
  let delta := toUInt64 (state.delta * 10 : ℕ)
  let d := (p2 >>> shift) % 256
  let buffer := pushDigit state.buffer d
  let p2 := p2 &&& (1 <<< shift - 1)
  let kappa := state.kappa - 1
  if p2 < delta then
    .inr
      { buffer := buffer
        delta := delta
        rest := p2
        tenKappa := 1 <<< shift
        kappa := kappa }
  else .inl { p2 := p2, delta := delta, kappa := kappa, buffer := buffer }

/-- The loops of `DigitGen`. -/
def generateDigits (fuel : ℕ) (mp : DiyFp) (delta : ℕ) : Option DigitsDone :=
  let shift := (-mp.e).toNat
  let p1 := (mp.f >>> shift) % 4294967296
  let p2 := mp.f &&& (1 <<< shift - 1)
  match integralDigits shift delta p2 (countDecimalDigit32 p1) p1 [] with
  | .inl done => some done
  | .inr buffer =>
      iterate (fractionBody shift) fuel
        { p2 := p2, delta := delta, kappa := 0, buffer := buffer }

/-- The last argument of `GrisuRound`: the table is read in the second loop. -/
def DigitsDone.wpW (behind : ℕ → ℕ) (done : DigitsDone) (wpW : ℕ) : ℕ :=
  if 0 ≤ done.kappa then wpW
  else toUInt64 (wpW * readPow10 behind (-done.kappa).toNat : ℕ)

def digitGen
    (behind : ℕ → ℕ) (fuel : ℕ) (w mp : DiyFp) (delta : ℕ) (k : ℤ) :
    Option (List Byte × ℤ) := do
  let wpW := mp.sub w
  let done ← generateDigits fuel mp delta
  let buffer ←
    grisuRound fuel done.buffer done.delta done.rest done.tenKappa
      (done.wpW behind wpW.f)
  some (buffer, k + done.kappa)

/-- The digits and the exponent of the last one. -/
def grisu2 (behind : ℕ → ℕ) (fuel bits : ℕ) : Option (List Byte × ℤ) := do
  let v := DiyFp.ofDouble bits
  let (wM, wP) ← v.normalizedBoundaries fuel
  let (cMk, k) := getCachedPower wP.e
  let w := v.normalize.mul cMk
  let wp := wP.mul cMk
  let wm := wM.mul cMk
  let wm : DiyFp := { wm with f := toUInt64 (wm.f + 1) }
  let wp : DiyFp := { wp with f := toUInt64 (wp.f - 1) }
  digitGen behind fuel w wp (toUInt64 (wp.f - wm.f)) k

end GreenTurtle.Num2a
