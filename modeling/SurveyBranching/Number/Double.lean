/-!
# Binary64 values as exact numbers

A double is either a finite value `(-1)^s · m · 2^q` with natural `m`, or one of the special
values. This module reads that form off the bit pattern and, the other way, builds the
double nearest to a non-negative rational `num / den`, halfway cases going to the even
mantissa. Both directions are written over `Nat` and `Int`, so that what they compute is in
the logic; `Float.ofBits` and `Float.toBits` are the only contact with the runtime's floats.

## Main definitions

* `Double.Parts`, `Double.parts`: sign, mantissa and binary exponent of a finite double.
* `Double.nearestBits`, `Double.nearest`: the double nearest to `num / den`.
* `Double.ofNat`: the double nearest to a natural number.
-/

namespace SurveyBranching.Double

/-- A finite double as `(-1)^negative · mantissa · 2^exponent`. For a normal double the
mantissa has 53 bits, the hidden one included; for a subnormal one or zero it is the stored
fraction and the exponent is `-1074`. -/
structure Parts where
  negative : Bool
  mantissa : Nat
  exponent : Int
  /-- Whether the double below this one in magnitude lies closer than the one above: true
  exactly at the powers of two that start a binade, other than the smallest. -/
  lowerCloser : Bool
deriving Repr, DecidableEq

/-- The biased exponent field of a bit pattern. -/
def exponentField (bits : UInt64) : Nat :=
  (bits.toNat / 4503599627370496) % 2048

/-- The fraction field of a bit pattern. -/
def fractionField (bits : UInt64) : Nat :=
  bits.toNat % 4503599627370496

/-- The sign bit of a bit pattern. -/
def signBit (bits : UInt64) : Bool :=
  bits.toNat ≥ 9223372036854775808

/-- The exact parts of a finite double, and `none` for an infinity or a NaN. -/
def parts (x : Float) : Option Parts :=
  let bits := x.toBits
  let e := exponentField bits
  let f := fractionField bits
  if e = 2047 then none
  else if e = 0 then some ⟨signBit bits, f, -1074, false⟩
  else some ⟨signBit bits, 4503599627370496 + f, (e : Int) - 1075, f = 0 && e > 1⟩

/-- `a / b` rounded to the nearest natural number, a half going to the even neighbour. -/
def divRoundEven (a b : Nat) : Nat :=
  let q := a / b
  let r := a % b
  if 2 * r > b || (2 * r = b && q % 2 = 1) then q + 1 else q

/-- The exact value `num / den · 2^(-e)` as a fraction of naturals. -/
def scaled (num den : Nat) (e : Int) : Nat × Nat :=
  if e ≥ 0 then (num, den * Nat.pow 2 e.toNat) else (num * Nat.pow 2 (-e).toNat, den)

/-- The exact value `num / den · 2^(-e)` rounded to a natural number, halves to even. -/
def scaledMantissa (num den : Nat) (e : Int) : Nat :=
  divRoundEven (scaled num den e).1 (scaled num den e).2

/-- The bit pattern of the double nearest to `num / den` (with `den > 0`), halfway cases to
the even mantissa; a value too large for any finite double gives infinity, as rounding to
nearest does past the largest finite double. -/
def nearestBits (num den : Nat) : UInt64 :=
  if num = 0 || den = 0 then 0
  else
    -- `num / den` lies in `[2^(l-1), 2^(l+1))`.
    let l : Int := (Nat.log2 num : Int) - (Nat.log2 den : Int)
    let e₀ : Int :=
      if (scaled num den (l - 52)).1 / (scaled num den (l - 52)).2 ≥ 4503599627370496 then l - 52 else l - 53
    let e₁ : Int := max e₀ (-1074)
    let m₁ := scaledMantissa num den e₁
    -- Rounding up may reach the next binade.
    let (m, e) := if m₁ = 9007199254740992 then (4503599627370496, e₁ + 1) else (m₁, e₁)
    if e + 1075 ≥ 2047 then 0x7FF0000000000000
    else if m < 4503599627370496 then UInt64.ofNat m
    else UInt64.ofNat ((e + 1075).toNat * 4503599627370496 + (m - 4503599627370496))

/-- The double nearest to `num / den`. -/
def nearest (num den : Nat) : Float :=
  Float.ofBits (nearestBits num den)

/-- The double nearest to a natural number. -/
def ofNat (n : Nat) : Float :=
  nearest n 1

/-- Minus zero, the double whose only set bit is the sign. -/
def negZero : Float :=
  Float.ofBits 0x8000000000000000

end SurveyBranching.Double
