import SurveyBranching.Number.Double
/-!
# Shortest decimal digits of a double

A positive finite double `v = m · 2^q` is read back from any decimal inside its rounding
interval: the reals that round to `v` under round-to-nearest, halves to even. That interval
runs from the midpoint with the double below to the midpoint with the double above, both
ends included exactly when `m` is even.

`Shortest.digits` finds the fewest significant digits `d` and the exponent `k` such that
`d · 10^k` lies in the interval; of the two grid points next to `v` at that length it takes
the nearer, and an exact tie goes to the even digit string. All comparisons are exact
comparisons of fractions of naturals.

## Main definitions

* `Shortest.Decimal`: digits and exponent, the value being `digits · 10^exponent`.
* `Shortest.digits`: the shortest decimal that reads back as the given double.
-/

namespace SurveyBranching.Shortest

/-- A decimal `digits · 10^exponent`. -/
structure Decimal where
  digits : Nat
  exponent : Int
deriving Repr, DecidableEq

/-- `a / b ≤ c / d` for fractions with positive denominators. -/
def fracLe (a : Nat × Nat) (b : Nat × Nat) : Bool :=
  a.1 * b.2 ≤ b.1 * a.2

/-- `a / b < c / d` for fractions with positive denominators. -/
def fracLt (a : Nat × Nat) (b : Nat × Nat) : Bool :=
  a.1 * b.2 < b.1 * a.2

/-- `n · 2^e` as a fraction. -/
def binaryFrac (n : Nat) (e : Int) : Nat × Nat :=
  if e ≥ 0 then (n * Nat.pow 2 e.toNat, 1) else (n, Nat.pow 2 (-e).toNat)

/-- `n · 10^e` as a fraction. -/
def decimalFrac (n : Nat) (e : Int) : Nat × Nat :=
  if e ≥ 0 then (n * Nat.pow 10 e.toNat, 1) else (n, Nat.pow 10 (-e).toNat)

/-- The number of decimal digits of a positive natural number. -/
def digitCount (n : Nat) : Nat :=
  (Nat.toDigits 10 n).length

/-- The exponent of the leading digit of `a / b > 0`: the `e` with `10^e ≤ a / b < 10^(e+1)`. -/
def leadExponent (a b : Nat) : Int :=
  if a ≥ b then (digitCount (a / b) : Int) - 1
  else
    -- The least `j` with `10^j · a ≥ b` is the digit count of `⌈b / a⌉ - 1`.
    -(digitCount ((b + a - 1) / a - 1) : Int)

/-- The rounding interval of a positive double given by its parts: lower end, upper end,
and whether the ends belong to it. -/
def interval (p : Double.Parts) : (Nat × Nat) × (Nat × Nat) × Bool :=
  let low :=
    if p.lowerCloser then binaryFrac (4 * p.mantissa - 1) (p.exponent - 2)
    else binaryFrac (2 * p.mantissa - 1) (p.exponent - 1)
  let high := binaryFrac (2 * p.mantissa + 1) (p.exponent - 1)
  (low, high, p.mantissa % 2 == 0)

/-- Whether a fraction lies in a rounding interval. -/
def inInterval (iv : (Nat × Nat) × (Nat × Nat) × Bool) (x : Nat × Nat) : Bool :=
  if iv.2.2 then fracLe iv.1 x && fracLe x iv.2.1 else fracLt iv.1 x && fracLt x iv.2.1

/-- Removes trailing zero digits, raising the exponent for each. -/
def Decimal.trim (d : Decimal) : Decimal :=
  if h : d.digits ≠ 0 ∧ d.digits % 10 = 0 then
    Decimal.trim ⟨d.digits / 10, d.exponent + 1⟩
  else d
termination_by d.digits
decreasing_by exact Nat.div_lt_self (Nat.pos_of_ne_zero h.1) (by decide)

/-- The candidate of `len` significant digits for a value `v = a / b` whose leading digit has
exponent `lead`: of the two grid points around `v` that lie in the interval, the nearer, and
of two at equal distance the even one. -/
def candidate (iv : (Nat × Nat) × (Nat × Nat) × Bool) (a b : Nat) (lead : Int) (len : Nat) :
    Option Decimal :=
  let k : Int := lead - len + 1
  -- `v / 10^k` as the fraction `(a * s) / (b * t)`.
  let (s, t) := if k ≥ 0 then (1, Nat.pow 10 k.toNat) else (Nat.pow 10 (-k).toNat, 1)
  let below := a * s / (b * t)
  let above := below + 1
  let okBelow := inInterval iv (decimalFrac below k)
  let okAbove := inInterval iv (decimalFrac above k)
  -- Twice the distance from `v / 10^k` up to `above` and down to `below`, over `b * t`.
  let upDist := 2 * (above * b * t - a * s)
  let downDist := 2 * (a * s - below * b * t)
  match okBelow, okAbove with
  | true, true =>
    if downDist < upDist || (downDist = upDist && below % 2 = 0) then some ⟨below, k⟩
    else some ⟨above, k⟩
  | true, false => some ⟨below, k⟩
  | false, true => some ⟨above, k⟩
  | false, false => none

/-- The first length from `len` to `len + fuel - 1` that has a candidate. -/
def firstCandidate (iv : (Nat × Nat) × (Nat × Nat) × Bool) (a b : Nat) (lead : Int) :
    Nat → Nat → Option Decimal
  | _, 0 => none
  | len, fuel + 1 =>
    match candidate iv a b lead len with
    | some d => some d
    | none => firstCandidate iv a b lead (len + 1) fuel

/-- The shortest decimal that reads back as the positive double with these parts. Seventeen
significant digits always suffice for a double, so the search never comes back empty and
the zero after it is never reached. -/
def digits (p : Double.Parts) : Decimal :=
  let (a, b) := binaryFrac p.mantissa p.exponent
  let lead := leadExponent a b
  match firstCandidate (interval p) a b lead 1 17 with
  | some d => d.trim
  | none => ⟨0, 0⟩

end SurveyBranching.Shortest
