import ScopeScript.Number.Parts

/-! # The shortest decimal that reads back

Of all decimals that read back as a given double, the one with the fewest digits is written, and of
those the nearest to the exact value. The reals that read back form an interval around the value;
its ends belong to it exactly when the mantissa is even. Grids of one, two, … digits are tried in
turn, and on each of them only the two neighbours of the value can be the answer.
-/

namespace ScopeScript.Number

/-- The value `digits * 10 ^ exponent`. -/
structure Decimal where
  digits : Nat
  exponent : Int
  deriving DecidableEq

/-- Which of two equally near decimals is written. -/
inductive Halfway where
  /-- The one away from zero. -/
  | up
  /-- The one with an even last digit. -/
  | even
  deriving DecidableEq

/-- How many decimal digits a natural number has; zero has none. -/
def digitCount (n : Nat) : Nat :=
  if n = 0 then 0 else (Nat.toDigits 10 n).length

/-- The `k` with `10 ^ (k - 1) ≤ numerator / denominator < 10 ^ k`, for a positive quotient. -/
def decade (numerator denominator : Nat) : Int :=
  if denominator ≤ numerator then Int.ofNat (digitCount (numerator / denominator))
  else 1 - Int.ofNat (digitCount ((denominator + numerator - 1) / numerator - 1))

/-- The interval of reals that read back as a double: its ends and the value, all over one
denominator, and whether the ends belong to it. -/
structure Interval where
  low : Nat
  value : Nat
  high : Nat
  denominator : Nat
  closed : Bool

/-- The interval of `mantissa * 2 ^ exponent`. The gap below a power of two is half as wide. -/
def Interval.of (mantissa : Nat) (exponent : Int) : Interval :=
  let scale := pow2 (exponent - 2).toNat
  let below := if mantissa = pow2 52 then 1 else 2
  { low := (4 * mantissa - below) * scale
    value := 4 * mantissa * scale
    high := (4 * mantissa + 2) * scale
    denominator := pow2 (2 - exponent).toNat
    closed := mantissa % 2 = 0 }

/-- Whether `numerator / 1` over the interval's denominator lies in the interval. -/
def Interval.holds (i : Interval) (numerator : Nat) : Bool :=
  if i.closed then i.low ≤ numerator ∧ numerator ≤ i.high
  else i.low < numerator ∧ numerator < i.high

/-- The decimal on the grid of multiples of `10 ^ exponent` that reads back, if there is one. -/
def Interval.onGrid? (i : Interval) (halfway : Halfway) (exponent : Int) : Option Decimal :=
  -- Everything is multiplied by `shrink`, so that grid points are multiples of `unit`.
  let shrink := pow10 (-exponent).toNat
  let unit := pow10 exponent.toNat * i.denominator
  let i : Interval :=
    { i with low := i.low * shrink, value := i.value * shrink, high := i.high * shrink }
  let below := i.value / unit
  let rest := 2 * (i.value % unit)
  let above := below + 1
  match i.holds (below * unit), i.holds (above * unit) with
  | true, true =>
    if rest < unit ∨ (rest = unit ∧ halfway = .even ∧ below % 2 = 0)
    then some ⟨below, exponent⟩ else some ⟨above, exponent⟩
  | true, false => some ⟨below, exponent⟩
  | false, true => some ⟨above, exponent⟩
  | false, false => none

/-- Drop trailing zeros, at most `fuel` of them. -/
def Decimal.trim : Nat → Decimal → Decimal
  | 0, d => d
  | fuel + 1, d =>
    if d.digits ≠ 0 ∧ d.digits % 10 = 0 then
      Decimal.trim fuel ⟨d.digits / 10, d.exponent + 1⟩
    else d

/-- The shortest decimal that reads back as the positive double `mantissa * 2 ^ exponent`. Seventeen
digits always suffice. -/
def shortest (halfway : Halfway) (mantissa : Nat) (exponent : Int) : Decimal :=
  let i := Interval.of mantissa exponent
  let top := decade i.value i.denominator
  let grids := (List.range 17).map fun n => top - 1 - Int.ofNat n
  match grids.findSome? (i.onGrid? halfway) with
  | some d => d.trim 18
  | none => ⟨i.value / i.denominator, 0⟩

end ScopeScript.Number
