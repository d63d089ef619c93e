/-! # The exact value of a number

A number of the language is a double. Every text of it starts from the exact value that its bits
stand for, a natural number times a power of two, and never from an approximate conversion.
-/

namespace ScopeScript.Number

/-- Two to a power. -/
def pow2 (exponent : Nat) : Nat :=
  Nat.pow 2 exponent

/-- Ten to a power. -/
def pow10 (exponent : Nat) : Nat :=
  Nat.pow 10 exponent

/-- What the bits of a double stand for. -/
inductive Parts where
  /-- Not a number. -/
  | nan
  /-- An infinity. -/
  | infinite (negative : Bool)
  /-- The value `mantissa * 2 ^ exponent`, negated if `negative`. -/
  | finite (negative : Bool) (mantissa : Nat) (exponent : Int)
  deriving DecidableEq

/-- The parts of the double with the given bits. -/
def Parts.ofBits (bits : Nat) : Parts :=
  let negative := pow2 63 ≤ bits
  let power := bits / pow2 52 % pow2 11
  let fraction := bits % pow2 52
  if power = 2047 then
    if fraction = 0 then .infinite negative else .nan
  else if power = 0 then .finite negative fraction (-1074)
  else .finite negative (pow2 52 + fraction) (Int.ofNat power - 1075)

/-- The parts of a double. -/
def parts (x : Float) : Parts :=
  .ofBits x.toBits.toNat

/-- The natural number `mantissa * 2 ^ exponent`, if it is one. -/
def whole? (mantissa : Nat) : Int → Option Nat
  | .ofNat power => some (mantissa * pow2 power)
  | .negSucc power =>
    if mantissa % pow2 (power + 1) = 0 then some (mantissa / pow2 (power + 1)) else none

/-- The double nearest to `numerator / denominator`, an exact half going to the even neighbour and
anything past the largest finite double to infinity. The denominator is not zero. -/
def ofRatio (numerator denominator : Nat) : Float :=
  if numerator = 0 then 0.0 else
    -- The quotient divided by `2 ^ power` has at least 53 bits before the point.
    let power : Int := Int.ofNat numerator.log2 - Int.ofNat denominator.log2 - 53
    let scaled (q : Int) : Nat × Nat :=
      (numerator * pow2 (-q).toNat, denominator * pow2 q.toNat)
    let power := if pow2 53 ≤ (scaled power).1 / (scaled power).2 then power + 1 else power
    let power := max power (-1074)
    let (n, d) := scaled power
    let below := n / d
    let rest := 2 * (n % d)
    let mantissa := if d < rest ∨ (rest = d ∧ below % 2 = 1) then below + 1 else below
    let bits := (power + 1074).toNat * pow2 52 + mantissa
    Float.ofBits (UInt64.ofNat (min bits (2047 * pow2 52)))

/-- The double nearest to `digits * 10 ^ exponent`. -/
def ofDecimal (digits : Nat) (exponent : Int) : Float :=
  let decades := Int.ofNat (Nat.toDigits 10 digits).length + exponent
  if digits = 0 ∨ decades < -330 then 0.0
  else if 330 < decades then Float.ofBits 0x7FF0000000000000
  else ofRatio (digits * pow10 exponent.toNat) (pow10 (-exponent).toNat)

end ScopeScript.Number
