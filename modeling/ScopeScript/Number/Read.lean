import ScopeScript.Number.Parts

/-! # Reading numbers

A decimal is digits with an optional fraction and an optional exponent, and stands for the nearest
double. The source language writes digits and a fraction only; signs, exponents and the names of the
non-finite numbers are for numbers that come from outside a program.
-/

namespace ScopeScript.Number

/-- The natural number that decimal digits stand for. -/
def ofDigits (digits : List Char) : Nat :=
  digits.foldl (fun n c => n * 10 + (c.toNat - '0'.toNat)) 0

/-- A signed exponent. -/
def exponent? (text : List Char) : Option Int :=
  let (negative, digits) := match text with
    | '-' :: digits => (true, digits)
    | '+' :: digits => (false, digits)
    | digits => (false, digits)
  if digits.isEmpty ∨ digits.any (!·.isDigit) then none
  else
    let n := Int.ofNat (ofDigits digits)
    some (if negative then -n else n)

/-- An unsigned decimal: digits on at least one side of an optional point, then an optional
exponent. -/
def unsigned? (text : List Char) : Option Float :=
  let before := text.takeWhile Char.isDigit
  let rest := text.dropWhile Char.isDigit
  let (after, rest) := match rest with
    | '.' :: rest => (rest.takeWhile Char.isDigit, rest.dropWhile Char.isDigit)
    | rest => ([], rest)
  if before.isEmpty ∧ after.isEmpty then none
  else
    let value (e : Int) := ofDecimal (ofDigits (before ++ after)) (e - Int.ofNat after.length)
    match rest with
    | [] => some (value 0)
    | mark :: rest => if mark = 'e' ∨ mark = 'E' then (exponent? rest).map value else none

/-- A number by its name or its decimal. -/
def magnitude? (text : List Char) : Option Float :=
  let name := String.ofList (text.map Char.toLower)
  if name = "inf" ∨ name = "infinity" then some (Float.ofBits 0x7FF0000000000000)
  else if name = "nan" then some (Float.ofBits 0x7FF8000000000000)
  else unsigned? text

/-- The number that a text stands for. -/
def parse? (text : String) : Option Float :=
  match text.toList with
  | '-' :: rest => (magnitude? rest).map Float.neg
  | '+' :: rest => magnitude? rest
  | rest => magnitude? rest

end ScopeScript.Number
