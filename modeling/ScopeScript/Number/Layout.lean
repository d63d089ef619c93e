import ScopeScript.Number.Shortest

/-! # Writing numbers

One rule writes every number: whole numbers below a bound are written out exactly, all others by
their shortest digits, positionally or with an exponent. The decisions that differ between the
texts of the language are the fields of a `Layout`.
-/

namespace ScopeScript.Number

/-- The decisions of one way to write numbers. -/
structure Layout where
  /-- Whole numbers of smaller magnitude are written out exactly; without a bound, all are. -/
  exactBelow : Option Nat := none
  /-- What follows a whole number that is written out exactly. -/
  exactSuffix : String := ""
  /-- What follows shortest digits in which no point stands. -/
  wholeSuffix : String := ""
  /-- Whether a negative zero keeps its sign. -/
  signedZero : Bool := true
  /-- Which of two equally near decimals is written. -/
  halfway : Halfway := .up
  /-- The exponents of the first digit that are written positionally; without bounds, all are. -/
  positional : Option (Int × Int) := none
  /-- The text of what is not a number. -/
  nan : String := "NaN"
  /-- The text of an infinity, by its sign. -/
  infinite : Bool → String := fun negative => if negative then "-inf" else "inf"

/-- A sign, if there is one, in front of a text. -/
def signed (negative : Bool) (text : String) : String :=
  if negative then "-" ++ text else text

/-- The decimal in positional notation, `suffix` standing in for a fraction where there is none. -/
def Decimal.positional (d : Decimal) (suffix : String) : String :=
  let digits := Nat.toDigits 10 d.digits
  match d.exponent with
  | .ofNat zeros => String.ofList (digits ++ List.replicate zeros '0') ++ suffix
  | .negSucc places =>
    let places := places + 1
    let padded := List.replicate (places + 1 - digits.length) '0' ++ digits
    let point := padded.length - places
    String.ofList (padded.take point ++ '.' :: padded.drop point)

/-- The exponent of the first digit. -/
def Decimal.magnitude (d : Decimal) : Int :=
  d.exponent + Int.ofNat (digitCount d.digits) - 1

/-- The decimal with one digit before the point and a signed exponent. -/
def Decimal.scientific (d : Decimal) : String :=
  let mantissa := match Nat.toDigits 10 d.digits with
    | first :: second :: rest => String.ofList (first :: '.' :: second :: rest)
    | digits => String.ofList digits
  let exponent := match d.magnitude with
    | .ofNat e => s!"+{e}"
    | .negSucc e => s!"-{e + 1}"
  s!"{mantissa}e{exponent}"

/-- The shortest digits of a positive number, laid out. -/
def Layout.digits (layout : Layout) (d : Decimal) : String :=
  match layout.positional with
  | none => d.positional layout.wholeSuffix
  | some (least, greatest) =>
    if least ≤ d.magnitude ∧ d.magnitude ≤ greatest then d.positional layout.wholeSuffix
    else d.scientific

/-- Whether a whole number is written out exactly. -/
def Layout.exact (layout : Layout) (n : Nat) : Bool :=
  match layout.exactBelow with
  | none => true
  | some bound => n < bound

/-- The text of a finite number. -/
def Layout.finite (layout : Layout) (negative : Bool) (mantissa : Nat) (exponent : Int) : String :=
  if mantissa = 0 then
    let suffix := if layout.exact 0 then layout.exactSuffix else layout.wholeSuffix
    signed (negative && layout.signedZero) ("0" ++ suffix)
  else
    let byDigits := layout.digits (shortest layout.halfway mantissa exponent)
    let text := match whole? mantissa exponent with
      | some n => if layout.exact n then toString n ++ layout.exactSuffix else byDigits
      | none => byDigits
    signed negative text

/-- The text of a number. -/
def Layout.write (layout : Layout) (x : Float) : String :=
  match parts x with
  | .nan => layout.nan
  | .infinite negative => layout.infinite negative
  | .finite negative mantissa exponent => layout.finite negative mantissa exponent

end ScopeScript.Number
