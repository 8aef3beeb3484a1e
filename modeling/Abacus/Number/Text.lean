import Abacus.Number.Shortest

/-!
# The text of a number

Numbers are written with the fewest digits that read back, laid out as `Layout` says. A second form,
`plain`, writes whole numbers without a point.
-/

namespace Abacus.Number

/-- How the digits of a number are set out. -/
structure Layout where
  /-- The least exponent of the leading digit that is written positionally. -/
  positionalFrom : Int
  /-- The first exponent of the leading digit that is not written positionally any more. -/
  positionalBelow : Int
  /-- What follows the digits of a whole number. -/
  wholeTail : String
  /-- What stands before an exponent. -/
  exponentMark : String
  /-- The least number of digits of an exponent. -/
  exponentWidth : Nat
  /-- The text of infinity. -/
  infinity : String
  /-- The text of what is no number. -/
  notANumber : String
deriving Repr, DecidableEq

/-- Numbers from `0.0001` up to sixteen digits before the point are written positionally, others
with a signed exponent of two digits or more. -/
def standardLayout : Layout where
  positionalFrom := -4
  positionalBelow := 16
  wholeTail := ".0"
  exponentMark := "e"
  exponentWidth := 2
  infinity := "inf"
  notANumber := "nan"

namespace Layout

/-- A run of zeros. -/
def zeros (n : Nat) : List Char := List.replicate n '0'

/-- Digits with the point after the digit of weight one; `e` is the exponent of the first digit. -/
def positional (l : Layout) (digits : List Char) (e : Int) : List Char :=
  if e < 0 then '0' :: '.' :: zeros (-e - 1).toNat ++ digits
  else
    let whole := e.toNat + 1
    if digits.length ≤ whole then
      digits ++ zeros (whole - digits.length) ++ l.wholeTail.toList
    else digits.take whole ++ '.' :: digits.drop whole

/-- Digits with the point after the first one and the exponent behind. -/
def scientific (l : Layout) (digits : List Char) (e : Int) : List Char :=
  let fraction := digits.drop 1
  let exponent := Nat.toDigits 10 e.natAbs
  digits.take 1 ++ (if fraction.isEmpty then [] else '.' :: fraction) ++
    l.exponentMark.toList ++ [if e < 0 then '-' else '+'] ++
    zeros (l.exponentWidth - exponent.length) ++ exponent

/-- The text of a decimal that is not zero. -/
def decimal (l : Layout) (d : Decimal) : List Char :=
  let digits := Nat.toDigits 10 d.digits
  let e := d.exponent + digits.length - 1
  if l.positionalFrom ≤ e && e < l.positionalBelow then l.positional digits e
  else l.scientific digits e

/-- The text of a number. -/
def write (l : Layout) (x : Float) : String :=
  match Dyadic.ofFloat? x with
  | none =>
    if x.isNaN then l.notANumber else if x < 0 then "-" ++ l.infinity else l.infinity
  | some d =>
    let sign := if d.negative then ['-'] else []
    let size := if d.mantissa = 0 then '0' :: l.wholeTail.toList
      else l.decimal (shortest d.mantissa d.exponent)
    String.ofList (sign ++ size)

end Layout

/-- The text of a number in messages, traces and outlines. -/
def text (x : Float) : String := standardLayout.write x

/-- The text of a number in programs and printed output: a whole number is written with all its
digits and no point, so that zero is `0` whatever its sign. -/
def plain (x : Float) : String :=
  match Dyadic.ofFloat? x with
  | some d => if d.isWhole then toString d.truncate else text x
  | none => text x

end Abacus.Number
