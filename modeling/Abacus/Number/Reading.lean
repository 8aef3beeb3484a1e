import Abacus.Number.Nearest
import Abacus.Number.Special
import Abacus.Text.Numeric

/-!
# Reading numerals

`Number.read?` reads a numeral as people write it: padded with blanks, with a sign, with the digits
of any script, with underscores between digits, with a point and an exponent, or as a name of
infinity or of what is no number. The result is the number nearest to the decimal.
-/

namespace Abacus.Number

/-- The number nearest to `digits * 10 ^ exponent`. What lies beyond the range on either side is
infinity or zero without looking closer. -/
def ofDecimal (digits : Nat) (exponent : Int) : Float :=
  if digits = 0 then 0
  else
    let places : Nat := digits.log2 / 3 + 1
    if 400 < exponent then infinity
    else if places + exponent < -400 then 0
    else nearest false (digits * tenTo exponent.toNat) (tenTo (-exponent).toNat)

/-- The whole number that a run of ASCII digits writes. -/
def ofDigits (digits : List Char) : Nat :=
  digits.foldl (fun n c => 10 * n + (c.toNat - '0'.toNat)) 0

/-- Takes the underscores out; each must stand between two digits. `before` tells whether a digit
stands before the text. -/
def dropUnderscores (before : Bool) : List Char → Option (List Char)
  | [] => some []
  | '_' :: c :: rest =>
    if before && c.isDigit then (dropUnderscores true rest).map (c :: ·) else none
  | c :: rest =>
    if c = '_' then none else (dropUnderscores c.isDigit rest).map (c :: ·)

/-- The value of the part of a decimal behind its exponent letter. -/
def readExponent? (cs : List Char) : Option Int :=
  let (negative, digits) := match cs with
    | '-' :: rest => (true, rest)
    | '+' :: rest => (false, rest)
    | rest => (false, rest)
  if digits.isEmpty || !digits.all Char.isDigit then none
  else if negative then some (-(ofDigits digits : Int)) else some (ofDigits digits)

/-- The value of a decimal without its sign: digits with or without a point, then maybe an
exponent. -/
def readDecimal? (cs : List Char) : Option Float :=
  let whole := cs.takeWhile Char.isDigit
  let afterWhole := cs.dropWhile Char.isDigit
  let (fraction, rest) := match afterWhole with
    | '.' :: rest => (rest.takeWhile Char.isDigit, rest.dropWhile Char.isDigit)
    | rest => ([], rest)
  let digits := whole ++ fraction
  let value (exponent : Int) := ofDecimal (ofDigits digits) (exponent - fraction.length)
  if digits.isEmpty then none
  else match rest with
    | [] => some (value 0)
    | c :: exponent =>
      if c = 'e' || c = 'E' then (readExponent? exponent).map value else none

/-- The value of a numeral without its sign. -/
def readUnsigned? (cs : List Char) : Option Float :=
  let name := cs.map Char.toLower
  if name = "inf".toList || name = "infinity".toList then some infinity
  else if name = "nan".toList then some notANumber
  else readDecimal? cs

/-- The text without the padding at both ends. -/
def trimPadding (cs : List Char) : List Char :=
  ((cs.dropWhile Text.isPadding).reverse.dropWhile Text.isPadding).reverse

/-- A digit of any script as the ASCII digit of its value; other characters stay. -/
def plainDigit (c : Char) : Char :=
  match Text.digitValue? c with
  | some d => Char.ofNat ('0'.toNat + d)
  | none => c

/-- The number that a numeral writes, if the text is one. -/
def read? (s : String) : Option Float :=
  match dropUnderscores false ((trimPadding s.toList).map plainDigit) with
  | none => none
  | some ('-' :: rest) => (readUnsigned? rest).map Float.neg
  | some ('+' :: rest) => readUnsigned? rest
  | some rest => readUnsigned? rest

end Abacus.Number
