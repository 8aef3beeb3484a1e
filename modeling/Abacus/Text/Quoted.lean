import Abacus.Text.CodePoint
import Abacus.Text.Printable

/-!
# Quoted text

How a text is shown inside a message or an outline: between quotation marks, with whatever would be
invisible or would end the quotation written as an escape.
-/

namespace Abacus.Text

/-- The lower-case hexadecimal digits of `n`, with leading zeros up to `width` digits. -/
def hexPadded (width n : Nat) : List Char :=
  let digits := Nat.toDigits 16 n
  List.replicate (width - digits.length) '0' ++ digits

/-- Double quotation marks are used only for a text that has single ones and no double ones. -/
def quotationMark (cs : List Char) : Char :=
  if cs.contains '\x27' && !cs.contains '"' then '"' else '\x27'

/-- One character between the quotation marks `mark`. -/
def quoteChar (mark c : Char) : List Char :=
  if c = mark || c = '\\' then ['\\', c]
  else if c = '\n' then ['\\', 'n']
  else if c = '\r' then ['\\', 'r']
  else if c = '\t' then ['\\', 't']
  else if isPrintable c then [c]
  else if c.toNat < 0x100 then '\\' :: 'x' :: hexPadded 2 c.toNat
  else if c.toNat < 0x10000 then '\\' :: 'u' :: hexPadded 4 c.toNat
  else '\\' :: 'U' :: hexPadded 8 c.toNat

/-- The text between quotation marks. -/
def quote (s : String) : String :=
  let cs := s.toList
  let mark := quotationMark cs
  String.ofList (mark :: cs.flatMap (quoteChar mark) ++ [mark])

/-- One code point between the quotation marks `mark`. -/
def quotePoint (mark : Char) : CodePoint → List Char
  | .char c => quoteChar mark c
  | .half offset => '\\' :: 'u' :: hexPadded 4 (0xD800 + offset)

/-- The text with the given code points between quotation marks. -/
def quotePoints (ps : List CodePoint) : String :=
  let mark := quotationMark (ps.filterMap CodePoint.char?)
  String.ofList (mark :: ps.flatMap (quotePoint mark) ++ [mark])

/-- A string is quoted in the same way by its code points. -/
@[simp] theorem quotePoints_points (s : String) : quotePoints (points s) = quote s := by
  have hchars : (points s).filterMap CodePoint.char? = s.toList := by
    rw [points, List.filterMap_map]
    exact List.filterMap_some
  rw [quotePoints, quote, hchars, points, List.flatMap_map]
  rfl

end Abacus.Text
