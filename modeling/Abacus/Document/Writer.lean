import Abacus.Document.Basic

/-!
# Writing documents

A document is written on one line, or with one item on each line, two blanks deeper than the bracket
around it. The text is ASCII: every other character is written as one or two escapes of sixteen
bits.
-/

namespace Abacus.Document

/-- How numbers are laid out in documents: as elsewhere, except for the names of what is no digit
sequence. -/
def numberLayout : Number.Layout :=
  { Number.standardLayout with infinity := "Infinity", notANumber := "NaN" }

/-- A unit of sixteen bits as an escape. -/
def unitEscape (n : Nat) : List Char := '\\' :: 'u' :: Text.hexPadded 4 n

/-- A character of a text between quotation marks. -/
def writeChar (c : Char) : List Char :=
  if c = '"' || c = '\\' then ['\\', c]
  else if c = '\n' then ['\\', 'n']
  else if c = '\r' then ['\\', 'r']
  else if c = '\t' then ['\\', 't']
  else if c = '\x08' then ['\\', 'b']
  else if c = '\x0c' then ['\\', 'f']
  else if ' ' ≤ c && c ≤ '~' then [c]
  else if c.toNat < 0x10000 then unitEscape c.toNat
  else
    let n := c.toNat - 0x10000
    unitEscape (0xD800 + n / 0x400) ++ unitEscape (0xDC00 + n % 0x400)

/-- A code point of a text between quotation marks. -/
def writePoint : CodePoint → List Char
  | .char c => writeChar c
  | .half offset => unitEscape (0xD800 + offset)

/-- A text between quotation marks, before `tail`. -/
def writeText (ps : List CodePoint) (tail : List Char) : List Char :=
  '"' :: (ps.flatMap writePoint ++ '"' :: tail)

/-- A line break and the indentation of a level, where items stand on lines of their own. -/
def lineBreak (pretty : Bool) (level : Nat) (tail : List Char) : List Char :=
  if pretty then '\n' :: (List.replicate (2 * level) ' ' ++ tail) else tail

/-- What stands between two items of a level. -/
def itemBreak (pretty : Bool) (level : Nat) (tail : List Char) : List Char :=
  ',' :: if pretty then lineBreak true level tail else ' ' :: tail

mutual

/-- The text of a document before `tail`; its first line is indented by a level already. -/
def writeAt (pretty : Bool) (level : Nat) (tail : List Char) : Document → List Char
  | null => "null".toList ++ tail
  | bool b => (if b then "true" else "false").toList ++ tail
  | int n => (toString n).toList ++ tail
  | float x => (numberLayout.write x).toList ++ tail
  | text ps => writeText ps tail
  | list [] => '[' :: ']' :: tail
  | list (d :: ds) =>
    '[' :: lineBreak pretty (level + 1) (writeAt pretty (level + 1)
      (writeItems pretty (level + 1) (lineBreak pretty level (']' :: tail)) ds) d)
  | object [] => '\x7b' :: '\x7d' :: tail
  | object ((key, d) :: fields) =>
    '\x7b' :: lineBreak pretty (level + 1) (writeText key (':' :: ' ' ::
      writeAt pretty (level + 1)
        (writeFields pretty (level + 1) (lineBreak pretty level ('\x7d' :: tail)) fields) d))

/-- The items after the first one, before `tail`. -/
def writeItems (pretty : Bool) (level : Nat) (tail : List Char) : List Document → List Char
  | [] => tail
  | d :: ds =>
    itemBreak pretty level (writeAt pretty level (writeItems pretty level tail ds) d)

/-- The fields after the first one, before `tail`. -/
def writeFields (pretty : Bool) (level : Nat) (tail : List Char) :
    List (List CodePoint × Document) → List Char
  | [] => tail
  | (key, d) :: fields =>
    itemBreak pretty level (writeText key (':' :: ' ' ::
      writeAt pretty level (writeFields pretty level tail fields) d))

end

/-- The text of a document, on one line or, if `pretty`, on many. -/
def write (pretty : Bool) (d : Document) : String := String.ofList (writeAt pretty 0 [] d)

end Abacus.Document
