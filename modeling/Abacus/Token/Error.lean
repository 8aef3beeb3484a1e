import Abacus.Token.Scan

/-!
# Errors of reading

A source fails to be read for one of two reasons: a character that no token starts with, or a token
that cannot stand where it stands. The second kind says what could have stood there.
-/

namespace Abacus

/-- The message of a failed scan. -/
def ScanError.message : ScanError → String
  | unexpectedChar c pos =>
    "Unexpected character '" ++ String.singleton c ++ "' at position " ++ toString pos
  | stalled pos => "Empty delimiter at position " ++ toString pos

/-- What could have stood where a token list goes wrong. -/
inductive Expectation where
  | text (text : String)
  | parameterName
  | functionName
  | expression
  | separator
  | endOfExpression
  /-- The partner of the opening parenthesis at `opened`. -/
  | closing (opened : Nat)
deriving Repr, DecidableEq

namespace Expectation

/-- The expectation in words. -/
def phrase : Expectation → String
  | text s => "'" ++ s ++ "'"
  | parameterName => "parameter name"
  | functionName => "function name"
  | expression => "expression"
  | separator => "';' or newline"
  | endOfExpression => "end of expression"
  | closing opened => "')' to close '(' opened at " ++ toString opened

end Expectation

/-- Why a list of tokens is no program or no expression. -/
inductive ParseError where
  | unexpectedToken (text : String) (pos : Nat) (expected : Option Expectation)
  | unexpectedEnd (expected : Expectation) (pos : Option Nat)
  /-- A number token that is not a numeral. The scanner makes none. -/
  | badNumeral (text : String)
deriving Repr, DecidableEq

namespace ParseError

/-- The expectation as the end of a sentence. -/
def expecting : Option Expectation → String
  | none => ""
  | some e => ", expected " ++ e.phrase

/-- The position as the end of a sentence. -/
def atPosition : Option Nat → String
  | none => ""
  | some pos => " at position " ++ toString pos

/-- The message of an error. -/
def message : ParseError → String
  | unexpectedToken t pos expected =>
    "Unexpected token '" ++ t ++ "'" ++ expecting expected ++ atPosition (some pos)
  | unexpectedEnd expected pos =>
    "Unexpected end of input" ++ expecting (some expected) ++ atPosition pos
  | badNumeral t => "could not convert string to float: " ++ Text.quote t

end ParseError

/-- Why a source cannot be read. -/
inductive SourceError where
  | scan (error : ScanError)
  | parse (error : ParseError)
deriving Repr, DecidableEq

/-- The message of an error. -/
def SourceError.message : SourceError → String
  | scan e => e.message
  | parse e => e.message

end Abacus
