import Abacus.Token.Error

/-!
# Balanced parentheses

Before a token list is read, its parentheses are paired up. The token to blame for a list that is
not balanced is the first closing one without a partner, or else the innermost one left open.
-/

namespace Abacus.Balance

/-- The token to blame when the parentheses `opened`, the innermost first, wait for a partner. -/
def offenderFrom (opened : List Token) : List Token → Option Token
  | [] => opened.head?
  | t :: ts =>
    if t.is .delimiter "(" then offenderFrom (t :: opened) ts
    else if t.is .delimiter ")" then
      match opened with
      | [] => some t
      | _ :: outer => offenderFrom outer ts
    else offenderFrom opened ts

/-- The token to blame, if the list is not balanced. -/
def offender? (ts : List Token) : Option Token := offenderFrom [] ts

/-- Whether all parentheses pair up. -/
def isBalanced (ts : List Token) : Bool := (offender? ts).isNone

/-- The position of the end of the text, if that is the last token. -/
def endPosition? (ts : List Token) : Option Nat :=
  match ts.getLast? with
  | some t => if t.isEnd then some t.pos else none
  | none => none

/-- The error that unbalanced parentheses are. -/
def check (ts : List Token) : Except ParseError Unit :=
  match offender? ts with
  | none => .ok ()
  | some t =>
    if t.text = "(" then .error (.unexpectedEnd (.closing t.pos) (endPosition? ts))
    else .error (.unexpectedToken t.text t.pos none)

end Abacus.Balance
