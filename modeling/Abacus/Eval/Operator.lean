import Abacus.Eval.Error
import Abacus.Number.Remainder
import Abacus.Program.Basic

/-!
# Operators on numbers

Truth is a number: zero is false, every other number is true, and comparisons give one or zero.
-/

namespace Abacus

namespace Number

/-- Whether a number counts as true. What is no number does. -/
def isTrue (x : Float) : Bool := x != 0

/-- One for true and zero for false. -/
def ofBool (b : Bool) : Float := if b then 1 else 0

/-- `a` to the power `b`; a zero of either sign to a negative power is infinity. -/
def power (a b : Float) : Float := if a == 0 && b < 0 then infinity else a.pow b

end Number

open Number

/-- The value of an operator between two numbers. -/
def BinaryOp.eval (op : BinaryOp) (a b : Float) : Except EvalError Float :=
  match op with
  | add => .ok (a + b)
  | sub => .ok (a - b)
  | mul => .ok (a * b)
  | div => if b == 0 then .error (.divisionByZero .quotient) else .ok (a / b)
  | mod => if b == 0 then .error (.divisionByZero .remainder) else .ok (remainder a b)
  | pow => .ok (power a b)
  | eq => .ok (ofBool (a == b))
  | ne => .ok (ofBool (a != b))
  | lt => .ok (ofBool (a < b))
  | gt => .ok (ofBool (b < a))
  | le => .ok (ofBool (a ≤ b))
  | ge => .ok (ofBool (b ≤ a))
  | and => .ok (ofBool (isTrue a && isTrue b))
  | or => .ok (ofBool (isTrue a || isTrue b))

/-- The value that the left operand decides alone, if it does. -/
def BinaryOp.decided? (op : BinaryOp) (a : Float) : Option Float :=
  match op with
  | and => if isTrue a then none else some (ofBool false)
  | or => if isTrue a then some (ofBool true) else none
  | _ => none

/-- The value of an operator in front of a number. -/
def UnaryOp.eval (op : UnaryOp) (a : Float) : Float :=
  match op with
  | neg => -a
  | not => ofBool (!isTrue a)

end Abacus
