import Abacus.Bindings
import Abacus.Eval.Operator
import Abacus.Number.Hypotenuse
import Abacus.Number.Integral
import Abacus.Token.Scan

/-!
# Built-in functions

The built-in functions by the number of their arguments. Where a function has no value in the real
numbers, its result is infinity or no number, except that roots of negative numbers, logarithms of
numbers that are not positive and divisions by zero are errors.
-/

namespace Abacus

open Number

/-! ## One argument -/

/-- The functions of one argument. -/
inductive UnaryFunction where
  | sin | cos | tan | asin | acos | atan
  | sinh | cosh | tanh
  | sqrt | cbrt
  | floor | ceil | round | trunc
  | abs | sign | fract
  | ln | log2 | log10 | exp
  | print
deriving Repr, DecidableEq

namespace UnaryFunction

/-- The function in source text. -/
def name : UnaryFunction → String
  | sin => "sin"
  | cos => "cos"
  | tan => "tan"
  | asin => "asin"
  | acos => "acos"
  | atan => "atan"
  | sinh => "sinh"
  | cosh => "cosh"
  | tanh => "tanh"
  | sqrt => "sqrt"
  | cbrt => "cbrt"
  | floor => "floor"
  | ceil => "ceil"
  | round => "round"
  | trunc => "trunc"
  | abs => "abs"
  | sign => "sign"
  | fract => "fract"
  | ln => "ln"
  | log2 => "log2"
  | log10 => "log10"
  | exp => "exp"
  | print => "print"

/-- All functions of one argument. -/
def all : List UnaryFunction :=
  [sin, cos, tan, asin, acos, atan, sinh, cosh, tanh, sqrt, cbrt, floor, ceil, round, trunc, abs,
    sign, fract, ln, log2, log10, exp, print]

/-- A logarithm of positive numbers. -/
def logarithm (name : String) (log : Float → Float) (x : Float) : Except EvalError Float :=
  if x ≤ 0 then .error (.nonPositiveLogarithm name x) else .ok (log x)

/-- The value of a function. Printing a number gives the number. -/
def eval (f : UnaryFunction) (x : Float) : Except EvalError Float :=
  match f with
  | sin => .ok x.sin
  | cos => .ok x.cos
  | tan => .ok x.tan
  | asin => .ok x.asin
  | acos => .ok x.acos
  | atan => .ok x.atan
  | sinh => .ok x.sinh
  | cosh => .ok x.cosh
  | tanh => .ok x.tanh
  | sqrt => if x < 0 then .error (.negativeRoot x) else .ok x.sqrt
  | cbrt => .ok x.cbrt
  | floor => .ok (Number.floor x)
  | ceil => .ok (Number.ceil x)
  | round => .ok (Number.round x)
  | trunc => .ok (truncate x)
  | abs => .ok x.abs
  | sign => .ok (if 0 < x then 1 else if x < 0 then -1 else x)
  | fract => .ok (x - truncate x)
  | ln => logarithm "ln" Float.log x
  | log2 => logarithm "log2" Float.log2 x
  | log10 => logarithm "log10" Float.log10 x
  | exp => .ok x.exp
  | print => .ok x

end UnaryFunction

/-! ## Two arguments -/

/-- The functions of two arguments. -/
inductive BinaryFunction where
  | max | min | pow | atan2 | hypot | log | mod
deriving Repr, DecidableEq

namespace BinaryFunction

/-- The function in source text. -/
def name : BinaryFunction → String
  | max => "max"
  | min => "min"
  | pow => "pow"
  | atan2 => "atan2"
  | hypot => "hypot"
  | log => "log"
  | mod => "mod"

/-- All functions of two arguments. -/
def all : List BinaryFunction := [max, min, pow, atan2, hypot, log, mod]

/-- The larger number; the first one unless the second one is larger. -/
def larger (a b : Float) : Float := if a < b then b else a

/-- The smaller number; the first one unless the second one is smaller. -/
def smaller (a b : Float) : Float := if b < a then b else a

/-- The logarithm of `x` to a base. To the base one it is infinite, except that one has none. -/
def logarithm (x base : Float) : Except EvalError Float :=
  if x ≤ 0 then .error (.nonPositiveLogarithm "log" x)
  else if base ≤ 0 then .error (.nonPositiveLogarithm "log" base)
  else
    let top := x.log
    let bottom := base.log
    if bottom == 0 then .ok (if top == 0 then notANumber else withSignOf top infinity)
    else .ok (top / bottom)

/-- The value of a function. -/
def eval (f : BinaryFunction) (a b : Float) : Except EvalError Float :=
  match f with
  | max => .ok (larger a b)
  | min => .ok (smaller a b)
  | pow => .ok (power a b)
  | atan2 => .ok (a.atan2 b)
  | hypot => .ok (hypotenuse a b)
  | log => logarithm a b
  | mod => if b == 0 then .error (.divisionByZero .modulo) else .ok (modulo a b)

end BinaryFunction

/-! ## Three arguments -/

/-- The functions of three arguments. -/
inductive TernaryFunction where
  | clamp | lerp
deriving Repr, DecidableEq

namespace TernaryFunction

/-- The function in source text. -/
def name : TernaryFunction → String
  | clamp => "clamp"
  | lerp => "lerp"

/-- All functions of three arguments. -/
def all : List TernaryFunction := [clamp, lerp]

/-- The value of a function: a number held between two bounds, or a point on the way from one number
to another. -/
def eval (f : TernaryFunction) (a b c : Float) : Float :=
  match f with
  | clamp => BinaryFunction.smaller (BinaryFunction.larger a b) c
  | lerp => a + (b - a) * c

end TernaryFunction

/-! ## Any number of arguments -/

/-- The functions of one argument or more. -/
inductive VariadicFunction where
  | sum | avg
deriving Repr, DecidableEq

namespace VariadicFunction

/-- The function in source text. -/
def name : VariadicFunction → String
  | sum => "sum"
  | avg => "avg"

/-- All functions of any number of arguments. -/
def all : List VariadicFunction := [sum, avg]

/-- The value of a function. -/
def eval (f : VariadicFunction) (xs : List Float) : Except SumError Float :=
  match f with
  | sum => Number.sum xs
  | avg => (Number.sum xs).map (· / Float.ofNat xs.length)

end VariadicFunction

/-! ## All functions -/

/-- The built-in functions. -/
inductive Builtin where
  | unary (f : UnaryFunction)
  | binary (f : BinaryFunction)
  | ternary (f : TernaryFunction)
  | variadic (f : VariadicFunction)
deriving Repr, DecidableEq

namespace Builtin

/-- The function in source text. -/
def name : Builtin → String
  | unary f => f.name
  | binary f => f.name
  | ternary f => f.name
  | variadic f => f.name

/-- All built-in functions. -/
def all : List Builtin :=
  UnaryFunction.all.map unary ++ BinaryFunction.all.map binary ++ TernaryFunction.all.map ternary ++
    VariadicFunction.all.map variadic

/-- The function with a given name. -/
def ofName? (s : String) : Option Builtin := all.find? (·.name == s)

/-- The number of arguments, or the least number of a variadic function. -/
def arity : Builtin → Nat
  | unary _ => 1
  | binary _ => 2
  | ternary _ => 3
  | variadic _ => 1

/-- Whether any larger number of arguments will do too. -/
def isVariadic : Builtin → Bool
  | variadic _ => true
  | _ => false

/-- The error of a call with the wrong number of arguments. -/
def arityMismatch (f : Builtin) (args : List Float) : Fault :=
  .eval (.arityMismatch f.name f.arity args.length f.isVariadic)

/-- The value of a call. -/
def eval (f : Builtin) (args : List Float) : Except Fault Float :=
  match f, args with
  | unary g, [x] => (g.eval x).mapError .eval
  | binary g, [x, y] => (g.eval x y).mapError .eval
  | ternary g, [x, y, z] => .ok (g.eval x y z)
  | variadic g, x :: xs => (g.eval (x :: xs)).mapError .sum
  | _, _ => .error (f.arityMismatch args)

/-- What a call prints. -/
def printed? (f : Builtin) (args : List Float) : Option String :=
  match f, args with
  | unary .print, [x] => some (plain x ++ "\n")
  | _, _ => none

end Builtin

/-! ## Reserved names -/

/-- The named constants. -/
def constants : List (String × Float) :=
  [("pi", 3.141592653589793), ("e", 2.718281828459045), ("tau", 6.283185307179586), ("true", 1),
    ("false", 0)]

/-- The value of a named constant. -/
def constant? (name : String) : Option Float := Bindings.findEntry name constants

/-- What a name is reserved for, if it cannot be bound. -/
def reservedKind? (name : String) : Option ReservedKind :=
  if (constant? name).isSome then some .constant
  else if (Builtin.ofName? name).isSome then some .function
  else if name ∈ Lexicon.standard.keywords then some .keyword
  else none

theorem reservedKind?_eq_none {name : String} : reservedKind? name = none ↔
    constant? name = none ∧ Builtin.ofName? name = none ∧ name ∉ Lexicon.standard.keywords := by
  unfold reservedKind?
  cases constant? name with
  | some x => simp
  | none =>
    cases Builtin.ofName? name with
    | some b => simp
    | none => simp

/-- Names in alphabetical order. -/
def sortedNames (names : List String) : List String := names.mergeSort fun a b => a ≤ b

/-- The names of the constants and of the functions by their number of arguments. -/
def builtinListing : List (String × List String) :=
  [("constants", sortedNames (constants.map Prod.fst)),
    ("unary", sortedNames (UnaryFunction.all.map UnaryFunction.name)),
    ("binary", sortedNames (BinaryFunction.all.map BinaryFunction.name)),
    ("ternary", sortedNames (TernaryFunction.all.map TernaryFunction.name)),
    ("variadic", sortedNames (VariadicFunction.all.map VariadicFunction.name))]

end Abacus
