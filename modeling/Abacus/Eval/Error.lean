import Abacus.Number.Sum
import Abacus.Number.Text

/-!
# Errors of evaluation

An error that belongs to the language is an `EvalError`. A `Fault` is anything that ends a run
before its result: such an error, a sum that has no value, or calls nested deeper than allowed.
-/

namespace Abacus

/-- What a reserved name stands for. -/
inductive ReservedKind where
  | constant
  | function
  | keyword
deriving Repr, DecidableEq

/-- The kind in words. -/
def ReservedKind.label : ReservedKind → String
  | constant => "constant"
  | function => "function"
  | keyword => "keyword"

/-- The ways to divide. -/
inductive Division where
  /-- The operator for quotients. -/
  | quotient
  /-- The operator for remainders. -/
  | remainder
  /-- The function for remainders. -/
  | modulo
deriving Repr, DecidableEq

/-- The operator or function in source text. -/
def Division.symbol : Division → String
  | quotient => "/"
  | remainder => "%"
  | modulo => "mod"

/-- Why an expression has no value. -/
inductive EvalError where
  | divisionByZero (division : Division)
  | negativeRoot (value : Float)
  | undefinedVariable (name : String)
  | unknownFunction (name : String)
  /-- A call with the wrong number of arguments; `expected` is the least number if `variadic`. -/
  | arityMismatch (name : String) (expected got : Nat) (variadic : Bool)
  | reservedName (name : String) (kind : ReservedKind)
  /-- The function shown as `shown` and named `name` stands where `place` needs a number. -/
  | functionAsNumber (shown : String) (name : Option String) (place : String)
  /-- The function shown as `shown` and named `name` is the result of a program. -/
  | functionAsResult (shown : String) (name : Option String)
  /-- A value that is no number is to be bound to `name`. -/
  | notANumber (typeName name : String)
  | nonPositiveLogarithm (function : String) (value : Float)
deriving Repr, DecidableEq

namespace EvalError

/-- The message of an error. -/
def message : EvalError → String
  | divisionByZero .quotient => "Division by zero"
  | divisionByZero _ => "Modulo by zero"
  | negativeRoot x => "Square root of negative number: " ++ Number.text x
  | undefinedVariable name => "Undefined variable: " ++ name
  | unknownFunction name => "Unknown function: " ++ name
  | arityMismatch name expected got variadic =>
    name ++ "() expects " ++ (if variadic then "at least " else "") ++ toString expected ++
      " argument(s), got " ++ toString got
  | reservedName name kind => "Cannot assign to reserved " ++ kind.label ++ " '" ++ name ++ "'"
  | functionAsNumber shown _ place =>
    "Function value " ++ shown ++ " used as a number in '" ++ place ++ "'"
  | functionAsResult shown _ =>
    "Program result is a function value " ++ shown ++ ", expected a number"
  | notANumber typeName _ => "Context values must be numbers, got " ++ typeName
  | nonPositiveLogarithm function x =>
    "Logarithm of non-positive number in " ++ function ++ "(): " ++ Number.text x

end EvalError

/-- Why a run ends before its result. -/
inductive Fault where
  | eval (error : EvalError)
  | sum (error : Number.SumError)
  /-- Calls are nested deeper than the run allows. -/
  | tooDeep
deriving Repr, DecidableEq

end Abacus
