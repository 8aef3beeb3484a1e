import Abacus.Eval.Evaluator

/-!
# Evaluating nodes

A node that comes from a document can be evaluated as what it is. To use it as something else is an
error, except that an expression may be required to be a number.
-/

namespace Abacus

/-- The ways to evaluate a node. -/
inductive NodeUse where
  | program
  | stmt
  | expr
  /-- An expression whose value must be a number. -/
  | number
deriving Repr, DecidableEq

/-- The way in which a node is evaluated unless another one is asked for. -/
def Node.ownUse : Node → NodeUse
  | .program _ => .program
  | .stmt _ => .stmt
  | .expr _ => .expr

/-- Why a node cannot be evaluated in some way. -/
inductive NodeUseError where
  | notAProgram
  | unknownStmt (outline : String)
  | unknownExpr (outline : String)
deriving Repr, DecidableEq

/-- The message of an error. -/
def NodeUseError.message : NodeUseError → String
  | notAProgram => "Unknown program"
  | unknownStmt outline => "Unknown statement: " ++ outline
  | unknownExpr outline => "Unknown expression: " ++ outline

/-- Evaluates a node in a frame. -/
def Node.eval (set : Settings) (frame : FrameId) (use : NodeUse) (n : Node) :
    Except NodeUseError (Run Value) :=
  match use, n with
  | .program, .program p => .ok (.number <$> set.evalProgram frame p)
  | .program, _ => .error .notAProgram
  | .stmt, .stmt s => .ok (set.evalStmt frame s)
  | .stmt, n => .error (.unknownStmt n.outline)
  | .expr, .expr x => .ok (set.eval frame x)
  | .number, .expr x => .ok (.number <$> set.evalNumber frame x)
  | _, n => .error (.unknownExpr n.outline)

end Abacus
