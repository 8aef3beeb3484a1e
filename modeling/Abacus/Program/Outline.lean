import Abacus.Number.Text
import Abacus.Program.Basic
import Abacus.Text.Quoted

/-!
# Outlines

The shape of a tree for people who debug: each node with its kind and its parts. Names stand bare,
except that parameter names are quoted.
-/

namespace Abacus

/-- Parts in brackets. -/
def bracketed (parts : List String) : String := "[" ++ ", ".intercalate parts ++ "]"

mutual

/-- The outline of an expression. -/
def Expr.outline : Expr → String
  | .number x => "Number(" ++ Number.text x ++ ")"
  | .var name => "Variable(" ++ name ++ ")"
  | .unary op x => "Unary(" ++ op.name ++ ", " ++ x.outline ++ ")"
  | .binary op x y => "Binary(" ++ op.name ++ ", " ++ x.outline ++ ", " ++ y.outline ++ ")"
  | .conditional c t e =>
    "Conditional(" ++ c.outline ++ ", " ++ t.outline ++ ", " ++ e.outline ++ ")"
  | .call name args => "Call(" ++ name ++ ", " ++ bracketed (Expr.outlineList args) ++ ")"
  | .lambda params body =>
    "Lambda(" ++ bracketed (params.map Text.quote) ++ ", " ++ body.outline ++ ")"

/-- The outlines of the expressions of a list. -/
def Expr.outlineList : List Expr → List String
  | [] => []
  | x :: xs => x.outline :: Expr.outlineList xs

end

/-- The outline of a statement. -/
def Stmt.outline : Stmt → String
  | .assign name value => "Assign(" ++ name ++ ", " ++ value.outline ++ ")"
  | .expr value => "ExprStmt(" ++ value.outline ++ ")"

/-- The outline of a program. A single statement is followed by a comma. -/
def Program.outline (p : Program) : String :=
  let parts := match p.statements.map Stmt.outline with
    | [part] => part ++ ","
    | parts => ", ".intercalate parts
  "Program(statements=(" ++ parts ++ "))"

/-- The outline of a node. -/
def Node.outline : Node → String
  | .program p => p.outline
  | .stmt s => s.outline
  | .expr e => e.outline

end Abacus
