import Abacus.Number.Text
import Abacus.Program.Basic

/-!
# Programs as source text

Every operator expression, conditional and lambda is written in parentheses, so that the text reads
back as the same tree whatever stands around it.
-/

namespace Abacus

mutual

/-- An expression as source text. -/
def Expr.print : Expr → String
  | .number x => Number.plain x
  | .var name => name
  | .unary op x => "(" ++ op.symbol ++ x.print ++ ")"
  | .binary op x y => "(" ++ x.print ++ " " ++ op.symbol ++ " " ++ y.print ++ ")"
  | .conditional c t e => "(if " ++ c.print ++ " then " ++ t.print ++ " else " ++ e.print ++ ")"
  | .call name args => name ++ "(" ++ ", ".intercalate (Expr.printList args) ++ ")"
  | .lambda params body => "((" ++ ", ".intercalate params ++ ") => " ++ body.print ++ ")"

/-- The expressions of a list as source texts. -/
def Expr.printList : List Expr → List String
  | [] => []
  | x :: xs => x.print :: Expr.printList xs

end

/-- A statement as source text. The assignment of a lambda is written as a definition. -/
def Stmt.print : Stmt → String
  | .assign name (.lambda params body) =>
    "def " ++ name ++ "(" ++ ", ".intercalate params ++ ") = " ++ body.print
  | .assign name value => name ++ " = " ++ value.print
  | .expr value => value.print

/-- A program as source text. -/
def Program.print (p : Program) : String := "; ".intercalate (p.statements.map Stmt.print)

/-- A node as source text. -/
def Node.print : Node → String
  | .program p => p.print
  | .stmt s => s.print
  | .expr e => e.print

end Abacus
