import Abacus.Document.Basic
import Abacus.Program.Basic

/-!
# Drafts of programs

What reading a document gives is a draft: a tree of the shape of a program in which any document may
stand for a name, since nothing looks at the names while the tree is read. A draft whose names are
strings is a draft of just one node (`DraftNode.toNode?`, `Node.draft`).
-/

namespace Abacus

/-- Expressions with a document for each name. -/
inductive DraftExpr where
  | number (value : Float)
  | var (name : Document)
  | unary (op : UnaryOp) (operand : DraftExpr)
  | binary (op : BinaryOp) (left right : DraftExpr)
  | conditional (condition thenBranch elseBranch : DraftExpr)
  | call (name : Document) (args : List DraftExpr)
  | lambda (params : List Document) (body : DraftExpr)
deriving Repr, Inhabited

/-- Statements with a document for each name. -/
inductive DraftStmt where
  | assign (name : Document) (value : DraftExpr)
  | expr (value : DraftExpr)
deriving Repr, Inhabited

/-- Anything that a document can stand for. -/
inductive DraftNode where
  | program (statements : List DraftStmt)
  | stmt (s : DraftStmt)
  | expr (e : DraftExpr)
deriving Repr, Inhabited

/-! ## Nodes as drafts -/

mutual

/-- The draft of an expression. -/
def Expr.draft : Expr → DraftExpr
  | .number x => .number x
  | .var name => .var (.text name)
  | .unary op x => .unary op x.draft
  | .binary op x y => .binary op x.draft y.draft
  | .conditional c t e => .conditional c.draft t.draft e.draft
  | .call name args => .call (.text name) (Expr.draftList args)
  | .lambda params body => .lambda (params.map fun name : String => .text name) body.draft

/-- The drafts of the expressions of a list. -/
def Expr.draftList : List Expr → List DraftExpr
  | [] => []
  | x :: xs => x.draft :: Expr.draftList xs

end

/-- The draft of a statement. -/
def Stmt.draft : Stmt → DraftStmt
  | .assign name value => .assign (.text name) value.draft
  | .expr value => .expr value.draft

/-- The draft of a node. -/
def Node.draft : Node → DraftNode
  | .program p => .program (p.statements.map Stmt.draft)
  | .stmt s => .stmt s.draft
  | .expr e => .expr e.draft

/-! ## Drafts of nodes -/

mutual

/-- The expression that the draft is of, if its names are strings. -/
def DraftExpr.toExpr? : DraftExpr → Option Expr
  | .number x => some (.number x)
  | .var name => do return .var (← name.string?)
  | .unary op x => do return .unary op (← x.toExpr?)
  | .binary op x y => do return .binary op (← x.toExpr?) (← y.toExpr?)
  | .conditional c t e => do return .conditional (← c.toExpr?) (← t.toExpr?) (← e.toExpr?)
  | .call name args => do return .call (← name.string?) (← DraftExpr.toExprs? args)
  | .lambda params body => do return .lambda (← params.mapM Document.string?) (← body.toExpr?)

/-- The expressions that the drafts of a list are of. -/
def DraftExpr.toExprs? : List DraftExpr → Option (List Expr)
  | [] => some []
  | x :: xs => do return (← x.toExpr?) :: (← DraftExpr.toExprs? xs)

end

/-- The statement that the draft is of, if its names are strings. -/
def DraftStmt.toStmt? : DraftStmt → Option Stmt
  | .assign name value => do return .assign (← name.string?) (← value.toExpr?)
  | .expr value => do return .expr (← value.toExpr?)

/-- The node that the draft is of, if its names are strings. -/
def DraftNode.toNode? : DraftNode → Option Node
  | .program statements => do return .program ⟨← statements.mapM DraftStmt.toStmt?⟩
  | .stmt s => do return .stmt (← s.toStmt?)
  | .expr e => do return .expr (← e.toExpr?)

end Abacus
