/-!
# Programs

Expressions, statements and programs as trees. Two trees are equal when they have the same shape,
the same names and the same numbers; equality of numbers is identity here, so that the two zeros
differ and what is no number equals itself.
-/

namespace Abacus

/-! ## Operators -/

/-- The operators between two operands. -/
inductive BinaryOp where
  | add | sub | mul | div | mod | pow
  | eq | ne | lt | gt | le | ge
  | and | or
deriving Repr, DecidableEq

namespace BinaryOp

/-- The operator in source text. -/
def symbol : BinaryOp → String
  | add => "+"
  | sub => "-"
  | mul => "*"
  | div => "/"
  | mod => "%"
  | pow => "^"
  | eq => "=="
  | ne => "!="
  | lt => "<"
  | gt => ">"
  | le => "<="
  | ge => ">="
  | and => "and"
  | or => "or"

/-- The name of the operator in documents and outlines. -/
def name : BinaryOp → String
  | add => "add"
  | sub => "sub"
  | mul => "mul"
  | div => "div"
  | mod => "mod"
  | pow => "pow"
  | eq => "eq"
  | ne => "ne"
  | lt => "lt"
  | gt => "gt"
  | le => "le"
  | ge => "ge"
  | and => "and"
  | or => "or"

/-- All operators. -/
def all : List BinaryOp :=
  [add, sub, mul, div, mod, pow, eq, ne, lt, gt, le, ge, and, or]

/-- The operator with a given name. -/
def ofName? (s : String) : Option BinaryOp := all.find? (·.name == s)

/-- A second spelling that some operators have in source text. -/
def otherSymbol? : BinaryOp → Option String
  | pow => some "**"
  | and => some "&&"
  | or => some "||"
  | _ => none

/-- The operator that a spelling stands for between two operands. -/
def ofSpelling? (s : String) : Option BinaryOp :=
  all.find? fun op => op.symbol == s || op.otherSymbol? == some s

end BinaryOp

/-- The operators in front of one operand. -/
inductive UnaryOp where
  | neg | not
deriving Repr, DecidableEq

namespace UnaryOp

/-- The operator in source text, with the blank that a word needs behind it. -/
def symbol : UnaryOp → String
  | neg => "-"
  | not => "not "

/-- The name of the operator in documents and outlines. -/
def name : UnaryOp → String
  | neg => "neg"
  | not => "not"

/-- All operators. -/
def all : List UnaryOp := [neg, not]

/-- The operator with a given name. -/
def ofName? (s : String) : Option UnaryOp := all.find? (·.name == s)

end UnaryOp

/-! ## Trees -/

/-- Expressions. -/
inductive Expr where
  | number (value : Float)
  | var (name : String)
  | unary (op : UnaryOp) (operand : Expr)
  | binary (op : BinaryOp) (left right : Expr)
  | conditional (condition thenBranch elseBranch : Expr)
  | call (name : String) (args : List Expr)
  | lambda (params : List String) (body : Expr)
deriving Repr, Inhabited

namespace Expr

mutual

/-- Whether two expressions are equal. -/
def same : Expr → Expr → Bool
  | number x, number y => x = y
  | var x, var y => x = y
  | unary o x, unary p y => o = p && same x y
  | binary o x₁ x₂, binary p y₁ y₂ => o = p && same x₁ y₁ && same x₂ y₂
  | conditional x₁ x₂ x₃, conditional y₁ y₂ y₃ => same x₁ y₁ && same x₂ y₂ && same x₃ y₃
  | call n xs, call m ys => n = m && sameList xs ys
  | lambda ps x, lambda qs y => ps = qs && same x y
  | _, _ => false

/-- Whether two lists of expressions are equal. -/
def sameList : List Expr → List Expr → Bool
  | [], [] => true
  | x :: xs, y :: ys => same x y && sameList xs ys
  | _, _ => false

end

mutual

theorem eq_of_same {x y : Expr} (h : same x y = true) : x = y := by
  cases x <;> cases y <;> simp [same] at h
  case number.number => rw [h]
  case var.var => rw [h]
  case unary.unary => rw [h.1, eq_of_same h.2]
  case binary.binary => rw [h.1.1, eq_of_same h.1.2, eq_of_same h.2]
  case conditional.conditional => rw [eq_of_same h.1.1, eq_of_same h.1.2, eq_of_same h.2]
  case call.call => rw [h.1, eq_of_sameList h.2]
  case lambda.lambda => rw [h.1, eq_of_same h.2]

theorem eq_of_sameList {xs ys : List Expr} (h : sameList xs ys = true) : xs = ys := by
  cases xs <;> cases ys <;> simp [sameList] at h
  case nil.nil => rfl
  case cons.cons => rw [eq_of_same h.1, eq_of_sameList h.2]

end

mutual

theorem same_self : (x : Expr) → same x x = true
  | number _ | var _ => by simp [same]
  | unary _ x => by simp [same, same_self x]
  | binary _ x y => by simp [same, same_self x, same_self y]
  | conditional x y z => by simp [same, same_self x, same_self y, same_self z]
  | call _ xs => by simp [same, sameList_self xs]
  | lambda _ x => by simp [same, same_self x]

theorem sameList_self : (xs : List Expr) → sameList xs xs = true
  | [] => by simp [sameList]
  | x :: xs => by simp [sameList, same_self x, sameList_self xs]

end

instance : DecidableEq Expr := fun x y =>
  decidable_of_iff (same x y = true) ⟨eq_of_same, fun h => h ▸ same_self x⟩

end Expr

/-- Statements: an assignment of a value to a name, or an expression for its value. A function
definition is the assignment of a lambda. -/
inductive Stmt where
  | assign (name : String) (value : Expr)
  | expr (value : Expr)
deriving Repr, DecidableEq, Inhabited

/-- A program: its statements in order. -/
structure Program where
  statements : List Stmt
deriving Repr, DecidableEq, Inhabited

/-- Anything that a document can stand for. -/
inductive Node where
  | program (p : Program)
  | stmt (s : Stmt)
  | expr (e : Expr)
deriving Repr, DecidableEq, Inhabited

end Abacus
