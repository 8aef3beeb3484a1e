import Abacus.Program.Basic

/-!
# Chains of binary operators

Operands with binary operators between them form a chain. The levels of precedence turn it into one
tree: the tightest level first, each level leaving a shorter chain for the next. Powers associate to
the right, all other operators to the left.
-/

namespace Abacus

/-- The levels of precedence, the loosest first. -/
inductive Level where
  | or | and | equality | comparison | additive | multiplicative | power
deriving Repr, DecidableEq

/-- The level of an operator. -/
def BinaryOp.level : BinaryOp → Level
  | .or => .or
  | .and => .and
  | .eq | .ne => .equality
  | .lt | .gt | .le | .ge => .comparison
  | .add | .sub => .additive
  | .mul | .div | .mod => .multiplicative
  | .pow => .power

/-- The operands of a chain after the first one, each with the operator before it. -/
abbrev Links := List (BinaryOp × Expr)

namespace Chain

/-- Joins the operands around the operators of a level from the left. -/
def joinLeft (level : Level) (first : Expr) : Links → Expr × Links
  | [] => (first, [])
  | (op, x) :: links =>
    if op.level = level then joinLeft level (.binary op first x) links
    else
      let (x', links') := joinLeft level x links
      (first, (op, x') :: links')

/-- Joins the operands around the operators of a level from the right. -/
def joinRight (level : Level) (first : Expr) : Links → Expr × Links
  | [] => (first, [])
  | (op, x) :: links =>
    let (x', links') := joinRight level x links
    if op.level = level then (.binary op first x', links') else (first, (op, x') :: links')

/-- The levels whose operators associate to the left, the tightest first. -/
def leftLevels : List Level := [.multiplicative, .additive, .comparison, .equality, .and, .or]

/-- The chain that is left when the operators of some levels are joined in turn. -/
def joinLevels : List Level → Expr × Links → Expr × Links
  | [], chain => chain
  | level :: levels, (first, links) => joinLevels levels (joinLeft level first links)

/-- The tree of a chain. -/
def toExpr (first : Expr) (links : Links) : Expr :=
  (joinLevels leftLevels (joinRight .power first links)).1

end Chain

end Abacus
