import Abacus.Program.Basic

/-!
# The numbers of a program

The numbers that stand in a program (`Program.literals`), programs with other numbers in them
(`Program.mapNumbers`), and equality of programs where numbers are compared as numbers
(`Program.equal`): the two zeros are equal there, and what is no number differs from itself.
-/

namespace Abacus

mutual

/-- The numbers that stand in an expression. -/
def Expr.literals : Expr → List Float
  | .number v => [v]
  | .var _ => []
  | .unary _ x => x.literals
  | .binary _ x y => x.literals ++ y.literals
  | .conditional c t e => c.literals ++ (t.literals ++ e.literals)
  | .call _ args => Expr.literalsList args
  | .lambda _ body => body.literals

/-- The numbers that stand in the expressions of a list. -/
def Expr.literalsList : List Expr → List Float
  | [] => []
  | x :: xs => x.literals ++ Expr.literalsList xs

end

/-- The numbers that stand in a statement. -/
def Stmt.literals : Stmt → List Float
  | .assign _ value => value.literals
  | .expr value => value.literals

/-- The numbers that stand in a program. -/
def Program.literals (p : Program) : List Float := p.statements.flatMap Stmt.literals

/-- The numbers that stand in a node. -/
def Node.literals : Node → List Float
  | .program p => p.literals
  | .stmt s => s.literals
  | .expr e => e.literals

mutual

/-- Whether two expressions are equal when their numbers are compared as numbers, so that the two
zeros are equal. -/
def Expr.equal : Expr → Expr → Bool
  | .number v, .number w => v == w
  | .var n, .var m => n = m
  | .unary o x, .unary p y => o = p && x.equal y
  | .binary o x₁ x₂, .binary p y₁ y₂ => o = p && x₁.equal y₁ && x₂.equal y₂
  | .conditional x₁ x₂ x₃, .conditional y₁ y₂ y₃ => x₁.equal y₁ && x₂.equal y₂ && x₃.equal y₃
  | .call n xs, .call m ys => n = m && Expr.equalList xs ys
  | .lambda ps x, .lambda qs y => ps = qs && x.equal y
  | _, _ => false

/-- Whether two lists of expressions are equal. -/
def Expr.equalList : List Expr → List Expr → Bool
  | [], [] => true
  | x :: xs, y :: ys => x.equal y && Expr.equalList xs ys
  | _, _ => false

end

/-- Whether two statements are equal. -/
def Stmt.equal : Stmt → Stmt → Bool
  | .assign n x, .assign m y => n = m && x.equal y
  | .expr x, .expr y => x.equal y
  | _, _ => false

/-- Whether two lists of statements are equal. -/
def Stmt.equalList : List Stmt → List Stmt → Bool
  | [], [] => true
  | s :: ss, t :: ts => s.equal t && Stmt.equalList ss ts
  | _, _ => false

/-- Whether two programs are equal. -/
def Program.equal (p q : Program) : Bool := Stmt.equalList p.statements q.statements

/-- Whether two nodes are equal. -/
def Node.equal : Node → Node → Bool
  | .program p, .program q => p.equal q
  | .stmt s, .stmt t => s.equal t
  | .expr e, .expr f => e.equal f
  | _, _ => false

mutual

/-- The expression with other numbers in it. -/
def Expr.mapNumbers (f : Float → Float) : Expr → Expr
  | .number v => .number (f v)
  | .var name => .var name
  | .unary op x => .unary op (x.mapNumbers f)
  | .binary op x y => .binary op (x.mapNumbers f) (y.mapNumbers f)
  | .conditional c t e => .conditional (c.mapNumbers f) (t.mapNumbers f) (e.mapNumbers f)
  | .call name args => .call name (Expr.mapNumbersList f args)
  | .lambda params body => .lambda params (body.mapNumbers f)

/-- The expressions of a list with other numbers in them. -/
def Expr.mapNumbersList (f : Float → Float) : List Expr → List Expr
  | [] => []
  | x :: xs => x.mapNumbers f :: Expr.mapNumbersList f xs

end

/-- The statement with other numbers in it. -/
def Stmt.mapNumbers (f : Float → Float) : Stmt → Stmt
  | .assign name value => .assign name (value.mapNumbers f)
  | .expr value => .expr (value.mapNumbers f)

/-- The program with other numbers in it. -/
def Program.mapNumbers (f : Float → Float) (p : Program) : Program :=
  ⟨p.statements.map (Stmt.mapNumbers f)⟩

section Equal

variable {f : Float → Float}

mutual

/-- Numbers that are replaced by equal ones leave an equal expression. -/
theorem Expr.equal_mapNumbers : (x : Expr) → (∀ v ∈ x.literals, (f v == v) = true) →
    (x.mapNumbers f).equal x = true
  | .number v, h => by simpa [mapNumbers, equal, literals] using h
  | .var _, _ => by simp [mapNumbers, equal]
  | .unary _ x, h => by
    rw [literals] at h
    simp [mapNumbers, equal, Expr.equal_mapNumbers x h]
  | .binary _ x y, h => by
    rw [literals, List.forall_mem_append] at h
    simp [mapNumbers, equal, Expr.equal_mapNumbers x h.1, Expr.equal_mapNumbers y h.2]
  | .conditional c t e, h => by
    rw [literals, List.forall_mem_append, List.forall_mem_append] at h
    simp [mapNumbers, equal, Expr.equal_mapNumbers c h.1, Expr.equal_mapNumbers t h.2.1,
      Expr.equal_mapNumbers e h.2.2]
  | .call _ args, h => by
    rw [literals] at h
    simp [mapNumbers, equal, Expr.equalList_mapNumbers args h]
  | .lambda _ body, h => by
    rw [literals] at h
    simp [mapNumbers, equal, Expr.equal_mapNumbers body h]

theorem Expr.equalList_mapNumbers : (xs : List Expr) →
    (∀ v ∈ Expr.literalsList xs, (f v == v) = true) →
    Expr.equalList (Expr.mapNumbersList f xs) xs = true
  | [], _ => by simp [mapNumbersList, equalList]
  | x :: xs, h => by
    rw [literalsList, List.forall_mem_append] at h
    simp [mapNumbersList, equalList, Expr.equal_mapNumbers x h.1, Expr.equalList_mapNumbers xs h.2]

end

theorem Stmt.equal_mapNumbers (s : Stmt) (h : ∀ v ∈ s.literals, (f v == v) = true) :
    (s.mapNumbers f).equal s = true := by
  cases s with
  | assign name value => simp [mapNumbers, equal, value.equal_mapNumbers h]
  | expr value => simp [mapNumbers, equal, value.equal_mapNumbers h]

theorem Stmt.equalList_mapNumbers (ss : List Stmt)
    (h : ∀ v ∈ ss.flatMap Stmt.literals, (f v == v) = true) :
    Stmt.equalList (ss.map (Stmt.mapNumbers f)) ss = true := by
  induction ss with
  | nil => rfl
  | cons s ss ih =>
    rw [List.flatMap_cons, List.forall_mem_append] at h
    simp [equalList, s.equal_mapNumbers h.1, ih h.2]

/-- A program whose literals are each equal to what they are mapped to is equal to its image. -/
theorem Program.equal_mapNumbers (p : Program) (h : ∀ v ∈ p.literals, (f v == v) = true) :
    (p.mapNumbers f).equal p = true :=
  Stmt.equalList_mapNumbers p.statements h

end Equal

/-! ## Equality with itself -/

mutual

theorem Expr.mapNumbers_id : (x : Expr) → x.mapNumbers id = x
  | .number _ | .var _ => by simp [mapNumbers]
  | .unary _ x => by simp [mapNumbers, Expr.mapNumbers_id x]
  | .binary _ x y => by simp [mapNumbers, Expr.mapNumbers_id x, Expr.mapNumbers_id y]
  | .conditional c t e => by
    simp [mapNumbers, Expr.mapNumbers_id c, Expr.mapNumbers_id t, Expr.mapNumbers_id e]
  | .call _ args => by simp [mapNumbers, Expr.mapNumbersList_id args]
  | .lambda _ body => by simp [mapNumbers, Expr.mapNumbers_id body]

theorem Expr.mapNumbersList_id : (xs : List Expr) → Expr.mapNumbersList id xs = xs
  | [] => by simp [mapNumbersList]
  | x :: xs => by simp [mapNumbersList, Expr.mapNumbers_id x, Expr.mapNumbersList_id xs]

end

theorem Stmt.mapNumbers_id (s : Stmt) : s.mapNumbers id = s := by
  cases s with
  | assign name value => rw [mapNumbers, value.mapNumbers_id]
  | expr value => rw [mapNumbers, value.mapNumbers_id]

/-- To map no number is to change nothing. -/
theorem Program.mapNumbers_id (p : Program) : p.mapNumbers id = p := by
  rw [mapNumbers, List.map_congr_left fun s _ => s.mapNumbers_id, List.map_id']

/-- A node whose numbers equal themselves equals itself. -/
theorem Node.equal_self (n : Node) (h : ∀ v ∈ n.literals, (v == v) = true) :
    n.equal n = true := by
  cases n with
  | program p => simpa only [Node.equal, p.mapNumbers_id] using p.equal_mapNumbers (f := id) h
  | stmt s => simpa only [Node.equal, s.mapNumbers_id] using s.equal_mapNumbers (f := id) h
  | expr e => simpa only [Node.equal, e.mapNumbers_id] using e.equal_mapNumbers (f := id) h

end Abacus
