import Abacus.Program.Basic
import Mathlib.Data.List.Forall2

/-!
# Renaming a parameter

`Program.RenamesParam x y p p'`: the program `p'` is `p` with the parameter `x` of one function
renamed to `y`, in the list of its parameters and at every place in its body that refers to it.

For a run this is looked at from inside: `Expr.Renames x y inside e e'` says what has become of an
expression, where `inside` tells whether `x` stands for a renamed parameter around it. If `y` does
not occur, then renaming a parameter is a case of it (`Expr.RenamesParam.renames`).
-/

namespace Abacus

/-! ## Names -/

mutual

/-- The names in an expression: variables, what is called, and parameters. -/
def Expr.names : Expr → List String
  | .number _ => []
  | .var name => [name]
  | .unary _ x => x.names
  | .binary _ x y => x.names ++ y.names
  | .conditional c t e => c.names ++ (t.names ++ e.names)
  | .call name args => name :: Expr.namesList args
  | .lambda params body => params ++ body.names

/-- The names in the expressions of a list. -/
def Expr.namesList : List Expr → List String
  | [] => []
  | x :: xs => x.names ++ Expr.namesList xs

end

/-- The names in a statement. -/
def Stmt.names : Stmt → List String
  | .assign name x => name :: x.names
  | .expr x => x.names

/-- The names in a program. -/
def Program.names (p : Program) : List String := p.statements.flatMap Stmt.names

theorem Expr.mem_namesList {n : String} {xs : List Expr} :
    n ∈ Expr.namesList xs ↔ ∃ x ∈ xs, n ∈ x.names := by
  induction xs with
  | nil => simp [namesList]
  | cons x xs ih => simp [namesList, ih]

theorem Expr.namesList_append (xs ys : List Expr) :
    Expr.namesList (xs ++ ys) = Expr.namesList xs ++ Expr.namesList ys := by
  induction xs with
  | nil => rfl
  | cons x xs ih => rw [List.cons_append, namesList, ih, namesList, List.append_assoc]

theorem Program.mem_names {n : String} {p : Program} :
    n ∈ p.names ↔ ∃ stmt ∈ p.statements, n ∈ stmt.names :=
  List.mem_flatMap

/-! ## Renaming in source -/

/-- `y` in place of `x`. -/
def renameName (x y n : String) : String := if n = x then y else n

mutual

/-- The expression with `y` in place of `x`, but not in functions that have a parameter `x`. -/
def Expr.rename (x y : String) : Expr → Expr
  | .number v => .number v
  | .var name => .var (renameName x y name)
  | .unary op e => .unary op (e.rename x y)
  | .binary op e₁ e₂ => .binary op (e₁.rename x y) (e₂.rename x y)
  | .conditional c t e => .conditional (c.rename x y) (t.rename x y) (e.rename x y)
  | .call name args => .call (renameName x y name) (Expr.renameList x y args)
  | .lambda params body =>
    if x ∈ params then .lambda params body else .lambda params (body.rename x y)

/-- The expressions of a list with `y` in place of `x`. -/
def Expr.renameList (x y : String) : List Expr → List Expr
  | [] => []
  | e :: es => e.rename x y :: Expr.renameList x y es

end

/-- One function in the first expression has a parameter `x`, which in the second one is called
`y`. -/
inductive Expr.RenamesParam (x y : String) : Expr → Expr → Prop
  | here {params : List String} {body : Expr} (hx : x ∈ params) :
      RenamesParam x y (.lambda params body)
        (.lambda (params.map (renameName x y)) (body.rename x y))
  | unary {op : UnaryOp} {e e' : Expr} (h : RenamesParam x y e e') :
      RenamesParam x y (.unary op e) (.unary op e')
  | left {op : BinaryOp} {e e' right : Expr} (h : RenamesParam x y e e') :
      RenamesParam x y (.binary op e right) (.binary op e' right)
  | right {op : BinaryOp} {left e e' : Expr} (h : RenamesParam x y e e') :
      RenamesParam x y (.binary op left e) (.binary op left e')
  | condition {e e' thenBranch elseBranch : Expr} (h : RenamesParam x y e e') :
      RenamesParam x y (.conditional e thenBranch elseBranch)
        (.conditional e' thenBranch elseBranch)
  | thenBranch {condition e e' elseBranch : Expr} (h : RenamesParam x y e e') :
      RenamesParam x y (.conditional condition e elseBranch)
        (.conditional condition e' elseBranch)
  | elseBranch {condition thenBranch e e' : Expr} (h : RenamesParam x y e e') :
      RenamesParam x y (.conditional condition thenBranch e)
        (.conditional condition thenBranch e')
  | argument {name : String} {before after : List Expr} {e e' : Expr} (h : RenamesParam x y e e') :
      RenamesParam x y (.call name (before ++ e :: after)) (.call name (before ++ e' :: after))
  | body {params : List String} {e e' : Expr} (h : RenamesParam x y e e') :
      RenamesParam x y (.lambda params e) (.lambda params e')

/-- One function in the statement has a parameter `x`, which is then called `y`. -/
inductive Stmt.RenamesParam (x y : String) : Stmt → Stmt → Prop
  | assign {name : String} {e e' : Expr} (h : e.RenamesParam x y e') :
      RenamesParam x y (.assign name e) (.assign name e')
  | expr {e e' : Expr} (h : e.RenamesParam x y e') : RenamesParam x y (.expr e) (.expr e')

/-- One function in the program has a parameter `x`, which is then called `y`. -/
inductive Program.RenamesParam (x y : String) : Program → Program → Prop
  | intro {before after : List Stmt} {stmt stmt' : Stmt} (h : stmt.RenamesParam x y stmt') :
      RenamesParam x y ⟨before ++ stmt :: after⟩ ⟨before ++ stmt' :: after⟩

/-! ## Renaming from inside -/

/-- The name in the second program; `x` has been renamed `inside` functions of which it is the
renamed parameter. -/
def renamed (x y : String) (inside : Bool) (n : String) : String :=
  if inside then renameName x y n else n

mutual

/-- What has become of an expression, inside the functions whose parameter `x` is renamed or outside
of them. Functions with a parameter `x` of their own are renamed or not. -/
inductive Expr.Renames (x y : String) : Bool → Expr → Expr → Prop
  | number {inside : Bool} (v : Float) : Renames x y inside (.number v) (.number v)
  | var {inside : Bool} {n : String} (hn : n ≠ y) :
      Renames x y inside (.var n) (.var (renamed x y inside n))
  | unary {inside : Bool} {op : UnaryOp} {e e' : Expr} (h : Renames x y inside e e') :
      Renames x y inside (.unary op e) (.unary op e')
  | binary {inside : Bool} {op : BinaryOp} {e₁ e₁' e₂ e₂' : Expr} (h₁ : Renames x y inside e₁ e₁')
      (h₂ : Renames x y inside e₂ e₂') : Renames x y inside (.binary op e₁ e₂) (.binary op e₁' e₂')
  | conditional {inside : Bool} {c c' t t' e e' : Expr} (hc : Renames x y inside c c')
      (ht : Renames x y inside t t') (he : Renames x y inside e e') :
      Renames x y inside (.conditional c t e) (.conditional c' t' e')
  | call {inside : Bool} {n : String} {args args' : List Expr} (hn : n ≠ y)
      (hargs : RenamesList x y inside args args') :
      Renames x y inside (.call n args) (.call (renamed x y inside n) args')
  | kept {inside : Bool} {params : List String} {body body' : Expr} (hy : y ∉ params)
      (h : Renames x y (inside && x ∉ params) body body') :
      Renames x y inside (.lambda params body) (.lambda params body')
  | renamed {inside : Bool} {params : List String} {body body' : Expr} (hy : y ∉ params)
      (hx : x ∈ params) (h : Renames x y true body body') :
      Renames x y inside (.lambda params body) (.lambda (params.map (renameName x y)) body')

/-- What has become of each expression of a list. -/
inductive Expr.RenamesList (x y : String) : Bool → List Expr → List Expr → Prop
  | nil {inside : Bool} : RenamesList x y inside [] []
  | cons {inside : Bool} {e e' : Expr} {es es' : List Expr} (h : Renames x y inside e e')
      (hs : RenamesList x y inside es es') : RenamesList x y inside (e :: es) (e' :: es')

end

variable {x y : String}

theorem Expr.RenamesList.forall₂ {inside : Bool} : {es es' : List Expr} →
    RenamesList x y inside es es' → List.Forall₂ (Renames x y inside) es es'
  | [], _, .nil => .nil
  | _ :: _, _, .cons h hs => .cons h hs.forall₂

theorem Expr.RenamesList.append {inside : Bool} {es es' fs fs' : List Expr}
    (h : RenamesList x y inside es es') (h' : RenamesList x y inside fs fs') :
    RenamesList x y inside (es ++ fs) (es' ++ fs') := by
  match es, es', h with
  | [], _, .nil => exact h'
  | _ :: _, _, .cons he hes => exact .cons he (hes.append h')

mutual

/-- An expression without the new name is its own renaming, where the old name is kept. -/
theorem Expr.renames_self : (e : Expr) → y ∉ e.names → Renames x y false e e
  | .number v, _ => .number v
  | .var _, h => .var fun heq => h (heq ▸ List.mem_singleton_self _)
  | .unary _ e, h => .unary (Expr.renames_self e h)
  | .binary _ e₁ e₂, h => by
    rw [names, List.mem_append, not_or] at h
    exact .binary (Expr.renames_self e₁ h.1) (Expr.renames_self e₂ h.2)
  | .conditional c t e, h => by
    rw [names, List.mem_append, List.mem_append, not_or, not_or] at h
    exact .conditional (Expr.renames_self c h.1) (Expr.renames_self t h.2.1)
      (Expr.renames_self e h.2.2)
  | .call _ args, h => by
    rw [names, List.mem_cons, not_or] at h
    exact .call (Ne.symm h.1) (Expr.renames_self_list args h.2)
  | .lambda _ body, h => by
    rw [names, List.mem_append, not_or] at h
    exact .kept h.1 (Expr.renames_self body h.2)

theorem Expr.renames_self_list : (es : List Expr) → y ∉ Expr.namesList es →
    RenamesList x y false es es
  | [], _ => .nil
  | e :: es, h => by
    rw [namesList, List.mem_append, not_or] at h
    exact .cons (Expr.renames_self e h.1) (Expr.renames_self_list es h.2)

end

mutual

/-- Renaming one name to another that does not occur is a renaming in the sense of the relation. -/
theorem Expr.renames_rename : (e : Expr) → y ∉ e.names → Renames x y true e (e.rename x y)
  | .number v, _ => by
    unfold rename
    exact .number v
  | .var _, h => by
    unfold rename
    exact .var fun heq => h (heq ▸ List.mem_singleton_self _)
  | .unary _ e, h => by
    unfold rename
    exact .unary (Expr.renames_rename e h)
  | .binary _ e₁ e₂, h => by
    rw [names, List.mem_append, not_or] at h
    unfold rename
    exact .binary (Expr.renames_rename e₁ h.1) (Expr.renames_rename e₂ h.2)
  | .conditional c t e, h => by
    rw [names, List.mem_append, List.mem_append, not_or, not_or] at h
    unfold rename
    exact .conditional (Expr.renames_rename c h.1) (Expr.renames_rename t h.2.1)
      (Expr.renames_rename e h.2.2)
  | .call _ args, h => by
    rw [names, List.mem_cons, not_or] at h
    unfold rename
    exact .call (Ne.symm h.1) (Expr.renames_renameList args h.2)
  | .lambda params body, h => by
    rw [names, List.mem_append, not_or] at h
    unfold rename
    by_cases hx : x ∈ params
    · rw [if_pos hx]
      refine .kept h.1 ?_
      simpa [hx] using Expr.renames_self body h.2
    · rw [if_neg hx]
      refine .kept h.1 ?_
      simpa [hx] using Expr.renames_rename body h.2

theorem Expr.renames_renameList : (es : List Expr) → y ∉ Expr.namesList es →
    RenamesList x y true es (Expr.renameList x y es)
  | [], _ => by
    unfold renameList
    exact .nil
  | e :: es, h => by
    rw [namesList, List.mem_append, not_or] at h
    unfold renameList
    exact .cons (Expr.renames_rename e h.1) (Expr.renames_renameList es h.2)

end

/-- Where `y` is a new name, renaming one parameter is a renaming seen from outside. -/
theorem Expr.RenamesParam.renames {e e' : Expr} (h : e.RenamesParam x y e') (hy : y ∉ e.names) :
    Renames x y false e e' := by
  induction h with
  | here hx =>
    rw [names, List.mem_append, not_or] at hy
    exact .renamed hy.1 hx (Expr.renames_rename _ hy.2)
  | unary _ ih => exact .unary (ih hy)
  | left _ ih =>
    rw [names, List.mem_append, not_or] at hy
    exact .binary (ih hy.1) (Expr.renames_self _ hy.2)
  | right _ ih =>
    rw [names, List.mem_append, not_or] at hy
    exact .binary (Expr.renames_self _ hy.1) (ih hy.2)
  | condition _ ih =>
    rw [names, List.mem_append, List.mem_append, not_or, not_or] at hy
    exact .conditional (ih hy.1) (Expr.renames_self _ hy.2.1) (Expr.renames_self _ hy.2.2)
  | thenBranch _ ih =>
    rw [names, List.mem_append, List.mem_append, not_or, not_or] at hy
    exact .conditional (Expr.renames_self _ hy.1) (ih hy.2.1) (Expr.renames_self _ hy.2.2)
  | elseBranch _ ih =>
    rw [names, List.mem_append, List.mem_append, not_or, not_or] at hy
    exact .conditional (Expr.renames_self _ hy.1) (Expr.renames_self _ hy.2.1) (ih hy.2.2)
  | @argument name before after e e' _ ih =>
    rw [names, List.mem_cons, not_or] at hy
    rw [namesList_append, namesList, List.mem_append, List.mem_append, not_or, not_or] at hy
    exact .call (Ne.symm hy.1) ((Expr.renames_self_list before hy.2.1).append
      (.cons (ih hy.2.2.1) (Expr.renames_self_list after hy.2.2.2)))
  | body _ ih =>
    rw [names, List.mem_append, not_or] at hy
    exact .kept hy.1 (ih hy.2)

end Abacus
