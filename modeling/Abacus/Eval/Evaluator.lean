import Abacus.Eval.Run

/-!
# Evaluation

Expressions are evaluated in a frame. Only a call leaves the expression at hand, so that evaluation
is a recursion on expressions for which a call is given, and a call is a recursion on how deep calls
may still be nested.
-/

namespace Abacus

/-- How a function is called: with arguments, and with the name under which it is called. -/
abbrev Caller := ClosureId → List Value → Option String → Run Value

/-- The value of a variable. Constants come before all bindings. -/
def evalVariable (frame : FrameId) (name : String) : Run Value :=
  match constant? name with
  | some x => return .number x
  | none => do
    match (← Run.store).lookup frame name with
    | some v => return v
    | none => Run.fail (.undefinedVariable name)

/-- The closure that a call by name reaches. -/
def findFunction (frame : FrameId) (name : String) : Run ClosureId := do
  match (← Run.store).lookup frame name with
  | some (.closure c) => return c
  | _ => Run.fail (.unknownFunction name)

/-- The value of a lambda: a new closure without a name. -/
def evalLambda (frame : FrameId) (params : List String) (body : Expr) : Run Value := do
  params.forM Run.ensureFree
  return .closure (← Run.add fun s => s.addClosure ⟨params, body, frame, none⟩)

mutual

/-- The value of an expression in a frame. -/
def Expr.eval (call : Caller) (traced : Bool) (frame : FrameId) : Expr → Run Value
  | .number x => return .number x
  | .var name => evalVariable frame name
  | .unary op x => do
    let a ← Run.toNumber op.symbol (← x.eval call traced frame)
    return .number (op.eval a)
  | .binary op x y => do
    let a ← Run.toNumber op.symbol (← x.eval call traced frame)
    match op.decided? a with
    | some c => return .number c
    | none =>
      let b ← Run.toNumber op.symbol (← y.eval call traced frame)
      return .number (← Run.ofEval (op.eval a b))
  | .conditional c t e => do
    let a ← Run.toNumber "if" (← c.eval call traced frame)
    if Number.isTrue a then t.eval call traced frame else e.eval call traced frame
  | .call name args =>
    match Builtin.ofName? name with
    | some f => do
      let xs ← Expr.evalNumbers call traced frame name args
      Run.note traced fun _ =>
        "  builtin " ++ name ++ "(" ++ ", ".intercalate (xs.map Number.text) ++ ")"
      return .number (← Run.builtin f xs)
    | none => do
      let c ← findFunction frame name
      let vs ← Expr.evalList call traced frame args
      call c vs (some name)
  | .lambda params body => evalLambda frame params body

/-- The values of expressions from left to right. -/
def Expr.evalList (call : Caller) (traced : Bool) (frame : FrameId) : List Expr → Run (List Value)
  | [] => return []
  | x :: xs => do
    let v ← x.eval call traced frame
    let vs ← Expr.evalList call traced frame xs
    return v :: vs

/-- The numbers that are the values of expressions from left to right; `place` tells in an error
where they were needed. -/
def Expr.evalNumbers (call : Caller) (traced : Bool) (frame : FrameId) (place : String) :
    List Expr → Run (List Float)
  | [] => return []
  | x :: xs => do
    let a ← Run.toNumber place (← x.eval call traced frame)
    let as ← Expr.evalNumbers call traced frame place xs
    return a :: as

end

/-- Calls a closure: its body is evaluated in a new frame that binds the parameters and hangs off
the frame in which the closure was made. Calls are nested `limit` deep at most. -/
def callClosure (traced : Bool) (limit : Nat) : Caller := fun id args name => do
  let closure := (← Run.store).closure id
  let label := Closure.labelOr (Closure.labelOr "lambda" closure.name) name
  if args.length ≠ closure.arity then
    Run.fail (.arityMismatch label closure.arity args.length false)
  else
    match limit with
    | 0 => throw .tooDeep
    | limit + 1 =>
      let bindings := Bindings.ofList (closure.params.zip args)
      let frame ← Run.add fun s => s.addFrame bindings (some closure.frame)
      Run.note traced fun s =>
        "  call " ++ label ++ "(" ++ s.shownList args ++ ") depth=" ++ toString (s.depth frame)
      closure.body.eval (callClosure traced limit) traced frame

/-! ## Statements and programs -/

/-- How a source is evaluated: whether its reading and its run are traced, and how deep its calls
may be nested. -/
structure Settings where
  traceReading : Bool
  traceRun : Bool
  limit : Nat
deriving Repr, DecidableEq

/-- The value of an expression. -/
def Settings.eval (set : Settings) (frame : FrameId) (x : Expr) : Run Value :=
  x.eval (callClosure set.traceRun set.limit) set.traceRun frame

/-- The value of an expression that must be a number. -/
def Settings.evalNumber (set : Settings) (frame : FrameId) (x : Expr) : Run Float := do
  Run.toNumber "result" (← set.eval frame x)

/-- Gives a closure its name, if it has none. -/
def nameValue (name : String) : Value → Run Unit
  | .number _ => pure ()
  | .closure c => Run.update fun s => s.nameClosure c name

/-- The value of a statement. An assignment binds it in the frame. -/
def Settings.evalStmt (set : Settings) (frame : FrameId) : Stmt → Run Value
  | .expr x => set.eval frame x
  | .assign name x => do
    let v ← set.eval frame x
    Run.ensureFree name
    nameValue name v
    Run.note set.traceRun fun s =>
      "  bind " ++ name ++ " = " ++ s.shown v ++ " (depth " ++ toString (s.depth frame) ++ ")"
    Run.update fun s => s.bind frame name v
    return v

/-- What the result of a program is after a statement: the value of the statement, unless it is the
definition of a function. -/
def nextResult (result : Value) : Stmt → Value → Value
  | .assign .., .closure _ => result
  | _, v => v

/-- Evaluates statements in order; `index` is the number of those before, and `result` theirs. -/
def Settings.evalStmts (set : Settings) (frame : FrameId) (index : Nat) (result : Value) :
    List Stmt → Run Value
  | [] => return result
  | s :: ss => do
    Run.note set.traceRun fun _ => "Evaluating stmt " ++ toString index ++ ": " ++ s.outline
    let v ← set.evalStmt frame s
    set.evalStmts frame (index + 1) (nextResult result s v) ss

/-- The result of a program, which must be a number. A program without results has the result
zero. -/
def Settings.evalProgram (set : Settings) (frame : FrameId) (p : Program) : Run Float := do
  match ← set.evalStmts frame 0 (.number 0) p.statements with
  | .number x => return x
  | .closure c =>
    let closure := (← Run.store).closure c
    Run.fail (.functionAsResult closure.shown closure.name)

end Abacus
