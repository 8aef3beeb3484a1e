import Abacus.Eval.Evaluator
import Abacus.Proofs.Eval.Policy
import Mathlib.Logic.Relation

/-!
# Where faults come from

A `Site` is a place of a run at which an expression is evaluated. Evaluating one site comes to
evaluate others: operands, arguments, a chosen branch, the body of a function that is called.
`Site.Next` says which, with the results on the way, and `Site.Raises` says with which fault a site
ends by itself.

* `Site.fault_step`: a site that ends with a fault raises it or comes to a site that ends with it.
* `Site.fault_origin`: so that every fault is raised at a site that evaluation comes to. Sites get
  smaller on the way: calls may be nested less deep, or the expression is a smaller one.
* `Site.fault_of_reach`: the other way round, a fault ends every site on the way to it.
* `Program.fault_origin` and `Program.fault_of_reaches`: the same for programs, whose statements add
  two causes of their own.
-/

namespace Abacus

/-! ## Runs of a few steps -/

namespace Run

variable {α β : Type} {x : Run α} {k : α → Run β} {s t : State} {e : Fault}

/-- Two steps give a result only if each of them does. -/
theorem ok_of_on_bind {b : β} (h : on (x >>= k) s = (.ok b, t)) :
    ∃ a u, x.on s = (.ok a, u) ∧ (k a).on u = (.ok b, t) := by
  rw [on_bind] at h
  cases hx : x.on s with | mk r u =>
  rw [hx] at h
  cases r with
  | ok a => exact ⟨a, u, rfl, h⟩
  | error e => cases h

/-- Two steps fail where the first one does, or behind it where the second one does. -/
theorem error_of_on_bind (h : on (x >>= k) s = (.error e, t)) :
    x.on s = (.error e, t) ∨ ∃ a u, x.on s = (.ok a, u) ∧ (k a).on u = (.error e, t) := by
  rw [on_bind] at h
  cases hx : x.on s with | mk r u =>
  rw [hx] at h
  cases r with
  | ok a => exact .inr ⟨a, u, rfl, h⟩
  | error _ =>
    cases h
    exact .inl rfl

theorem on_store_bind (k : Store → Run β) (s : State) : on (store >>= k) s = (k s.store).on s :=
  on_bind_ok (on_store s)

/-- The fault of a value that stands where `place` needs a number. -/
def notNumber (place : String) (closure : Closure) : Fault :=
  .eval (.functionAsNumber closure.shown closure.name place)

theorem on_toNumber_number (place : String) (x : Float) (s : State) :
    (toNumber place (.number x)).on s = (.ok x, s) := rfl

theorem on_toNumber_closure (place : String) (c : ClosureId) (s : State) :
    (toNumber place (.closure c)).on s = (.error (notNumber place (s.store.closure c)), s) :=
  on_store_bind _ s

/-- Only a number is taken for a number, and nothing changes. -/
theorem ok_of_toNumber {place : String} {v : Value} {a : Float}
    (h : (toNumber place v).on s = (.ok a, t)) : v = .number a ∧ s = t := by
  cases v with
  | number x =>
    cases h
    exact ⟨rfl, rfl⟩
  | closure c =>
    rw [on_toNumber_closure] at h
    cases h

/-- What is no number is a function, and the error is about this function. -/
theorem error_of_toNumber {place : String} {v : Value}
    (h : (toNumber place v).on s = (.error e, t)) :
    ∃ c, v = .closure c ∧ e = notNumber place (s.store.closure c) ∧ s = t := by
  cases v with
  | number x => cases h
  | closure c =>
    rw [on_toNumber_closure] at h
    cases h
    exact ⟨c, rfl, rfl, rfl⟩

theorem error_of_ofEval {r : Except EvalError α} (h : (ofEval r).on s = (.error e, t)) :
    ∃ err, r = .error err ∧ e = .eval err ∧ s = t := by
  cases r with
  | ok a => cases h
  | error err =>
    cases h
    exact ⟨err, rfl, rfl, rfl⟩

/-- A note changes nothing but the log. -/
theorem on_note (traced : Bool) (line : Store → String) (s : State) :
    ∃ log, (note traced line).on s = (.ok (), ⟨s.store, log⟩) := by
  cases traced with
  | false => exact ⟨s.log, rfl⟩
  | true => exact ⟨_, rfl⟩

/-- A built-in function fails as its evaluation does, and nothing is printed then. -/
theorem error_of_builtin {b : Builtin} {args : List Float}
    (h : (builtin b args).on s = (.error e, t)) : b.eval args = .error e ∧ s = t := by
  unfold builtin at h
  cases hb : b.eval args with
  | error err =>
    rw [hb] at h
    cases h
    exact ⟨rfl, rfl⟩
  | ok x =>
    rw [hb] at h
    dsimp only at h
    split at h
    · cases h
    · cases h

theorem ok_of_ensureFree {name : String} {a : Unit} (h : (ensureFree name).on s = (.ok a, t)) :
    reservedKind? name = none ∧ s = t := by
  unfold ensureFree at h
  split at h
  · cases h
  · rename_i hfree
    cases h
    exact ⟨hfree, rfl⟩

/-- Only a reserved name is refused, and nothing changes. -/
theorem error_of_ensureFree {name : String} (h : (ensureFree name).on s = (.error e, t)) :
    ∃ kind, reservedKind? name = some kind ∧ e = .eval (.reservedName name kind) ∧ s = t := by
  unfold ensureFree at h
  split at h
  · rename_i kind hkind
    cases h
    exact ⟨kind, hkind, rfl, rfl⟩
  · cases h

theorem ok_of_ensureFree_all {params : List String} {a : Unit}
    (h : (params.forM ensureFree).on s = (.ok a, t)) : s = t := by
  induction params generalizing s with
  | nil =>
    cases h
    rfl
  | cons name params ih =>
    obtain ⟨_, u, hname, h⟩ := ok_of_on_bind h
    rw [(ok_of_ensureFree hname).2, ih h]

/-- If names are refused, one of them is reserved. -/
theorem error_of_ensureFree_all {params : List String}
    (h : (params.forM ensureFree).on s = (.error e, t)) :
    ∃ name ∈ params, ∃ kind, reservedKind? name = some kind ∧
      e = .eval (.reservedName name kind) := by
  induction params generalizing s with
  | nil => cases h
  | cons name params ih =>
    rcases error_of_on_bind h with h | ⟨_, u, -, h⟩
    · obtain ⟨kind, hkind, he, -⟩ := error_of_ensureFree h
      exact ⟨name, List.mem_cons_self, kind, hkind, he⟩
    · obtain ⟨name', hmem, hkind⟩ := ih h
      exact ⟨name', List.mem_cons_of_mem _ hmem, hkind⟩

end Run

/-- A variable fails only if it is no constant and is not bound in any frame around. -/
theorem error_of_evalVariable {f : FrameId} {name : String} {s t : State} {e : Fault}
    (h : (evalVariable f name).on s = (.error e, t)) :
    constant? name = none ∧ s.store.lookup f name = none ∧
      e = .eval (.undefinedVariable name) ∧ s = t := by
  unfold evalVariable at h
  split at h
  · cases h
  · rename_i hconstant
    rw [Run.on_store_bind] at h
    split at h
    · cases h
    · rename_i hnone
      cases h
      exact ⟨hconstant, hnone, rfl, rfl⟩

/-- A function is found where the name is bound to one. -/
theorem ok_of_findFunction {f : FrameId} {name : String} {s t : State} {c : ClosureId}
    (h : (findFunction f name).on s = (.ok c, t)) :
    s.store.lookup f name = some (.closure c) ∧ s = t := by
  unfold findFunction at h
  rw [Run.on_store_bind] at h
  split at h
  · rename_i hc
    cases h
    exact ⟨hc, rfl⟩
  · cases h

theorem on_findFunction {f : FrameId} {name : String} {s : State} {c : ClosureId}
    (h : s.store.lookup f name = some (.closure c)) :
    (findFunction f name).on s = (.ok c, s) := by
  unfold findFunction
  rw [Run.on_store_bind, h]
  rfl

/-- A function is not found where the nearest binding is none or a number. -/
theorem error_of_findFunction {f : FrameId} {name : String} {s t : State} {e : Fault}
    (h : (findFunction f name).on s = (.error e, t)) :
    (∀ c, s.store.lookup f name ≠ some (.closure c)) ∧
      e = .eval (.unknownFunction name) ∧ s = t := by
  unfold findFunction at h
  rw [Run.on_store_bind] at h
  split at h
  · cases h
  · rename_i hno
    cases h
    exact ⟨hno, rfl, rfl⟩

/-- Making a function only adds it to the store. -/
theorem ok_of_evalLambda {f : FrameId} {params : List String} {body : Expr} {s t : State}
    {v : Value} (h : (evalLambda f params body).on s = (.ok v, t)) :
    t.store = (s.store.addClosure ⟨params, body, f, none⟩).2 := by
  obtain ⟨_, u, hparams, h⟩ := Run.ok_of_on_bind h
  rw [Run.on_bind_ok (Run.on_add _ u)] at h
  cases h
  rw [Run.ok_of_ensureFree_all hparams]

/-- Making a function fails only for a reserved parameter. -/
theorem error_of_evalLambda {f : FrameId} {params : List String} {body : Expr} {s t : State}
    {e : Fault} (h : (evalLambda f params body).on s = (.error e, t)) :
    ∃ name ∈ params, ∃ kind, reservedKind? name = some kind ∧
      e = .eval (.reservedName name kind) := by
  rcases Run.error_of_on_bind h with h | ⟨_, u, -, h⟩
  · exact Run.error_of_ensureFree_all h
  · cases h

section Arguments

variable {call : Caller} {traced : Bool} {f : FrameId} {s t : State} {e : Fault}

/-- Arguments that have no values: the first one that has none. -/
theorem error_of_evalList {xs : List Expr}
    (h : (Expr.evalList call traced f xs).on s = (.error e, t)) :
    ∃ before x after vs u, xs = before ++ x :: after ∧
      (Expr.evalList call traced f before).on s = (.ok vs, u) ∧
      (x.eval call traced f).on u = (.error e, t) := by
  induction xs generalizing s with
  | nil =>
    rw [Expr.evalList] at h
    cases h
  | cons x xs ih =>
    rw [Expr.evalList] at h
    rcases Run.error_of_on_bind h with hx | ⟨v, u, hx, h⟩
    · exact ⟨[], x, xs, [], s, rfl, by rw [Expr.evalList]; rfl, hx⟩
    · rcases Run.error_of_on_bind h with hxs | ⟨vs, w, -, h⟩
      · obtain ⟨before, y, after, vs, w, rfl, hbefore, hy⟩ := ih hxs
        refine ⟨x :: before, y, after, v :: vs, w, rfl, ?_, hy⟩
        rw [Expr.evalList, Run.on_bind_ok hx, Run.on_bind_ok hbefore]
        rfl
      · cases h

/-- Where the first expression of a list fails, the list does, behind what was evaluated before. -/
theorem on_evalList_error {before after : List Expr} {x : Expr} {vs : List Value} {u : State}
    (hbefore : (Expr.evalList call traced f before).on s = (.ok vs, u))
    (hx : (x.eval call traced f).on u = (.error e, t)) :
    (Expr.evalList call traced f (before ++ x :: after)).on s = (.error e, t) := by
  induction before generalizing s vs with
  | nil =>
    rw [Expr.evalList] at hbefore
    cases hbefore
    rw [List.nil_append, Expr.evalList, Run.on_bind_error hx]
  | cons y before ih =>
    rw [Expr.evalList] at hbefore
    obtain ⟨v, w, hy, hbefore⟩ := Run.ok_of_on_bind hbefore
    obtain ⟨vs', w', hbefore, h⟩ := Run.ok_of_on_bind hbefore
    cases h
    rw [List.cons_append, Expr.evalList, Run.on_bind_ok hy, Run.on_bind_error (ih hbefore)]

/-- Arguments that are no numbers: the first one that is none. -/
theorem error_of_evalNumbers {place : String} {xs : List Expr}
    (h : (Expr.evalNumbers call traced f place xs).on s = (.error e, t)) :
    ∃ before x after as u, xs = before ++ x :: after ∧
      (Expr.evalNumbers call traced f place before).on s = (.ok as, u) ∧
      ((x.eval call traced f).on u = (.error e, t) ∨
        ∃ c, (x.eval call traced f).on u = (.ok (.closure c), t) ∧
          e = Run.notNumber place (t.store.closure c)) := by
  induction xs generalizing s with
  | nil =>
    rw [Expr.evalNumbers] at h
    cases h
  | cons x xs ih =>
    -- Evaluating no expressions succeeds where it stands; the failing one may be the first.
    have hnil : (Expr.evalNumbers call traced f place []).on s = (.ok [], s) := by
      rw [Expr.evalNumbers]
      rfl
    rw [Expr.evalNumbers] at h
    rcases Run.error_of_on_bind h with hx | ⟨v, u, hx, h⟩
    · exact ⟨[], x, xs, [], s, rfl, hnil, .inl hx⟩
    · rcases Run.error_of_on_bind h with hv | ⟨a, w, hv, h⟩
      · obtain ⟨c, rfl, he, rfl⟩ := Run.error_of_toNumber hv
        exact ⟨[], x, xs, [], s, rfl, hnil, .inr ⟨c, hx, he⟩⟩
      · rcases Run.error_of_on_bind h with hxs | ⟨as, z, -, h⟩
        · obtain ⟨before, y, after, as, z, rfl, hbefore, hy⟩ := ih hxs
          refine ⟨x :: before, y, after, a :: as, z, rfl, ?_, hy⟩
          rw [Expr.evalNumbers, Run.on_bind_ok hx, Run.on_bind_ok hv, Run.on_bind_ok hbefore]
          rfl
        · cases h

/-- Where the first expression of a list of numbers fails, the list does, behind what was evaluated
before. -/
theorem on_evalNumbers_error {place : String} {before after : List Expr} {x : Expr}
    {as : List Float} {u : State}
    (hbefore : (Expr.evalNumbers call traced f place before).on s = (.ok as, u))
    (hx : (x.eval call traced f).on u = (.error e, t)) :
    (Expr.evalNumbers call traced f place (before ++ x :: after)).on s = (.error e, t) := by
  induction before generalizing s as with
  | nil =>
    rw [Expr.evalNumbers] at hbefore
    cases hbefore
    rw [List.nil_append, Expr.evalNumbers, Run.on_bind_error hx]
  | cons y before ih =>
    rw [Expr.evalNumbers] at hbefore
    obtain ⟨v, w, hy, hbefore⟩ := Run.ok_of_on_bind hbefore
    obtain ⟨a, w', hv, hbefore⟩ := Run.ok_of_on_bind hbefore
    obtain ⟨as', w'', hbefore, h⟩ := Run.ok_of_on_bind hbefore
    cases h
    rw [List.cons_append, Expr.evalNumbers, Run.on_bind_ok hy, Run.on_bind_ok hv,
      Run.on_bind_error (ih hbefore)]

end Arguments

/-! ## Sites -/

/-- An expression that is evaluated in a frame, from a state, where calls may be nested `limit`
deep. -/
structure Site where
  limit : Nat
  expr : Expr
  frame : FrameId
  state : State

namespace Site

/-- What evaluating the expression gives. -/
def outcome (traced : Bool) (p : Site) : Except Fault Value × State :=
  (p.expr.eval (callClosure traced p.limit) traced p.frame).on p.state

variable {traced : Bool}

/-- Evaluating the first site comes to evaluate the other one, whose value must be a number;
`place` tells in an error where it is needed. -/
inductive Operand (traced : Bool) : Site → String → Site → Prop
  | unary {l f s op x} : Operand traced ⟨l, .unary op x, f, s⟩ op.symbol ⟨l, x, f, s⟩
  | left {l f s op x y} : Operand traced ⟨l, .binary op x y, f, s⟩ op.symbol ⟨l, x, f, s⟩
  | right {l f s op x y a t} (hx : outcome traced ⟨l, x, f, s⟩ = (.ok (.number a), t))
      (hopen : op.decided? a = none) :
      Operand traced ⟨l, .binary op x y, f, s⟩ op.symbol ⟨l, y, f, t⟩
  | condition {l f s c x y} : Operand traced ⟨l, .conditional c x y, f, s⟩ "if" ⟨l, c, f, s⟩
  | argument {l f s name b before x after as t} (hb : Builtin.ofName? name = some b)
      (hbefore : (Expr.evalNumbers (callClosure traced l) traced f name before).on s =
        (.ok as, t)) :
      Operand traced ⟨l, .call name (before ++ x :: after), f, s⟩ name ⟨l, x, f, t⟩

/-- The site is a call by `name` that reaches the closure `c` with the arguments `vs`; the state is
the one behind the arguments. -/
inductive Calls (traced : Bool) : Site → String → ClosureId → List Value → State → Prop
  | intro {l f s name args c vs t} (hname : Builtin.ofName? name = none)
      (hc : s.store.lookup f name = some (.closure c))
      (hargs : (Expr.evalList (callClosure traced l) traced f args).on s = (.ok vs, t)) :
      Calls traced ⟨l, .call name args, f, s⟩ name c vs t

end Site

/-! ## Calls -/

/-- Opens the frame for a call of a closure. -/
def openCall (traced : Bool) (closure : Closure) (args : List Value) (label : String) :
    Run FrameId := do
  let bindings := Bindings.ofList (closure.params.zip args)
  let frame ← Run.add fun s => s.addFrame bindings (some closure.frame)
  Run.note traced fun s =>
    "  call " ++ label ++ "(" ++ s.shownList args ++ ") depth=" ++ toString (s.depth frame)
  return frame

/-- The name of a called closure in errors and traces. -/
def Closure.label (closure : Closure) (name : Option String) : String :=
  labelOr (labelOr "lambda" closure.name) name

section Calls

variable {traced : Bool} {limit : Nat} {c : ClosureId} {args : List Value} {s : State}
  {name : Option String}

/-- A function that is called with another number of arguments fails before anything else. -/
theorem on_callClosure_arity (h : args.length ≠ (s.store.closure c).arity) :
    (callClosure traced limit c args name).on s =
      (.error (.eval (.arityMismatch ((s.store.closure c).label name) (s.store.closure c).arity
        args.length false)), s) := by
  unfold callClosure
  rw [Run.on_store_bind]
  dsimp only
  rw [if_pos h]
  rfl

/-- Where no call may be nested any deeper, a call fails. -/
theorem on_callClosure_zero (h : args.length = (s.store.closure c).arity) :
    (callClosure traced 0 c args name).on s = (.error .tooDeep, s) := by
  unfold callClosure
  rw [Run.on_store_bind]
  dsimp only
  rw [if_neg (not_not_intro h)]
  rfl

/-- A call opens a frame and evaluates the body in it. -/
theorem on_callClosure_succ (h : args.length = (s.store.closure c).arity) :
    (callClosure traced (limit + 1) c args name).on s =
      (openCall traced (s.store.closure c) args ((s.store.closure c).label name) >>= fun frame =>
        (s.store.closure c).body.eval (callClosure traced limit) traced frame).on s := by
  rw [callClosure, Run.on_store_bind]
  dsimp only
  rw [if_neg (not_not_intro h)]
  unfold openCall
  simp only [bind_assoc, pure_bind]
  rfl

/-- Opening a call adds a frame with the arguments, below the frame in which the function was made.
-/
theorem on_openCall (traced : Bool) (closure : Closure) (args : List Value) (label : String)
    (s : State) : ∃ log, (openCall traced closure args label).on s =
      (.ok s.store.frames.size, ⟨(s.store.addFrame (.ofList (closure.params.zip args))
        (some closure.frame)).2, log⟩) := by
  unfold openCall
  rw [Run.on_bind_ok (Run.on_add _ s)]
  obtain ⟨log, hlog⟩ := Run.on_note traced (fun s => "  call " ++ label ++ "(" ++
    s.shownList args ++ ") depth=" ++ toString (s.depth _)) _
  exact ⟨log, Run.on_bind_ok hlog⟩

end Calls

/-! ## From a site to the next -/

namespace Site

variable {traced : Bool}

/-- Evaluating the first site comes to evaluate the second one. -/
inductive Next (traced : Bool) : Site → Site → Prop
  | operand {p place q} (h : Operand traced p place q) : Next traced p q
  | branch {l f s c x y a t} (hc : outcome traced ⟨l, c, f, s⟩ = (.ok (.number a), t)) :
      Next traced ⟨l, .conditional c x y, f, s⟩ ⟨l, if Number.isTrue a then x else y, f, t⟩
  | argument {l f s name c before x after vs t} (hname : Builtin.ofName? name = none)
      (hc : s.store.lookup f name = some (.closure c))
      (hbefore : (Expr.evalList (callClosure traced l) traced f before).on s = (.ok vs, t)) :
      Next traced ⟨l, .call name (before ++ x :: after), f, s⟩ ⟨l, x, f, t⟩
  | body {l x f s name c vs t g u} (h : Calls traced ⟨l + 1, x, f, s⟩ name c vs t)
      (harity : vs.length = (t.store.closure c).arity)
      (hopen : (openCall traced (t.store.closure c) vs ((t.store.closure c).label (some name))).on
        t = (.ok g, u)) :
      Next traced ⟨l + 1, x, f, s⟩ ⟨l, (t.store.closure c).body, g, u⟩

/-- The site ends with a fault that does not come from any site that it comes to. -/
inductive Raises (traced : Bool) : Site → Fault → Prop
  | undefinedVariable {l f s name} (hconstant : constant? name = none)
      (hnone : s.store.lookup f name = none) :
      Raises traced ⟨l, .var name, f, s⟩ (.eval (.undefinedVariable name))
  | unknownFunction {l f s name args} (hname : Builtin.ofName? name = none)
      (hno : ∀ c, s.store.lookup f name ≠ some (.closure c)) :
      Raises traced ⟨l, .call name args, f, s⟩ (.eval (.unknownFunction name))
  | notNumber {p place q c t} (h : Operand traced p place q)
      (hq : q.outcome traced = (.ok (.closure c), t)) :
      Raises traced p (Run.notNumber place (t.store.closure c))
  | operator {l f s op x y a t b u e} (hx : outcome traced ⟨l, x, f, s⟩ = (.ok (.number a), t))
      (hopen : op.decided? a = none) (hy : outcome traced ⟨l, y, f, t⟩ = (.ok (.number b), u))
      (he : op.eval a b = .error e) : Raises traced ⟨l, .binary op x y, f, s⟩ (.eval e)
  | builtin {l f s name args b xs t e} (hb : Builtin.ofName? name = some b)
      (hargs : (Expr.evalNumbers (callClosure traced l) traced f name args).on s = (.ok xs, t))
      (he : b.eval xs = .error e) : Raises traced ⟨l, .call name args, f, s⟩ e
  | reservedName {l f s params body name kind} (hname : name ∈ params)
      (hkind : reservedKind? name = some kind) :
      Raises traced ⟨l, .lambda params body, f, s⟩ (.eval (.reservedName name kind))
  | arityMismatch {p name c vs t} (h : Calls traced p name c vs t)
      (hne : vs.length ≠ (t.store.closure c).arity) :
      Raises traced p (.eval (.arityMismatch ((t.store.closure c).label (some name))
        (t.store.closure c).arity vs.length false))
  | tooDeep {p name c vs t} (h : Calls traced p name c vs t)
      (harity : vs.length = (t.store.closure c).arity) (hlimit : p.limit = 0) :
      Raises traced p .tooDeep

/-- An argument is smaller than the call. -/
theorem sizeOf_argument_lt (name : String) (before : List Expr) (x : Expr) (after : List Expr) :
    sizeOf x < sizeOf (Expr.call name (before ++ x :: after)) := by
  have hmem : x ∈ before ++ x :: after := List.mem_append_right before List.mem_cons_self
  have := List.sizeOf_lt_of_mem hmem
  rw [Expr.call.sizeOf_spec]
  omega

/-- An operand is evaluated at the same depth of calls, and it is smaller. -/
theorem Operand.smaller {p q : Site} {place : String} (h : Operand traced p place q) :
    q.limit = p.limit ∧ sizeOf q.expr < sizeOf p.expr := by
  cases h with
  | argument => exact ⟨rfl, sizeOf_argument_lt _ _ _ _⟩
  | _ =>
    refine ⟨rfl, ?_⟩
    simp only [Expr.unary.sizeOf_spec, Expr.binary.sizeOf_spec, Expr.conditional.sizeOf_spec]
    omega

/-- Calls may be nested less deep at the next site, or its expression is smaller. -/
theorem Next.smaller {p q : Site} (h : Next traced p q) :
    Prod.Lex (· < ·) (· < ·) (q.limit, sizeOf q.expr) (p.limit, sizeOf p.expr) := by
  rw [Prod.lex_def]
  cases h with
  | operand h => exact .inr h.smaller
  | branch hc =>
    refine .inr ⟨rfl, ?_⟩
    simp only [Expr.conditional.sizeOf_spec]
    split <;> omega
  | argument => exact .inr ⟨rfl, sizeOf_argument_lt _ _ _ _⟩
  | body => exact .inl (Nat.lt_succ_self _)

variable {l : Nat} {f : FrameId} {s t : State} {e : Fault}

/-! ## Faults on their way out -/

/-- A site fails where an operand of it does, with the fault of the operand. -/
theorem Operand.fault {p q : Site} {place : String} (h : Operand traced p place q)
    (hq : q.outcome traced = (.error e, t)) : p.outcome traced = (.error e, t) := by
  cases h with
  | unary | left | condition =>
    unfold outcome
    rw [Expr.eval]
    exact Run.on_bind_error hq
  | @right l f s op x y a u hx hopen =>
    unfold outcome
    rw [Expr.eval, Run.on_bind_ok hx, Run.on_bind_ok (Run.on_toNumber_number _ a u), hopen]
    exact Run.on_bind_error hq
  | argument hb hbefore =>
    unfold outcome
    rw [Expr.eval, hb]
    exact Run.on_bind_error (on_evalNumbers_error hbefore hq)

/-- A fault of a site ends every site that came to it. -/
theorem Next.fault {p q : Site} (h : Next traced p q) (hq : q.outcome traced = (.error e, t)) :
    p.outcome traced = (.error e, t) := by
  cases h with
  | operand h => exact h.fault hq
  | @branch l f s c x y a u hc =>
    unfold outcome at hq ⊢
    rw [Expr.eval, Run.on_bind_ok hc, Run.on_bind_ok (Run.on_toNumber_number _ a u)]
    dsimp only at hq ⊢
    split at hq
    · rwa [if_pos ‹_›]
    · rwa [if_neg ‹_›]
  | argument hname hc hbefore =>
    unfold outcome
    rw [Expr.eval, hname]
    exact (Run.on_bind_ok (on_findFunction hc)).trans
      (Run.on_bind_error (on_evalList_error hbefore hq))
  | body h harity hopen =>
    cases h with
    | intro hname hc hargs =>
      unfold outcome
      rw [Expr.eval, hname]
      refine (Run.on_bind_ok (on_findFunction hc)).trans ((Run.on_bind_ok hargs).trans ?_)
      rw [on_callClosure_succ harity, Run.on_bind_ok hopen]
      exact hq

/-! ## Faults and their origin -/

/-- An operand that has no number as its value ends the site with a fault. -/
theorem fault_of_operand {p q : Site} {place : String} (h : Operand traced p place q)
    (hq : q.outcome traced = (.error e, t) ∨
      ∃ c, q.outcome traced = (.ok (.closure c), t) ∧
        e = Run.notNumber place (t.store.closure c)) :
    Raises traced p e ∨ ∃ q, Next traced p q ∧ q.outcome traced = (.error e, t) := by
  rcases hq with hq | ⟨c, hq, rfl⟩
  · exact .inr ⟨q, .operand h, hq⟩
  · exact .inl (.notNumber h hq)

/-- What a run that needs a number of `x` does when it ends with a fault. -/
theorem fault_of_number_bind {x : Expr} {place : String} {k : Float → Run Value}
    (h : (x.eval (callClosure traced l) traced f >>= fun v =>
      Run.toNumber place v >>= k).on s = (.error e, t)) :
    (outcome traced ⟨l, x, f, s⟩ = (.error e, t) ∨
      ∃ c, outcome traced ⟨l, x, f, s⟩ = (.ok (.closure c), t) ∧
        e = Run.notNumber place (t.store.closure c)) ∨
    ∃ a u, outcome traced ⟨l, x, f, s⟩ = (.ok (.number a), u) ∧ (k a).on u = (.error e, t) := by
  rcases Run.error_of_on_bind h with hx | ⟨v, u, hx, h⟩
  · exact .inl (.inl hx)
  · rcases Run.error_of_on_bind h with hv | ⟨a, w, hv, h⟩
    · obtain ⟨c, rfl, he, rfl⟩ := Run.error_of_toNumber hv
      exact .inl (.inr ⟨c, hx, he⟩)
    · obtain ⟨rfl, rfl⟩ := Run.ok_of_toNumber hv
      exact .inr ⟨a, u, hx, h⟩

/-- A call of a closure that ends with a fault. -/
theorem fault_of_call {x : Expr} {u : State} {name : String} {c : ClosureId} {vs : List Value}
    (hcall : Calls traced ⟨l, x, f, s⟩ name c vs u)
    (h : (callClosure traced l c vs (some name)).on u = (.error e, t)) :
    Raises traced ⟨l, x, f, s⟩ e ∨
      ∃ q, Next traced ⟨l, x, f, s⟩ q ∧ q.outcome traced = (.error e, t) := by
  by_cases harity : vs.length = (u.store.closure c).arity
  · cases l with
    | zero =>
      rw [on_callClosure_zero harity] at h
      cases h
      exact .inl (.tooDeep hcall harity rfl)
    | succ l =>
      rw [on_callClosure_succ harity] at h
      rcases Run.error_of_on_bind h with hopen | ⟨g, w, hopen, hbody⟩
      · obtain ⟨log, hlog⟩ := on_openCall traced (u.store.closure c) vs
          ((u.store.closure c).label (some name)) u
        rw [hlog] at hopen
        cases hopen
      · exact .inr ⟨_, .body hcall harity hopen, hbody⟩
  · rw [on_callClosure_arity harity] at h
    cases h
    exact .inl (.arityMismatch hcall harity)

/-- A site that ends with a fault raises it, or comes to a site that ends with it. -/
theorem fault_step {p : Site} (h : p.outcome traced = (.error e, t)) :
    Raises traced p e ∨ ∃ q, Next traced p q ∧ q.outcome traced = (.error e, t) := by
  obtain ⟨l, x, f, s⟩ := p
  unfold outcome at h
  -- In each case the evaluation is followed step by step: a step that fails is an operand or the
  -- call, and hands its fault on, or it raises the fault itself.
  cases x with
  | number x =>
    rw [Expr.eval] at h
    cases h
  | var name =>
    rw [Expr.eval] at h
    obtain ⟨hconstant, hnone, rfl, -⟩ := error_of_evalVariable h
    exact .inl (.undefinedVariable hconstant hnone)
  | unary op x =>
    rw [Expr.eval] at h
    rcases fault_of_number_bind h with hx | ⟨a, u, -, h⟩
    · exact fault_of_operand .unary hx
    · cases h
  | binary op x y =>
    rw [Expr.eval] at h
    rcases fault_of_number_bind h with hx | ⟨a, u, hx, h⟩
    · exact fault_of_operand .left hx
    · cases hopen : op.decided? a with
      -- The first operand decides, and what is decided is a value.
      | some c =>
        rw [hopen] at h
        cases h
      | none =>
        rw [hopen] at h
        rcases fault_of_number_bind h with hy | ⟨b, w, hy, h⟩
        · exact fault_of_operand (.right hx hopen) hy
        · rcases Run.error_of_on_bind h with h | ⟨z, _, -, h⟩
          · obtain ⟨err, he, rfl, -⟩ := Run.error_of_ofEval h
            exact .inl (.operator hx hopen hy he)
          · cases h
  | conditional c x y =>
    rw [Expr.eval] at h
    rcases fault_of_number_bind h with hc | ⟨a, u, hc, h⟩
    · exact fault_of_operand .condition hc
    · refine .inr ⟨_, .branch hc, ?_⟩
      -- The branch that is taken is evaluated last, so its outcome is that of the site.
      unfold outcome
      dsimp only
      split at h
      · rwa [if_pos ‹_›]
      · rwa [if_neg ‹_›]
  | call name args =>
    rw [Expr.eval] at h
    cases hb : Builtin.ofName? name with
    | some b =>
      rw [hb] at h
      rcases Run.error_of_on_bind h with hargs | ⟨xs, u, hargs, h⟩
      · obtain ⟨before, x, after, as, u, rfl, hbefore, hx⟩ := error_of_evalNumbers hargs
        exact fault_of_operand (.argument hb hbefore) hx
      · -- The note in front of a built-in function writes to the log only.
        obtain ⟨log, hlog⟩ := Run.on_note traced (fun _ => "  builtin " ++ name ++ "(" ++
          ", ".intercalate (xs.map Number.text) ++ ")") u
        rw [Run.on_bind_ok hlog] at h
        rcases Run.error_of_on_bind h with h | ⟨z, _, -, h⟩
        · exact .inl (.builtin hb hargs (Run.error_of_builtin h).1)
        · cases h
    | none =>
      rw [hb] at h
      rcases Run.error_of_on_bind h with hfind | ⟨c, u, hfind, h⟩
      · obtain ⟨hno, rfl, -⟩ := error_of_findFunction hfind
        exact .inl (.unknownFunction hb hno)
      · obtain ⟨hc, rfl⟩ := ok_of_findFunction hfind
        rcases Run.error_of_on_bind h with hargs | ⟨vs, u, hargs, h⟩
        · obtain ⟨before, x, after, vs, u, rfl, hbefore, hx⟩ := error_of_evalList hargs
          exact .inr ⟨_, .argument hb hc hbefore, hx⟩
        · -- The arguments are there, and the body of the function is what is left.
          exact fault_of_call (.intro hb hc hargs) h
  | lambda params body =>
    rw [Expr.eval] at h
    obtain ⟨name, hname, kind, hkind, rfl⟩ := error_of_evalLambda h
    exact .inl (.reservedName hname hkind)

open Relation (ReflTransGen)

/-- A fault with which a site ends is raised at a site that it comes to, and there the run ends. -/
theorem fault_origin (p : Site) (h : p.outcome traced = (.error e, t)) :
    ∃ q, ReflTransGen (Next traced) p q ∧ Raises traced q e ∧
      q.outcome traced = (.error e, t) := by
  rcases fault_step h with hraises | ⟨q, hnext, hq⟩
  · exact ⟨p, .refl, hraises, h⟩
  · obtain ⟨r, hreach, hr⟩ := fault_origin q hq
    exact ⟨r, .head hnext hreach, hr⟩
termination_by (p.limit, sizeOf p.expr)
decreasing_by exact hnext.smaller

/-- A fault is handed on from a site that evaluation reaches to the one where it started. -/
theorem fault_of_reach {p q : Site} (h : ReflTransGen (Next traced) p q)
    (hq : q.outcome traced = (.error e, t)) : p.outcome traced = (.error e, t) := by
  induction h with
  | refl => exact hq
  | tail _ hnext ih => exact ih (hnext.fault hq)

end Site

/-! ## Programs -/

/-- The expression of a statement. -/
def Stmt.value : Stmt → Expr
  | .assign _ x => x
  | .expr x => x

open Relation (ReflTransGen)

namespace Program

/-- From the state `s`, the program comes to evaluate the expression of one of its statements: those
before it have ended with a result. -/
inductive Starts (set : Settings) (f : FrameId) (p : Program) (s : State) : Site → Prop
  | intro {before stmt after result t u} (hp : p.statements = before ++ stmt :: after)
      (hbefore : (set.evalStmts f 0 (.number 0) before).on s = (.ok result, t))
      (hnote : (Run.note set.traceRun fun _ =>
        "Evaluating stmt " ++ toString before.length ++ ": " ++ stmt.outline).on t = (.ok (), u)) :
      Starts set f p s ⟨set.limit, stmt.value, f, u⟩

/-- From the state `s`, the program comes to evaluate the site. -/
def Reaches (set : Settings) (f : FrameId) (p : Program) (s : State) (q : Site) : Prop :=
  ∃ start, p.Starts set f s start ∧ ReflTransGen (Site.Next set.traceRun) start q

variable {set : Settings} {f : FrameId} {s t : State} {e : Fault}

/-- Statements that end with a fault: the first one that does. -/
theorem error_of_evalStmts {ss : List Stmt} {index : Nat} {result : Value}
    (h : (set.evalStmts f index result ss).on s = (.error e, t)) :
    ∃ before stmt after result' u v, ss = before ++ stmt :: after ∧
      (set.evalStmts f index result before).on s = (.ok result', u) ∧
      (Run.note set.traceRun fun _ => "Evaluating stmt " ++ toString (index + before.length) ++
        ": " ++ stmt.outline).on u = (.ok (), v) ∧
      (set.evalStmt f stmt).on v = (.error e, t) := by
  induction ss generalizing s index result with
  | nil =>
    rw [Settings.evalStmts] at h
    cases h
  | cons stmt ss ih =>
    rw [Settings.evalStmts] at h
    obtain ⟨log, hlog⟩ := Run.on_note set.traceRun (fun _ =>
      "Evaluating stmt " ++ toString index ++ ": " ++ stmt.outline) s
    rw [Run.on_bind_ok hlog] at h
    rcases Run.error_of_on_bind h with hstmt | ⟨v, w, hstmt, h⟩
    · exact ⟨[], stmt, ss, result, s, _, rfl, rfl, hlog, hstmt⟩
    · obtain ⟨before, stmt', after, result', u, v', rfl, hbefore, hnote, he⟩ := ih h
      refine ⟨stmt :: before, stmt', after, result', u, v', rfl, ?_, ?_, he⟩
      · rw [Settings.evalStmts, Run.on_bind_ok hlog, Run.on_bind_ok hstmt, hbefore]
      · rw [List.length_cons, Nat.add_comm before.length, ← Nat.add_assoc]
        exact hnote

/-- An expression ends a statement with a fault, or its target is reserved. -/
theorem error_of_evalStmt {stmt : Stmt} (h : (set.evalStmt f stmt).on s = (.error e, t)) :
    Site.outcome set.traceRun ⟨set.limit, stmt.value, f, s⟩ = (.error e, t) ∨
      ∃ name x kind, stmt = .assign name x ∧ reservedKind? name = some kind ∧
        e = .eval (.reservedName name kind) := by
  cases stmt with
  | expr x => exact .inl h
  | assign name x =>
    rcases Run.error_of_on_bind h with hx | ⟨v, u, -, h⟩
    · exact .inl hx
    · rcases Run.error_of_on_bind h with hfree | ⟨_, w, -, h⟩
      · obtain ⟨kind, hkind, he, -⟩ := Run.error_of_ensureFree hfree
        exact .inr ⟨name, x, kind, rfl, hkind, he⟩
      · rcases Run.error_of_on_bind h with hname | ⟨_, _, -, h⟩
        · cases v <;> cases hname
        · obtain ⟨log, hlog⟩ := Run.on_note set.traceRun _ _
          rw [Run.on_bind_ok hlog] at h
          rcases Run.error_of_on_bind h with hbind | ⟨_, _, -, h⟩
          · cases hbind
          · cases h

/-- The faults of a program come from the sites that it reaches, from an assignment to a reserved
name, or from a function that is its result. -/
theorem fault_origin (p : Program) (h : (set.evalProgram f p).on s = (.error e, t)) :
    (∃ q, p.Reaches set f s q ∧ q.Raises set.traceRun e ∧
      q.outcome set.traceRun = (.error e, t)) ∨
    (∃ name x kind, .assign name x ∈ p.statements ∧ reservedKind? name = some kind ∧
      e = .eval (.reservedName name kind)) ∨
    ∃ c, (set.evalStmts f 0 (.number 0) p.statements).on s = (.ok (.closure c), t) ∧
      e = .eval (.functionAsResult (t.store.closure c).shown (t.store.closure c).name) := by
  rcases Run.error_of_on_bind h with h | ⟨v, u, hv, h⟩
  · obtain ⟨before, stmt, after, result, u, v, hp, hbefore, hnote, hstmt⟩ := error_of_evalStmts h
    rcases error_of_evalStmt hstmt with hx | ⟨name, x, kind, rfl, hkind, he⟩
    · obtain ⟨q, hreach, hraises, hq⟩ := Site.fault_origin _ hx
      rw [Nat.zero_add] at hnote
      exact .inl ⟨q, ⟨_, .intro hp hbefore hnote, hreach⟩, hraises, hq⟩
    · have hmem : .assign name x ∈ p.statements := by
        rw [hp]
        exact List.mem_append_right before List.mem_cons_self
      exact .inr (.inl ⟨name, x, kind, hmem, hkind, he⟩)
  · cases v with
    | number x => cases h
    | closure c =>
      rw [Run.on_store_bind] at h
      cases h
      exact .inr (.inr ⟨c, hv, rfl⟩)

/-- Where the first statement fails, the statements do, behind what was run before. -/
theorem on_evalStmts_error {before after : List Stmt} {stmt : Stmt} {index : Nat}
    {result result' : Value} {u v : State}
    (hbefore : (set.evalStmts f index result before).on s = (.ok result', u))
    (hnote : (Run.note set.traceRun fun _ => "Evaluating stmt " ++
      toString (index + before.length) ++ ": " ++ stmt.outline).on u = (.ok (), v))
    (hstmt : (set.evalStmt f stmt).on v = (.error e, t)) :
    (set.evalStmts f index result (before ++ stmt :: after)).on s = (.error e, t) := by
  induction before generalizing s index result with
  | nil =>
    cases hbefore
    rw [List.nil_append, Settings.evalStmts]
    exact (Run.on_bind_ok hnote).trans (Run.on_bind_error hstmt)
  | cons stmt' before ih =>
    rw [Settings.evalStmts] at hbefore
    obtain ⟨_, w, hnote', hbefore⟩ := Run.ok_of_on_bind hbefore
    obtain ⟨v', w', hstmt', hbefore⟩ := Run.ok_of_on_bind hbefore
    rw [List.length_cons, Nat.add_comm before.length, ← Nat.add_assoc] at hnote
    rw [List.cons_append, Settings.evalStmts, Run.on_bind_ok hnote', Run.on_bind_ok hstmt']
    exact ih hbefore hnote

/-- A fault of a site that is reached ends the program. -/
theorem fault_of_reaches {p : Program} {q : Site} (h : p.Reaches set f s q)
    (hq : q.outcome set.traceRun = (.error e, t)) :
    (set.evalProgram f p).on s = (.error e, t) := by
  obtain ⟨start, hstart, hreach⟩ := h
  have hx := Site.fault_of_reach hreach hq
  cases hstart with
  | @intro before stmt after result u v hp hbefore hnote =>
    have hstmt : (set.evalStmt f stmt).on v = (.error e, t) := by
      cases stmt with
      | expr x => exact hx
      | assign name x => exact Run.on_bind_error hx
    rw [← Nat.zero_add before.length] at hnote
    rw [Settings.evalProgram, hp]
    exact Run.on_bind_error (on_evalStmts_error hbefore hnote hstmt)

end Program

end Abacus
