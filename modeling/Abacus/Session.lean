import Abacus.Document.Basic
import Abacus.Eval.Reply

/-!
# Sessions

A session keeps its root frame from one source to the next. A source that fails leaves the root
bindings as they were, in the same order; a function that it named keeps its name.
-/

namespace Abacus

/-- A session: a store whose root frame is kept. -/
structure Session where
  store : Store
deriving Inhabited

/-- Why a value cannot be bound. -/
inductive SetError where
  | eval (error : EvalError)
  /-- A whole number is larger than every number. -/
  | numberTooLarge
deriving Repr, DecidableEq

namespace Session

/-- A session without bindings. -/
def empty : Session := ⟨.initial⟩

/-- The root bindings. -/
def bindings (s : Session) : Bindings Value := s.store.bindings Store.root

/-- The bound names, oldest first. -/
def names (s : Session) : List String := s.bindings.names

/-- Whether a name is bound. -/
def contains (s : Session) (name : String) : Bool := s.bindings.contains name

/-- The number that a name is bound to. -/
def number? (s : Session) (name : String) : Option Float :=
  match s.bindings.get? name with
  | some (.number x) => some x
  | _ => none

/-- Sets the root bindings back to earlier ones. -/
def restore (s : Session) (saved : Bindings Value) : Session :=
  ⟨s.store.setBindings Store.root saved⟩

/-- The number that a value from outside is. Truth values are none. -/
def numberOf (name : String) : Document → Except SetError Float
  | .int n =>
    match Number.ofInt? n with
    | some x => .ok x
    | none => .error .numberTooLarge
  | .float x => .ok x
  | d => .error (.eval (.notANumber d.typeName name))

/-- Binds a name to a number from outside. That the name is free is checked first. -/
def set (s : Session) (name : String) (value : Document) : Except SetError Session :=
  match reservedKind? name with
  | some kind => .error (.eval (.reservedName name kind))
  | none => do
    let x ← numberOf name value
    return ⟨s.store.bind Store.root name (.number x)⟩

/-- Evaluates a source in the session. -/
def eval (s : Session) (set : Settings) (source : String) : Reply × Session :=
  let saved := s.bindings
  let (reply, store) := s.store.evalProgram set Store.root source
  match reply.result with
  | .ok _ => (reply, ⟨store⟩)
  | .error _ => (reply, (Session.mk store).restore saved)

/-- Calls a closure under a name. -/
def call (s : Session) (set : Settings) (c : ClosureId) (args : List Value)
    (name : Option String) : Outcome Value :=
  (callClosure set.traceRun set.limit c args name).start s.store

end Session

end Abacus
