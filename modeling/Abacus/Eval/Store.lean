import Abacus.Bindings
import Abacus.Program.Outline

/-!
# Frames and closures

A frame binds names to values and hangs off the frame in which it was opened; a closure is a
function with the frame in which it was made. Frames and closures are shared by everything that
refers to them, so that the store holds them and values hold their places. A place, once given out,
stays what it is: frames and closures are only added, a frame keeps its parent, and a closure keeps
all but its name.
-/

namespace Abacus

/-- The place of a frame in the store. -/
abbrev FrameId := Nat

/-- The place of a closure in the store. -/
abbrev ClosureId := Nat

/-- What an expression evaluates to. -/
inductive Value where
  | number (x : Float)
  | closure (id : ClosureId)
deriving Repr, DecidableEq, Inhabited

/-- A scope: its own bindings and the frame in which names are looked up next. -/
structure Frame where
  bindings : Bindings Value
  parent : Option FrameId
deriving Repr, Inhabited

/-- A function value. It is named by the first assignment that binds it. -/
structure Closure where
  params : List String
  body : Expr
  frame : FrameId
  name : Option String
deriving Repr, Inhabited

namespace Closure

/-- The number of arguments that the function takes. -/
def arity (c : Closure) : Nat := c.params.length

/-- The name of a function without a name of its own. An empty name counts as none. -/
def labelOr (fallback : String) : Option String → String
  | none => fallback
  | some name => if name.isEmpty then fallback else name

/-- The function in messages and traces. -/
def shown (c : Closure) : String :=
  "<" ++ labelOr "lambda" c.name ++ "(" ++ ", ".intercalate c.params ++ ")>"

/-- The outline of the function. -/
def outline (c : Closure) : String :=
  "Closure(" ++ bracketed (c.params.map Text.quote) ++ ", " ++ c.body.outline ++ ")"

end Closure

/-- All frames and closures. -/
structure Store where
  frames : Array Frame
  closures : Array Closure
deriving Repr, Inhabited

namespace Store

/-- A store with nothing in it. -/
def empty : Store := ⟨#[], #[]⟩

/-- The frame at a place. A place that was not given out holds an empty frame. -/
def frame (s : Store) (f : FrameId) : Frame := s.frames.getD f ⟨.empty, none⟩

/-- The closure at a place. A place that was not given out holds a function without parameters. -/
def closure (s : Store) (c : ClosureId) : Closure := s.closures.getD c ⟨[], .number 0, 0, none⟩

/-- The bindings of a frame. -/
def bindings (s : Store) (f : FrameId) : Bindings Value := (s.frame f).bindings

/-- Opens a frame. -/
def addFrame (s : Store) (bindings : Bindings Value) (parent : Option FrameId) : FrameId × Store :=
  (s.frames.size, { s with frames := s.frames.push ⟨bindings, parent⟩ })

/-- Makes a closure. -/
def addClosure (s : Store) (c : Closure) : ClosureId × Store :=
  (s.closures.size, { s with closures := s.closures.push c })

/-- Replaces the bindings of a frame. -/
def setBindings (s : Store) (f : FrameId) (bindings : Bindings Value) : Store :=
  { s with frames := s.frames.modify f fun frame => { frame with bindings } }

/-- Binds a name in a frame, and in no other. -/
def bind (s : Store) (f : FrameId) (name : String) (v : Value) : Store :=
  { s with
    frames := s.frames.modify f fun frame => { frame with bindings := frame.bindings.set name v } }

/-- Names a function that has no name yet. -/
def nameClosure (s : Store) (c : ClosureId) (name : String) : Store :=
  { s with
    closures := s.closures.modify c fun closure =>
      { closure with name := closure.name.or (some name) } }

/-- The value of a name in the nearest frame that binds it. A parent is older than its child, so the
search ends. -/
def lookup (s : Store) (f : FrameId) (name : String) : Option Value :=
  match (s.frame f).bindings.get? name with
  | some v => some v
  | none =>
    match (s.frame f).parent with
    | none => none
    | some p => if p < f then s.lookup p name else none
termination_by f

/-- The number of frames above a frame. -/
def depth (s : Store) (f : FrameId) : Nat :=
  match (s.frame f).parent with
  | none => 0
  | some p => if p < f then s.depth p + 1 else 0
termination_by f

/-- A value in traces. -/
def shown (s : Store) : Value → String
  | .number x => Number.text x
  | .closure c => (s.closure c).shown

/-- Values in traces. -/
def shownList (s : Store) (vs : List Value) : String := ", ".intercalate (vs.map s.shown)

end Store

end Abacus
