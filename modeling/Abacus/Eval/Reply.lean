import Abacus.Eval.Evaluator
import Abacus.Source

/-!
# Evaluating sources

A source is read and then evaluated in a frame of a store. Reading fails before anything is
evaluated, so that it leaves the store as it is.
-/

namespace Abacus

/-- Why a source has no value. -/
inductive Failure where
  | source (error : SourceError)
  | fault (fault : Fault)
deriving Repr, DecidableEq

/-- The answer to a source: its value, and everything written on the way. -/
structure Reply where
  result : Except Failure Float
  log : List Emission

/-- The lines about the reading, if it is traced. -/
def Settings.readingLog (set : Settings) (readTrace : List Token → List String) (source : String) :
    List Emission :=
  if set.traceReading then (sourceTrace readTrace source).map .traced else []

/-- The answer to a source that could be read, after the lines about the reading. -/
def Outcome.reply (outcome : Outcome Float) (log : List Emission) : Reply :=
  ⟨outcome.result.mapError .fault, log ++ outcome.log⟩

/-- Evaluates a source as a program in a frame. -/
def Store.evalProgram (s : Store) (set : Settings) (frame : FrameId) (source : String) :
    Reply × Store :=
  let log := set.readingLog Program.readTrace source
  match Program.ofSource source with
  | .error e => (⟨.error (.source e), log⟩, s)
  | .ok p =>
    let outcome := (set.evalProgram frame p).start s
    (outcome.reply log, outcome.store)

/-- Evaluates a source as a single expression, whose value must be a number, in a frame. -/
def Store.evalExpr (s : Store) (set : Settings) (frame : FrameId) (source : String) :
    Reply × Store :=
  let log := set.readingLog Expr.readTrace source
  match Expr.ofSource source with
  | .error e => (⟨.error (.source e), log⟩, s)
  | .ok x =>
    let outcome := (set.evalNumber frame x).start s
    (outcome.reply log, outcome.store)

namespace Store

/-- A store with an empty root frame. -/
def initial : Store := (Store.empty.addFrame .empty none).2

/-- The root frame of an initial store. -/
def root : FrameId := 0

end Store

/-- Evaluates a source as a program on its own. -/
def evalProgram (set : Settings) (source : String) : Reply :=
  (Store.initial.evalProgram set Store.root source).1

/-- Evaluates a source as a single expression on its own. -/
def evalExpr (set : Settings) (source : String) : Reply :=
  (Store.initial.evalExpr set Store.root source).1

end Abacus
