import Abacus.Eval.Builtin
import Abacus.Eval.Store

/-!
# Runs

A run works on a store, writes a log and ends with a result or a fault; what it did to the store and
what it wrote stay in both cases.
-/

namespace Abacus

/-- Something that a run writes. -/
inductive Emission where
  /-- Text that the program prints. -/
  | printed (text : String)
  /-- A line about the run itself. -/
  | traced (line : String)
deriving Repr, DecidableEq

/-- What a run works on: the store, and everything written so far. -/
structure State where
  store : Store
  log : Array Emission
deriving Inhabited

/-- A step of a run. -/
abbrev Run := ExceptT Fault (StateM State)

/-- What a run leaves when it is over. -/
structure Outcome (α : Type) where
  result : Except Fault α
  store : Store
  log : List Emission

/-- Starts a run on a store. -/
def Run.start {α : Type} (run : Run α) (s : Store) : Outcome α :=
  match (ExceptT.run run).run ⟨s, #[]⟩ with
  | (result, state) => ⟨result, state.store, state.log.toList⟩

namespace Run

/-- The store. -/
def store : Run Store := return (← get).store

/-- Changes the store. -/
def update (f : Store → Store) : Run Unit := modify fun s => { s with store := f s.store }

/-- Changes the store and gives the place of what was added. -/
def add (f : Store → Nat × Store) : Run Nat :=
  modifyGet fun ⟨store, log⟩ => let (id, store) := f store; (id, ⟨store, log⟩)

/-- Writes to the log. -/
def emit (e : Emission) : Run Unit := modify fun s => { s with log := s.log.push e }

/-- Writes a line about the run, if the run is traced. -/
def note (traced : Bool) (line : Store → String) : Run Unit :=
  if traced then do emit (.traced ("[EVAL] " ++ line (← store))) else pure ()

/-- Ends the run with an error of the language. -/
def fail {α : Type} (e : EvalError) : Run α := throw (.eval e)

/-- Ends the run if the name is reserved. -/
def ensureFree (name : String) : Run Unit :=
  match reservedKind? name with
  | some kind => fail (.reservedName name kind)
  | none => pure ()

/-- The number that a value is; `place` tells in an error where it was needed. -/
def toNumber (place : String) : Value → Run Float
  | .number x => pure x
  | .closure c => do
    let closure := (← store).closure c
    fail (.functionAsNumber closure.shown closure.name place)

/-- The result of a function whose error is an error of the language. -/
def ofEval {α : Type} : Except EvalError α → Run α
  | .ok a => pure a
  | .error e => fail e

/-- The value of a built-in function, printing what it prints. -/
def builtin (f : Builtin) (args : List Float) : Run Float :=
  match f.eval args with
  | .error e => throw e
  | .ok x => do
    match f.printed? args with
    | some text => emit (.printed text)
    | none => pure ()
    return x

end Run

end Abacus
