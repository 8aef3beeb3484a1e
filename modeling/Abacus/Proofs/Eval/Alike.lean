import Abacus.Eval.Reply
import Mathlib.Data.List.Forall2

/-!
# The same but for names of functions

A function takes its name from the first assignment that binds it, and shows it in messages and in
traces; nothing else depends on it. Texts, errors and whole answers are *alike* when they are the
same but for such names. The functions behind them have the same parameters, so that even there a
text shows everything else alike.
-/

namespace Abacus

/-! ## Texts -/

/-- The texts are the same but for the names of the functions that they show. -/
inductive TextAlike : String → String → Prop
  | refl (text : String) : TextAlike text text
  | shown {c c' : Closure} (hparams : c'.params = c.params) : TextAlike c.shown c'.shown
  | append {a a' b b' : String} (h : TextAlike a a') (h' : TextAlike b b') :
      TextAlike (a ++ b) (a' ++ b')

theorem TextAlike.within {a a' : String} (h : TextAlike a a') (front back : String) :
    TextAlike (front ++ a ++ back) (front ++ a' ++ back) :=
  ((TextAlike.refl front).append h).append (.refl back)

/-- Texts that correspond part by part also correspond when they are joined. -/
theorem intercalate_of_append {r : String → String → Prop} (hrefl : ∀ text, r text text)
    (happend : ∀ {a a' b b' : String}, r a a' → r b b' → r (a ++ b) (a' ++ b')) (sep : String)
    {as as' : List String} (h : List.Forall₂ r as as') :
    r (sep.intercalate as) (sep.intercalate as') := by
  induction h with
  | nil => exact hrefl _
  | @cons a a' as as' ha has ih =>
    cases has with
    | nil => simpa only [String.intercalate_singleton] using ha
    | cons hb hbs =>
      simp only [String.intercalate_cons_cons]
      exact happend (happend ha (hrefl sep)) ih

theorem TextAlike.intercalate {as as' : List String} (sep : String)
    (h : List.Forall₂ TextAlike as as') :
    TextAlike (sep.intercalate as) (sep.intercalate as') :=
  intercalate_of_append .refl .append sep h

/-! ## Errors -/

/-- The errors are the same but for the names of the functions that they show. -/
inductive EvalError.Alike : EvalError → EvalError → Prop
  | refl (e : EvalError) : Alike e e
  | functionAsNumber {c c' : Closure} (hparams : c'.params = c.params) (place : String) :
      Alike (.functionAsNumber c.shown c.name place) (.functionAsNumber c'.shown c'.name place)
  | functionAsResult {c c' : Closure} (hparams : c'.params = c.params) :
      Alike (.functionAsResult c.shown c.name) (.functionAsResult c'.shown c'.name)

theorem EvalError.Alike.message {e e' : EvalError} (h : e.Alike e') :
    TextAlike e.message e'.message := by
  cases h with
  | refl => exact .refl _
  | functionAsNumber hparams place =>
    have htext := (TextAlike.shown hparams).within "Function value " " used as a number in '"
    exact (htext.append (.refl place)).append (.refl "'")
  | functionAsResult hparams =>
    exact (TextAlike.shown hparams).within "Program result is a function value "
      ", expected a number"

/-- The faults are the same but for names of functions. -/
inductive Fault.Alike : Fault → Fault → Prop
  | refl (e : Fault) : Alike e e
  | eval {e e' : EvalError} (h : e.Alike e') : Alike (.eval e) (.eval e')

/-- The failures are the same but for names of functions. -/
inductive Failure.Alike : Failure → Failure → Prop
  | refl (e : Failure) : Alike e e
  | fault {e e' : Fault} (h : e.Alike e') : Alike (.fault e) (.fault e')

/-! ## Answers -/

/-- What is printed is the same, and lines of the trace are the same but for names of functions. -/
inductive Emission.Alike : Emission → Emission → Prop
  | printed (text : String) : Alike (.printed text) (.printed text)
  | traced {line line' : String} (h : TextAlike line line') : Alike (.traced line) (.traced line')

/-- Both results are the same value, or errors that are the same but for names of functions. -/
inductive ResultAlike : Except Failure Float → Except Failure Float → Prop
  | ok (x : Float) : ResultAlike (.ok x) (.ok x)
  | error {e e' : Failure} (h : e.Alike e') : ResultAlike (.error e) (.error e')

/-- What a line of the log prints. -/
def Emission.printed? : Emission → Option String
  | .printed text => some text
  | .traced _ => none

/-- The texts that a run printed, in order. -/
def printedTexts (log : List Emission) : List String := log.filterMap Emission.printed?

theorem printedTexts_alike {log log' : List Emission} (h : List.Forall₂ Emission.Alike log log') :
    printedTexts log' = printedTexts log := by
  induction h with
  | nil => rfl
  | cons he _ ih =>
    unfold printedTexts at ih ⊢
    cases he with
    | printed text => simp only [List.filterMap_cons, Emission.printed?, ih]
    | traced => simp only [List.filterMap_cons, Emission.printed?, ih]

end Abacus
