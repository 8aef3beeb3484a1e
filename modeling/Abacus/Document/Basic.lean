import Abacus.Bindings
import Abacus.Number.Text
import Abacus.Text.Quoted

/-!
# Documents

A document is a value of the JSON format. Whole numbers are kept apart from numbers with a point or
an exponent, and an object is a list of fields, each key once. Texts and keys are kept as their code
points.
-/

namespace Abacus

/-- The values of the format. -/
inductive Document where
  | null
  | bool (value : Bool)
  | int (value : Int)
  | float (value : Float)
  | text (points : List CodePoint)
  | list (items : List Document)
  | object (fields : List (List CodePoint × Document))
deriving Repr, Inhabited

namespace Document

/-- The name of the type of a value in messages. -/
def typeName : Document → String
  | null => "NoneType"
  | bool _ => "bool"
  | int _ => "int"
  | float _ => "float"
  | text _ => "str"
  | list _ => "list"
  | object _ => "dict"

mutual

/-- A value in messages. -/
def outline : Document → String
  | null => "None"
  | bool b => if b then "True" else "False"
  | int n => toString n
  | float x => Number.text x
  | text ps => Text.quotePoints ps
  | list items => "[" ++ ", ".intercalate (outlineItems items) ++ "]"
  | object fields => "\x7b" ++ ", ".intercalate (outlineFields fields) ++ "\x7d"

/-- The items of a list in messages. -/
def outlineItems : List Document → List String
  | [] => []
  | d :: ds => d.outline :: outlineItems ds

/-- The fields of an object in messages. -/
def outlineFields : List (List CodePoint × Document) → List String
  | [] => []
  | (key, d) :: fields => (Text.quotePoints key ++ ": " ++ d.outline) :: outlineFields fields

end

/-- The text that the document is, if that is a string. -/
def string? : Document → Option String
  | text ps => Text.string? ps
  | _ => none

@[simp] theorem string?_text (s : String) : (text s).string? = some s := Text.string?_points s

theorem string?_eq_some_iff {d : Document} {s : String} : d.string? = some s ↔ d = text s := by
  constructor
  · intro h
    cases d with
    | text ps => rw [Text.string?_eq_some_iff.mp h]
    | _ => cases h
  · rintro rfl
    exact string?_text s

/-- The value of a field. -/
def field? (fields : List (List CodePoint × Document)) (key : String) : Option Document :=
  Bindings.findEntry (Text.points key) fields

end Document

end Abacus
