import Abacus.Document.Reader
import Abacus.Document.Writer
import Abacus.Program.Draft

/-!
# Programs as documents

Every expression and statement is an object whose field `type` tells its kind; a program is an
object with a field `statements` and no `type`. Reading back checks the fields of an object in the
order in which they are written, and the first fault is the one reported. It gives a draft: whatever
stands for a name is taken as it is. A text stands for a node if the names in the draft are strings.
-/

namespace Abacus

open Document (field?)

/-! ## Writing -/

/-- Names as a list of texts. -/
def Document.names (names : List String) : Document :=
  .list (names.map fun name : String => .text name)

mutual

/-- The document of an expression. -/
def Expr.toDocument : Expr → Document
  | .number x => .object [("type", .text "number"), ("value", .float x)]
  | .var name => .object [("type", .text "variable"), ("name", .text name)]
  | .unary op x =>
    .object [("type", .text "unaryop"), ("op", .text op.name), ("expr", x.toDocument)]
  | .binary op x y =>
    .object [("type", .text "binop"), ("op", .text op.name), ("left", x.toDocument),
      ("right", y.toDocument)]
  | .call name args =>
    .object [("type", .text "call"), ("name", .text name),
      ("args", .list (Expr.toDocumentList args))]
  | .conditional c t e =>
    .object [("type", .text "conditional"), ("condition", c.toDocument),
      ("then_branch", t.toDocument), ("else_branch", e.toDocument)]
  | .lambda params body =>
    .object [("type", .text "lambda"), ("params", .names params), ("body", body.toDocument)]

/-- The documents of the expressions of a list. -/
def Expr.toDocumentList : List Expr → List Document
  | [] => []
  | x :: xs => x.toDocument :: Expr.toDocumentList xs

end

/-- The document of a statement. -/
def Stmt.toDocument : Stmt → Document
  | .assign name value =>
    .object [("type", .text "assignment"), ("name", .text name), ("value", value.toDocument)]
  | .expr value => .object [("type", .text "expression"), ("expr", value.toDocument)]

/-- The document of a program. -/
def Program.toDocument (p : Program) : Document :=
  .object [("statements", .list (p.statements.map Stmt.toDocument))]

/-- The document of a node. -/
def Node.toDocument : Node → Document
  | .program p => p.toDocument
  | .stmt s => s.toDocument
  | .expr e => e.toDocument

/-- The text of the document of a node. -/
def Node.toText (n : Node) (pretty : Bool) : String := n.toDocument.write pretty

/-! ## Reading -/

/-- Why a text or a document stands for no draft. -/
inductive DocumentError where
  | text (error : Document.TextError)
  /-- An expression that is no object but has the given type. -/
  | notAnObject (typeName : String)
  | unknownExpr (kind : Document)
  | unknownStmt (kind : Document)
  | missingField (kind key : String)
  | unknownBinaryOp (op : Document)
  | unknownUnaryOp (op : Document)
  /-- The text of a number is no numeral. -/
  | badNumeral (points : List CodePoint)
  /-- A whole number is larger than every number. -/
  | numberTooLarge
  /-- The value of a number is of a type that no number is made from. -/
  | notANumber (typeName : String)
  /-- A value of the given type stands where a list belongs. -/
  | notAList (typeName : String)
deriving Repr, Inhabited

namespace DocumentError

/-- The message of an error. -/
def message : DocumentError → String
  | text .malformed => "Invalid AST JSON"
  | text (.tooManyDigits count) =>
    "Exceeds the limit (" ++ toString Document.maxDigits ++
      " digits) for integer string conversion: value has " ++ toString count ++
      " digits; use sys.set_int_max_str_digits() to increase the limit"
  | notAnObject typeName => "Expected an AST object, got " ++ typeName
  | unknownExpr kind => "Unknown expression type: " ++ kind.outline
  | unknownStmt kind => "Unknown statement type: " ++ kind.outline
  | missingField kind key =>
    "AST node " ++ Text.quote kind ++ " is missing field " ++ Text.quote key
  | unknownBinaryOp op => op.outline ++ " is not a valid BinaryOp"
  | unknownUnaryOp op => op.outline ++ " is not a valid UnaryOp"
  | badNumeral ps => "could not convert string to float: " ++ Text.quotePoints ps
  | numberTooLarge => "int too large to convert to float"
  | notANumber typeName => "no number can be made from a value of type " ++ typeName
  | notAList typeName => "a list is expected, not a value of type " ++ typeName

end DocumentError

namespace Document

/-- The field `type` of an object; an object without one is of kind `null`. -/
def kind (fields : List (List CodePoint × Document)) : Document :=
  (field? fields "type").getD .null

/-- The kind of an object, if it is a string. -/
def kindName? (fields : List (List CodePoint × Document)) : Option String := (kind fields).string?

/-- The value of a field that must be there. -/
def require (kind : String) (fields : List (List CodePoint × Document)) (key : String) :
    Except DocumentError Document :=
  match field? fields key with
  | some d => .ok d
  | none => .error (.missingField kind key)

/-- The number that a document stands for. Truth values count as one and zero, and a text may be any
numeral. -/
def toNumber : Document → Except DocumentError Float
  | .int n =>
    match Number.ofInt? n with
    | some x => .ok x
    | none => .error .numberTooLarge
  | .float x => .ok x
  | .bool b => .ok (if b then 1 else 0)
  | .text ps =>
    match (Text.string? ps).bind Number.read? with
    | some x => .ok x
    | none => .error (.badNumeral ps)
  | d => .error (.notANumber d.typeName)

/-- The items of a document: those of a list, the code points of a text, the keys of an object. -/
def toItems : Document → Except DocumentError (List Document)
  | .list items => .ok items
  | .text ps => .ok (ps.map fun p => .text [p])
  | .object fields => .ok (fields.map fun f => .text f.1)
  | d => .error (.notAList d.typeName)

/-- The binary operator that a document names. -/
def toBinaryOp (d : Document) : Except DocumentError BinaryOp :=
  match d.string?.bind BinaryOp.ofName? with
  | some op => .ok op
  | none => .error (.unknownBinaryOp d)

/-- The unary operator that a document names. -/
def toUnaryOp (d : Document) : Except DocumentError UnaryOp :=
  match d.string?.bind UnaryOp.ofName? with
  | some op => .ok op
  | none => .error (.unknownUnaryOp d)

end Document

open Document in
mutual

/-- The expression that a document stands for. -/
def DraftExpr.ofDocument : Document → Except DocumentError DraftExpr
  | .object fields =>
    match kindName? fields with
    | some "number" => do
      let d ← require "number" fields "value"
      return .number (← d.toNumber)
    | some "variable" => do
      return .var (← require "variable" fields "name")
    | some "unaryop" => do
      let op ← require "unaryop" fields "op"
      let op ← op.toUnaryOp
      let x ← DraftExpr.ofField "unaryop" "expr" fields
      return .unary op x
    | some "binop" => do
      let op ← require "binop" fields "op"
      let op ← op.toBinaryOp
      let x ← DraftExpr.ofField "binop" "left" fields
      let y ← DraftExpr.ofField "binop" "right" fields
      return .binary op x y
    | some "call" => do
      let name ← require "call" fields "name"
      let args ← DraftExpr.ofListField "call" "args" fields
      return .call name args
    | some "conditional" => do
      let c ← DraftExpr.ofField "conditional" "condition" fields
      let t ← DraftExpr.ofField "conditional" "then_branch" fields
      let e ← DraftExpr.ofField "conditional" "else_branch" fields
      return .conditional c t e
    | some "lambda" => do
      let d ← require "lambda" fields "params"
      let params ← d.toItems
      let body ← DraftExpr.ofField "lambda" "body" fields
      return .lambda params body
    | _ => .error (.unknownExpr (kind fields))
  | d => .error (.notAnObject d.typeName)

/-- The expression that the field `key` stands for. -/
def DraftExpr.ofField (kind key : String) :
    List (List CodePoint × Document) → Except DocumentError DraftExpr
  | [] => .error (.missingField kind key)
  | (k, d) :: fields =>
    if Text.points key = k then DraftExpr.ofDocument d else DraftExpr.ofField kind key fields

/-- The expressions that the items of the field `key` stand for. -/
def DraftExpr.ofListField (kind key : String) :
    List (List CodePoint × Document) → Except DocumentError (List DraftExpr)
  | [] => .error (.missingField kind key)
  | (k, d) :: fields =>
    if Text.points key = k then DraftExpr.ofItems d else DraftExpr.ofListField kind key fields

/-- The expressions that the items of a document stand for. Code points and keys are none. -/
def DraftExpr.ofItems : Document → Except DocumentError (List DraftExpr)
  | .list items => DraftExpr.ofDocumentList items
  | d => do
    match ← d.toItems with
    | [] => return []
    | item :: _ => .error (.notAnObject item.typeName)

/-- The expressions that documents stand for. -/
def DraftExpr.ofDocumentList : List Document → Except DocumentError (List DraftExpr)
  | [] => .ok []
  | d :: ds => do
    let x ← DraftExpr.ofDocument d
    let xs ← DraftExpr.ofDocumentList ds
    return x :: xs

end

/-- The statement that a document stands for. -/
def DraftStmt.ofDocument : Document → Except DocumentError DraftStmt
  | .object fields =>
    match Document.kindName? fields with
    | some "assignment" => do
      let name ← Document.require "assignment" fields "name"
      let value ← DraftExpr.ofField "assignment" "value" fields
      return .assign name value
    | some "expression" => do
      return .expr (← DraftExpr.ofField "expression" "expr" fields)
    | _ => .error (.unknownStmt (Document.kind fields))
  | _ => .error (.unknownStmt .null)

/-- The statements that the items of a document stand for. -/
def DraftStmt.ofItems (d : Document) : Except DocumentError (List DraftStmt) := do
  (← d.toItems).mapM DraftStmt.ofDocument

/-- The node that a document stands for. -/
def DraftNode.ofDocument (d : Document) : Except DocumentError DraftNode :=
  match d with
  | .object fields =>
    match field? fields "type", field? fields "statements" with
    | none, some statements => return .program (← DraftStmt.ofItems statements)
    | _, _ =>
      match Document.kindName? fields with
      | some "assignment" | some "expression" => return .stmt (← DraftStmt.ofDocument d)
      | _ => return .expr (← DraftExpr.ofDocument d)
  | _ => return .expr (← DraftExpr.ofDocument d)

/-- The draft that the text of a document stands for. -/
def DraftNode.ofText (s : String) : Except DocumentError DraftNode :=
  match Document.read s with
  | .error e => .error (.text e)
  | .ok d => DraftNode.ofDocument d

/-- Why a text stands for no node. -/
inductive NodeError where
  | document (error : DocumentError)
  /-- What stands for a name somewhere is no string. -/
  | badName
deriving Repr, Inhabited

/-- The node that the text of a document stands for. -/
def Node.ofText (s : String) : Except NodeError Node :=
  match DraftNode.ofText s with
  | .error e => .error (.document e)
  | .ok draft =>
    match draft.toNode? with
    | some n => .ok n
    | none => .error .badName

end Abacus
