import Abacus.Proofs.Document.RoundTrip
import Abacus.Proofs.Number.ReadBack
import Abacus.Proofs.Program.Drafts
import Abacus.Proofs.Program.Numbers

/-!
# Nodes are read back from documents

What is read from the document of a node is the draft of the node, whichever kind of object it is
(`DraftNode.ofDocument_toDocument`), and the text of the document is read back as the document. So a
node is read back from its text, and its text is written again (`Node.ofText_toText`). All that is
asked of the numbers of the node is that each is read back from its own text. Every number is, so
every node is read back (`Node.ofText_toText_eq`).
-/

namespace Abacus

/-! ## Results and fields -/

namespace Document

@[simp] theorem ok_bind {α β : Type} (a : α) (k : α → Except DocumentError β) :
    (Except.ok a >>= k) = k a := rfl

variable {kind key : String} {k : List CodePoint} {d : Document}
  {fields : List (List CodePoint × Document)}

@[simp] theorem kindName?_cons :
    kindName? ((Text.points "type", d) :: fields) = d.string? := by
  simp [kindName?, Document.kind, field?, Bindings.findEntry]

@[simp] theorem require_self : require kind ((Text.points key, d) :: fields) key = .ok d := by
  simp [require, field?, Bindings.findEntry]

@[simp] theorem require_cons (h : Text.points key ≠ k) :
    require kind ((k, d) :: fields) key = require kind fields key := by
  simp [require, field?, Bindings.findEntry, h]

end Document

namespace DraftExpr

variable {kind key : String} {k : List CodePoint} {d : Document}
  {fields : List (List CodePoint × Document)}

@[simp] theorem ofField_self :
    ofField kind key ((Text.points key, d) :: fields) = ofDocument d := by
  simp [ofField]

@[simp] theorem ofField_cons (h : Text.points key ≠ k) :
    ofField kind key ((k, d) :: fields) = ofField kind key fields := by
  simp [ofField, h]

@[simp] theorem ofListField_self :
    ofListField kind key ((Text.points key, d) :: fields) = ofItems d := by
  simp [ofListField]

@[simp] theorem ofListField_cons (h : Text.points key ≠ k) :
    ofListField kind key ((k, d) :: fields) = ofListField kind key fields := by
  simp [ofListField, h]

end DraftExpr

/-! ## Documents stand for what they were made from -/

@[simp] theorem BinaryOp.toBinaryOp_name (op : BinaryOp) :
    (Document.text op.name).toBinaryOp = .ok op := by
  have hname : BinaryOp.ofName? op.name = some op := by cases op <;> decide
  simp [Document.toBinaryOp, hname]

@[simp] theorem UnaryOp.toUnaryOp_name (op : UnaryOp) :
    (Document.text op.name).toUnaryOp = .ok op := by
  have hname : UnaryOp.ofName? op.name = some op := by cases op <;> decide
  simp [Document.toUnaryOp, hname]

/-- Where each item is read as another one is written, lists are read so. -/
theorem mapM_map_of_inverse {α β γ ε : Type} {read : β → Except ε γ} {write : α → β} {f : α → γ}
    (h : ∀ a, read (write a) = .ok (f a)) (as : List α) :
    (as.map write).mapM read = .ok (as.map f) := by
  have hpure : read ∘ write = pure ∘ f := funext h
  rw [List.mapM_map, hpure, ← List.mapM_map, List.mapM_pure, List.map_id']
  rfl

mutual

/-- What is read from the document of an expression is the draft of the expression. -/
theorem DraftExpr.ofDocument_toDocument : (x : Expr) → ofDocument x.toDocument = .ok x.draft
  | .number v => by
    simp [Expr.toDocument, Expr.draft, ofDocument, Document.toNumber]
  | .var name => by
    simp [Expr.toDocument, Expr.draft, ofDocument]
  | .unary op x => by
    simp [Expr.toDocument, Expr.draft, ofDocument, DraftExpr.ofDocument_toDocument x]
  | .binary op x y => by
    simp [Expr.toDocument, Expr.draft, ofDocument, DraftExpr.ofDocument_toDocument x,
      DraftExpr.ofDocument_toDocument y]
  | .conditional c t e => by
    simp [Expr.toDocument, Expr.draft, ofDocument, DraftExpr.ofDocument_toDocument c,
      DraftExpr.ofDocument_toDocument t, DraftExpr.ofDocument_toDocument e]
  | .call name args => by
    simp [Expr.toDocument, Expr.draft, ofDocument, ofItems,
      DraftExpr.ofDocumentList_toDocumentList args]
  | .lambda params body => by
    simp [Expr.toDocument, Expr.draft, ofDocument, Document.names, Document.toItems,
      DraftExpr.ofDocument_toDocument body]

theorem DraftExpr.ofDocumentList_toDocumentList : (xs : List Expr) →
    ofDocumentList (Expr.toDocumentList xs) = .ok (Expr.draftList xs)
  | [] => by simp [Expr.toDocumentList, Expr.draftList, ofDocumentList]
  | x :: xs => by
    simp [Expr.toDocumentList, Expr.draftList, ofDocumentList,
      DraftExpr.ofDocument_toDocument x, DraftExpr.ofDocumentList_toDocumentList xs]

end

theorem DraftStmt.ofDocument_toDocument (s : Stmt) : ofDocument s.toDocument = .ok s.draft := by
  cases s with
  | assign name value =>
    simp [Stmt.toDocument, Stmt.draft, ofDocument, DraftExpr.ofDocument_toDocument value]
  | expr value =>
    simp [Stmt.toDocument, Stmt.draft, ofDocument, DraftExpr.ofDocument_toDocument value]

theorem DraftStmt.ofItems_toDocument (ss : List Stmt) :
    ofItems (.list (ss.map Stmt.toDocument)) = .ok (ss.map Stmt.draft) := by
  simp [ofItems, Document.toItems, mapM_map_of_inverse DraftStmt.ofDocument_toDocument ss]

/-- The document of an expression is taken for no program and no statement. -/
theorem DraftNode.ofDocument_expr (x : Expr) : ofDocument x.toDocument = .ok (.expr x.draft) := by
  have hx := DraftExpr.ofDocument_toDocument x
  -- Which reader is asked depends on the field `type`, which differs from kind to kind.
  cases x
  all_goals
    rw [Expr.toDocument] at hx ⊢
    simp [ofDocument, hx, Document.field?, Bindings.findEntry]

theorem DraftNode.ofDocument_stmt (s : Stmt) : ofDocument s.toDocument = .ok (.stmt s.draft) := by
  have hs := DraftStmt.ofDocument_toDocument s
  cases s
  all_goals
    rw [Stmt.toDocument] at hs ⊢
    simp [ofDocument, hs, Document.field?, Bindings.findEntry]

/-- What is read from the document of a node is the draft of the node. -/
theorem DraftNode.ofDocument_toDocument (n : Node) : ofDocument n.toDocument = .ok n.draft := by
  cases n with
  | program p =>
    simp [Node.toDocument, Node.draft, Program.toDocument, ofDocument,
      DraftStmt.ofItems_toDocument p.statements, Document.field?, Bindings.findEntry]
  | stmt s => exact DraftNode.ofDocument_stmt s
  | expr x => exact DraftNode.ofDocument_expr x

/-! ## Texts of nodes -/

open Document (Readable ReadableItems ReadableFields)

theorem Document.readableItems_map {α : Type} {write : α → Document} {as : List α}
    (h : ∀ a ∈ as, (write a).Readable) : ReadableItems (as.map write) := by
  induction as with
  | nil => trivial
  | cons a as ih =>
    rw [List.forall_mem_cons] at h
    exact ⟨h.1, ih h.2⟩

theorem Document.readable_names (names : List String) : (Document.names names).Readable := by
  rw [Document.names, Readable]
  exact Document.readableItems_map fun name _ => ⟨name, rfl⟩

mutual

/-- The document of an expression is read back if the numbers of the expression are. -/
theorem Expr.readable_toDocument : (x : Expr) → (∀ v ∈ x.literals, Number.ReadsBack v) →
    x.toDocument.Readable
  | .number v, h => by
    rw [literals, List.forall_mem_singleton] at h
    simp [toDocument, Readable, ReadableFields, h]
  | .var name, _ => by
    simp [toDocument, Readable, ReadableFields]
  | .unary op x, h => by
    rw [literals] at h
    simp [toDocument, Readable, ReadableFields, Expr.readable_toDocument x h]
  | .binary op x y, h => by
    rw [literals, List.forall_mem_append] at h
    simp [toDocument, Readable, ReadableFields, Expr.readable_toDocument x h.1,
      Expr.readable_toDocument y h.2]
  | .conditional c t e, h => by
    rw [literals, List.forall_mem_append, List.forall_mem_append] at h
    simp [toDocument, Readable, ReadableFields, Expr.readable_toDocument c h.1,
      Expr.readable_toDocument t h.2.1, Expr.readable_toDocument e h.2.2]
  | .call name args, h => by
    rw [literals] at h
    simp [toDocument, Readable, ReadableFields, Expr.readable_toDocumentList args h]
  | .lambda params body, h => by
    rw [literals] at h
    simp [toDocument, Readable, ReadableFields, Document.readable_names,
      Expr.readable_toDocument body h]

theorem Expr.readable_toDocumentList : (xs : List Expr) →
    (∀ v ∈ Expr.literalsList xs, Number.ReadsBack v) → ReadableItems (Expr.toDocumentList xs)
  | [], _ => by simp [toDocumentList, ReadableItems]
  | x :: xs, h => by
    rw [literalsList, List.forall_mem_append] at h
    simp [toDocumentList, ReadableItems, Expr.readable_toDocument x h.1,
      Expr.readable_toDocumentList xs h.2]

end

theorem Stmt.readable_toDocument (s : Stmt) (h : ∀ v ∈ s.literals, Number.ReadsBack v) :
    s.toDocument.Readable := by
  cases s with
  | assign name value =>
    simp [toDocument, Readable, ReadableFields, value.readable_toDocument h]
  | expr value =>
    simp [toDocument, Readable, ReadableFields, value.readable_toDocument h]

theorem Program.readable_toDocument (p : Program) (h : ∀ v ∈ p.literals, Number.ReadsBack v) :
    p.toDocument.Readable := by
  have hitems : ReadableItems (p.statements.map Stmt.toDocument) :=
    Document.readableItems_map fun s hs => s.readable_toDocument fun v hv =>
      h v (List.mem_flatMap.mpr ⟨s, hs, hv⟩)
  simp [toDocument, Readable, ReadableFields, hitems]

theorem Node.readable_toDocument (n : Node) (h : ∀ v ∈ n.literals, Number.ReadsBack v) :
    n.toDocument.Readable := by
  cases n with
  | program p => exact p.readable_toDocument h
  | stmt s => exact s.readable_toDocument h
  | expr x => exact x.readable_toDocument h

/-- A node is read back from its text on one line and on many. -/
theorem Node.ofText_eq {n : Node} (h : ∀ v ∈ n.literals, Number.ReadsBack v) (pretty : Bool) :
    Node.ofText (n.toText pretty) = .ok n := by
  rw [Node.ofText_eq_ok_iff, DraftNode.ofText, toText,
    Document.read_write (n.readable_toDocument h)]
  exact DraftNode.ofDocument_toDocument n

/-- If every number of a node that is a number at all is read back from its text, the text of the
node stands for a node: for one that equals the node unless some number in it is none, and always
for one with the same text. -/
theorem Node.ofText_toText (n : Node) (pretty : Bool)
    (h : ∀ v ∈ n.literals, v.isNaN = false → Number.read? (Number.text v) = some v) :
    ∃ m, Node.ofText (n.toText pretty) = .ok m ∧
      ((∀ v ∈ n.literals, v.isNaN = false) → m = n ∧ m.equal n = true) ∧
      m.toText pretty = n.toText pretty := by
  refine ⟨n, Node.ofText_eq h pretty, fun hnan => ⟨rfl, n.equal_self fun v hv => ?_⟩, rfl⟩
  exact Number.beq_self (hnan v hv)

/-- A name of one and of two units, a zero with a sign and infinity are read back on many lines;
what is no number is written again. -/
theorem Node.ofText_toText_special :
    (∃ m, Node.ofText (Node.toText (.stmt (.assign "\né😀" (.call "max"
        [.number (-0), .number 0.1, .number Number.infinity]))) true) = .ok m ∧
      m.equal (.stmt (.assign "\né😀" (.call "max"
        [.number (-0), .number 0.1, .number Number.infinity]))) = true) ∧
    ∃ m, Node.ofText (Node.toText (.expr (.unary .neg (.number Number.notANumber))) false) =
        .ok m ∧
      m.toText false = Node.toText (.expr (.unary .neg (.number Number.notANumber))) false := by
  constructor
  · have hreads : ∀ v ∈ [(-0 : Float), 0.1, Number.infinity], v.isNaN = false ∧
        (v.isNaN = false → Number.read? (Number.text v) = some v) := by
      simp only [List.forall_mem_cons]
      exact ⟨by decide +kernel, by decide +kernel, by decide +kernel, by simp⟩
    obtain ⟨m, hm, hequal, -⟩ := Node.ofText_toText (.stmt (.assign "\né😀" (.call "max"
      [.number (-0), .number 0.1, .number Number.infinity]))) true fun v hv => (hreads v hv).2
    exact ⟨m, hm, (hequal fun v hv => (hreads v hv).1).2⟩
  · obtain ⟨m, hm, -, htext⟩ := Node.ofText_toText (.expr (.unary .neg
      (.number Number.notANumber))) false (List.forall_mem_singleton.mpr (by decide +kernel))
    exact ⟨m, hm, htext⟩

/-- Every node is read back from its text, for the text of every number is read as the number. -/
theorem Node.ofText_toText_eq (n : Node) (pretty : Bool) :
    Node.ofText (n.toText pretty) = .ok n :=
  Node.ofText_eq (fun v _ => Number.readsBack v) pretty

/-- Nodes with the same text are equal. -/
theorem Node.toText_inj {m n : Node} {pretty : Bool} :
    m.toText pretty = n.toText pretty ↔ m = n := by
  refine ⟨fun h => ?_, fun h => h ▸ rfl⟩
  have hm := m.ofText_toText_eq pretty
  rw [h, n.ofText_toText_eq pretty] at hm
  exact (Except.ok.inj hm).symm

end Abacus
