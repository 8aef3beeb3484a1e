import Abacus.Proofs.Program.Documents

/-!
# Malformed documents

Reading a document should end with a draft of a node or with an error that says what is wrong with
the document (`DocumentError.Promised`). The reader tells which fields must be there, which kinds
and operators there are and where an object belongs; but numbers and lists it makes from whatever it
finds, and what comes out of that when nothing can be made is an error of another kind. So it goes
for `null` where a number belongs (`DraftNode.number_from_null`). What stands for a name it takes as
it is and reads on.

* `Document.Leads`: the reading of one object comes to another one, since all that it reads before
  stands for something. `Document.Faults`: the object has a field from which nothing can be made.
* `DraftExpr.fails_iff`: the reading of an expression fails in this way exactly when it comes to an
  object that has such a field.
* `DraftNode.ofText_promised_iff`: the same for the texts of nodes.
-/

namespace Abacus

open Document (field?)
open Relation (ReflTransGen)

/-- The error says what is wrong with the document: with its text, or with a kind, a field, an
operator or a numeral in it. The others come from making a number or a list from a value of
another type, or a number from a whole number that is too large. -/
def DocumentError.Promised : DocumentError → Prop
  | numberTooLarge => False
  | notANumber _ => False
  | notAList _ => False
  | _ => True

namespace Document

/-! ## Objects from which nothing can be made -/

/-- No number can be made from the document, which is no text. -/
inductive NoNumber : Document → DocumentError → Prop
  | null : NoNumber .null (.notANumber "NoneType")
  | list (items : List Document) : NoNumber (.list items) (.notANumber "list")
  | object (fields : List (List CodePoint × Document)) :
      NoNumber (.object fields) (.notANumber "dict")
  | tooLarge {n : Int} (h : Number.ofInt? n = none) : NoNumber (.int n) .numberTooLarge

/-- No list can be made from the document. -/
inductive NoList : Document → DocumentError → Prop
  | null : NoList .null (.notAList "NoneType")
  | bool (b : Bool) : NoList (.bool b) (.notAList "bool")
  | int (n : Int) : NoList (.int n) (.notAList "int")
  | float (x : Float) : NoList (.float x) (.notAList "float")

/-- Nothing can be made from what the object has where a number or a list belongs. -/
inductive Faults : Document → DocumentError → Prop
  | value {fields d e} (hkind : kindName? fields = some "number")
      (hd : field? fields "value" = some d) (h : d.NoNumber e) : Faults (.object fields) e
  | args {fields name d e} (hkind : kindName? fields = some "call")
      (hname : field? fields "name" = some name) (hd : field? fields "args" = some d)
      (h : d.NoList e) : Faults (.object fields) e
  | params {fields d e} (hkind : kindName? fields = some "lambda")
      (hd : field? fields "params" = some d) (h : d.NoList e) : Faults (.object fields) e

/-- The field `key` belongs to an expression, and what is read before it stands for something. -/
inductive Comes (fields : List (List CodePoint × Document)) : (key : String) → Prop
  | operand {d op} (hkind : kindName? fields = some "unaryop") (hd : field? fields "op" = some d)
      (hop : d.toUnaryOp = .ok op) : Comes fields "expr"
  | left {d op} (hkind : kindName? fields = some "binop") (hd : field? fields "op" = some d)
      (hop : d.toBinaryOp = .ok op) : Comes fields "left"
  | right {d op x} (hkind : kindName? fields = some "binop") (hd : field? fields "op" = some d)
      (hop : d.toBinaryOp = .ok op) (hx : DraftExpr.ofField "binop" "left" fields = .ok x) :
      Comes fields "right"
  | condition (hkind : kindName? fields = some "conditional") : Comes fields "condition"
  | thenBranch {c} (hkind : kindName? fields = some "conditional")
      (hc : DraftExpr.ofField "conditional" "condition" fields = .ok c) : Comes fields "then_branch"
  | elseBranch {c t} (hkind : kindName? fields = some "conditional")
      (hc : DraftExpr.ofField "conditional" "condition" fields = .ok c)
      (ht : DraftExpr.ofField "conditional" "then_branch" fields = .ok t) :
      Comes fields "else_branch"
  | body {d params} (hkind : kindName? fields = some "lambda")
      (hd : field? fields "params" = some d) (hparams : d.toItems = .ok params) :
      Comes fields "body"

/-- The reading of one expression comes to another one. -/
inductive Leads : Document → Document → Prop
  | field {fields key d} (h : Comes fields key) (hd : field? fields key = some d) :
      Leads (.object fields) d
  | argument {fields name before d after} (hkind : kindName? fields = some "call")
      (hname : field? fields "name" = some name)
      (hargs : field? fields "args" = some (.list (before ++ d :: after)))
      (hbefore : ∀ b ∈ before, ∃ x, DraftExpr.ofDocument b = .ok x) : Leads (.object fields) d

/-- The reading of the document comes to an object that faults. -/
def Stumbles (d : Document) (e : DocumentError) : Prop :=
  ∃ d', ReflTransGen Leads d d' ∧ d'.Faults e

end Document

/-! ## Failing in another way than promised -/

/-- The result is an error, and not one that is promised. -/
def Fails {α : Type} (r : Except DocumentError α) (e : DocumentError) : Prop :=
  r = .error e ∧ ¬ e.Promised

section Fails

variable {α β : Type} {x : Except DocumentError α} {k : α → Except DocumentError β}
  {e e' : DocumentError}

theorem not_fails_ok (a : α) : ¬ Fails (.ok a) e := fun h => by cases h.1

theorem not_fails_promised (he : e'.Promised) : ¬ Fails (.error e' : Except _ α) e := fun h => by
  obtain ⟨heq, hnot⟩ := h
  cases heq
  exact hnot he

/-- Where the first of two readers fails, both in a row do. -/
theorem Fails.bind (h : Fails x e) : Fails (x >>= k) e := by
  obtain ⟨rfl, hnot⟩ := h
  exact ⟨rfl, hnot⟩

/-- Where the second of two readers fails, behind a result of the first, both in a row do. -/
theorem Fails.bind_of_ok {a : α} (hx : x = .ok a) (h : Fails (k a) e) : Fails (x >>= k) e := by
  rw [hx]
  exact h

/-- One of two readers in a row fails. -/
theorem Fails.of_bind (h : Fails (x >>= k) e) :
    Fails x e ∨ ∃ a, x = .ok a ∧ Fails (k a) e := by
  cases x with
  | error err => exact .inl ⟨by rw [show err = e from Except.error.inj h.1], h.2⟩
  | ok a => exact .inr ⟨a, rfl, h⟩

/-- A reader that never fails leaves it to the next one. -/
theorem Fails.of_bind_right (h : Fails (x >>= k) e) (hx : ¬ Fails x e) :
    ∃ a, x = .ok a ∧ Fails (k a) e :=
  h.of_bind.resolve_left hx

/-- A reader fails where something is made of its result. -/
theorem Fails.of_map {f : α → β} (h : Fails (x >>= fun a => pure (f a)) e) : Fails x e :=
  h.of_bind.resolve_right fun ⟨a, _, hok⟩ => not_fails_ok (f a) hok

/-- Of readers in a row one fails, and those before it do not. -/
theorem fails_mapM_iff {read : Document → Except DocumentError α} {ds : List Document} :
    Fails (ds.mapM read) e ↔ ∃ before d after, ds = before ++ d :: after ∧
      (∀ b ∈ before, ∃ a, read b = .ok a) ∧ Fails (read d) e := by
  induction ds with
  | nil =>
    refine ⟨fun h => absurd h (not_fails_ok []), ?_⟩
    rintro ⟨before, d, after, h, -⟩
    cases before <;> cases h
  | cons d ds ih =>
    rw [List.mapM_cons]
    constructor
    · intro h
      rcases h.of_bind with hd | ⟨a, ha, hrest⟩
      · exact ⟨[], d, ds, rfl, fun b hb => (by cases hb), hd⟩
      · obtain ⟨before, d', after, rfl, hbefore, hd'⟩ := ih.mp hrest.of_map
        exact ⟨d :: before, d', after, rfl, List.forall_mem_cons.mpr ⟨⟨a, ha⟩, hbefore⟩, hd'⟩
    · rintro ⟨before, d', after, heq, hbefore, hd'⟩
      cases before with
      | nil =>
        cases heq
        exact hd'.bind
      | cons b before =>
        cases heq
        obtain ⟨⟨a, ha⟩, hbefore⟩ := List.forall_mem_cons.mp hbefore
        exact .bind_of_ok ha (ih.mpr ⟨before, d', after, rfl, hbefore, hd'⟩).bind

end Fails

namespace Document

variable {kind key : String} {fields : List (List CodePoint × Document)} {d : Document}
  {e : DocumentError}

/-- A field that is there is found. -/
theorem require_eq (h : field? fields key = some d) : require kind fields key = .ok d := by
  rw [require, h]

theorem field?_of_require (h : require kind fields key = .ok d) : field? fields key = some d := by
  unfold require at h
  split at h
  · rename_i hd
    cases h
    exact hd
  · cases h

/-- A missing field is told as it should be. -/
theorem not_fails_require : ¬ Fails (require kind fields key) e := by
  unfold require
  split
  · exact not_fails_ok _
  · exact not_fails_promised trivial

theorem not_fails_toUnaryOp : ¬ Fails d.toUnaryOp e := by
  unfold toUnaryOp
  split
  · exact not_fails_ok _
  · exact not_fails_promised trivial

theorem not_fails_toBinaryOp : ¬ Fails d.toBinaryOp e := by
  unfold toBinaryOp
  split
  · exact not_fails_ok _
  · exact not_fails_promised trivial

/-- A number cannot be made from the documents that are listed, and from no others. -/
theorem fails_toNumber_iff : Fails d.toNumber e ↔ d.NoNumber e := by
  constructor
  · intro h
    cases d with
    | int n =>
      dsimp only [toNumber] at h
      split at h
      · exact absurd h (not_fails_ok _)
      · rename_i hn
        cases h.1
        exact .tooLarge hn
    | float x => exact absurd h (not_fails_ok x)
    | bool b => exact absurd h (not_fails_ok _)
    | text ps =>
      dsimp only [toNumber] at h
      split at h
      · exact absurd h (not_fails_ok _)
      · exact absurd h (not_fails_promised trivial)
    | null | list | object =>
      cases h.1
      constructor
  · intro h
    cases h with
    | tooLarge hn => exact ⟨by rw [toNumber, hn], id⟩
    | _ => exact ⟨rfl, id⟩

/-- A list cannot be made from the documents that are listed, and from no others. -/
theorem fails_toItems_iff : Fails d.toItems e ↔ d.NoList e := by
  constructor
  · intro h
    cases d with
    | list | text | object => exact absurd h (not_fails_ok _)
    | null | bool | int | float =>
      cases h.1
      constructor
  · intro h
    cases h <;> exact ⟨rfl, id⟩

/-- The items of a document that is no list are code points or keys. -/
theorem list_or_texts_of_toItems {items : List Document} (h : d.toItems = .ok items) :
    d = .list items ∨ ∀ item ∈ items, ∃ ps, item = .text ps := by
  cases d with
  | list items' =>
    cases h
    exact .inl rfl
  | text ps =>
    cases h
    exact .inr (List.forall_mem_map.mpr fun p _ => ⟨_, rfl⟩)
  | object fields =>
    cases h
    exact .inr (List.forall_mem_map.mpr fun f _ => ⟨_, rfl⟩)
  | null | bool | int | float => cases h

end Document

/-! ## One object -/

namespace DraftExpr

open Document

variable {kind key : String} {fields : List (List CodePoint × Document)} {d d' : Document}
  {e : DocumentError}

/-- A field is looked up and then read. -/
theorem ofField_eq_bind : ofField kind key fields = require kind fields key >>= ofDocument := by
  induction fields with
  | nil => rw [ofField]; rfl
  | cons f fields ih =>
    obtain ⟨k, d⟩ := f
    by_cases h : Text.points key = k
    · subst h
      rw [ofField_self, require_self, ok_bind]
    · rw [ofField_cons h, require_cons h, ih]

theorem ofListField_eq_bind :
    ofListField kind key fields = require kind fields key >>= ofItems := by
  induction fields with
  | nil => rw [ofListField]; rfl
  | cons f fields ih =>
    obtain ⟨k, d⟩ := f
    by_cases h : Text.points key = k
    · subst h
      rw [ofListField_self, require_self, ok_bind]
    · rw [ofListField_cons h, require_cons h, ih]

/-- What fails in a field is the reading of the expression that stands there. -/
theorem fails_ofField_iff : Fails (ofField kind key fields) e ↔
    ∃ d, field? fields key = some d ∧ Fails (ofDocument d) e := by
  rw [ofField_eq_bind]
  constructor
  · intro h
    obtain ⟨d, hd, hfail⟩ := h.of_bind_right not_fails_require
    exact ⟨d, field?_of_require hd, hfail⟩
  · rintro ⟨d, hd, hfail⟩
    exact .bind_of_ok (require_eq hd) hfail

/-- Documents are read one after the other. -/
theorem ofDocumentList_eq_mapM (ds : List Document) :
    ofDocumentList ds = ds.mapM ofDocument := by
  induction ds with
  | nil => rw [ofDocumentList, List.mapM_nil]; rfl
  | cons d ds ih => rw [ofDocumentList, List.mapM_cons, ih]

/-- Where no list can be made of the items, or the reading of an item fails. Code points and keys
are refused. -/
theorem fails_ofItems_iff : Fails (ofItems d) e ↔ d.NoList e ∨
    ∃ before d' after, d = .list (before ++ d' :: after) ∧
      (∀ b ∈ before, ∃ x, ofDocument b = .ok x) ∧ Fails (ofDocument d') e := by
  cases d with
  | list items =>
    rw [ofItems, ofDocumentList_eq_mapM, fails_mapM_iff]
    constructor
    · rintro ⟨before, d', after, rfl, h⟩
      exact .inr ⟨before, d', after, rfl, h⟩
    · rintro (h | ⟨before, d', after, heq, h⟩)
      · cases h
      · cases heq
        exact ⟨before, d', after, rfl, h⟩
  | null | bool | int | float | text | object =>
    rw [← fails_toItems_iff]
    constructor
    · intro h
      rw [ofItems] at h
      · rcases h.of_bind with hitems | ⟨items, -, hrest⟩
        · exact .inl hitems
        · split at hrest
          · exact absurd hrest (not_fails_ok _)
          · exact absurd hrest (not_fails_promised trivial)
      · intro items heq
        cases heq
    · rintro (h | ⟨_, _, _, heq, -⟩)
      · rw [ofItems]
        · exact h.bind
        · intro items heq
          cases heq
      · cases heq

/-! ### The object itself -/

/-- Reading an object that faults fails with the error of its field. -/
theorem fails_of_faults (h : d.Faults e) : Fails (ofDocument d) e := by
  cases h with
  | value hkind hd h =>
    rw [ofDocument, hkind]
    exact .bind_of_ok (require_eq hd) (fails_toNumber_iff.mpr h).bind
  | args hkind hname hd h =>
    rw [ofDocument, hkind]
    refine .bind_of_ok (require_eq hname) (Fails.bind ?_)
    rw [ofListField_eq_bind]
    exact .bind_of_ok (require_eq hd) (fails_ofItems_iff.mpr (.inl h))
  | params hkind hd h =>
    rw [ofDocument, hkind]
    exact .bind_of_ok (require_eq hd) (fails_toItems_iff.mpr h).bind

/-- Reading fails where it comes to an object whose reading fails. -/
theorem fails_of_leads (h : d.Leads d') (hd' : Fails (ofDocument d') e) :
    Fails (ofDocument d) e := by
  cases h with
  | @field fields key _ hcomes hd =>
    have hfield {kind : String} : Fails (ofField kind key fields) e :=
      fails_ofField_iff.mpr ⟨_, hd, hd'⟩
    -- Each way to come to a field has read all that stands before it.
    cases hcomes with
    | operand hkind hop hop' =>
      rw [ofDocument, hkind]
      exact .bind_of_ok (require_eq hop) (.bind_of_ok hop' hfield.bind)
    | left hkind hop hop' =>
      rw [ofDocument, hkind]
      exact .bind_of_ok (require_eq hop) (.bind_of_ok hop' hfield.bind)
    | right hkind hop hop' hx =>
      rw [ofDocument, hkind]
      exact .bind_of_ok (require_eq hop) (.bind_of_ok hop' (.bind_of_ok hx hfield.bind))
    | condition hkind =>
      rw [ofDocument, hkind]
      exact hfield.bind
    | thenBranch hkind hc =>
      rw [ofDocument, hkind]
      exact .bind_of_ok hc hfield.bind
    | elseBranch hkind hc ht =>
      rw [ofDocument, hkind]
      exact .bind_of_ok hc (.bind_of_ok ht hfield.bind)
    | body hkind hparams hparams' =>
      rw [ofDocument, hkind]
      exact .bind_of_ok (require_eq hparams) (.bind_of_ok hparams' hfield.bind)
  | argument hkind hname hargs hbefore =>
    rw [ofDocument, hkind]
    refine .bind_of_ok (require_eq hname) (Fails.bind ?_)
    rw [ofListField_eq_bind]
    exact .bind_of_ok (require_eq hargs)
      (fails_ofItems_iff.mpr (.inr ⟨_, _, _, rfl, hbefore, hd'⟩))

/-- Where an expression in a field cannot be read, reading comes to the object in the field. -/
theorem exists_leads {k : String} (hcomes : Comes fields key) (h : Fails (ofField k key fields) e) :
    ∃ d', Leads (.object fields) d' ∧ Fails (ofDocument d') e := by
  obtain ⟨d', hd', hfail⟩ := fails_ofField_iff.mp h
  exact ⟨d', .field hcomes hd', hfail⟩

/-- If the reading of an object fails, the object faults, or the reading of one fails to which this
one comes. -/
theorem faults_or_leads (h : Fails (ofDocument d) e) :
    d.Faults e ∨ ∃ d', d.Leads d' ∧ Fails (ofDocument d') e := by
  -- A field that is missing is promised, and so fails no reading here: what remains is the field's
  -- own value or the reading of the document it leads to.
  unfold ofDocument at h
  split at h
  · split at h
    · rename_i hkind
      obtain ⟨d, hd, h⟩ := h.of_bind_right not_fails_require
      exact .inl (.value hkind (field?_of_require hd) (fails_toNumber_iff.mp h.of_map))
    · exact absurd h.of_map not_fails_require
    · rename_i hkind
      obtain ⟨op, hop, h⟩ := h.of_bind_right not_fails_require
      obtain ⟨op', hop', h⟩ := h.of_bind_right not_fails_toUnaryOp
      exact .inr (exists_leads (.operand hkind (field?_of_require hop) hop') h.of_map)
    · rename_i hkind
      obtain ⟨op, hop, h⟩ := h.of_bind_right not_fails_require
      obtain ⟨op', hop', h⟩ := h.of_bind_right not_fails_toBinaryOp
      rcases h.of_bind with h | ⟨x, hx, h⟩
      · -- The right part is looked at only once the left one has been read.
        exact .inr (exists_leads (.left hkind (field?_of_require hop) hop') h)
      · exact .inr (exists_leads (.right hkind (field?_of_require hop) hop' hx) h.of_map)
    · rename_i hkind
      obtain ⟨name, hname, h⟩ := h.of_bind_right not_fails_require
      have hlist := h.of_map
      rw [ofListField_eq_bind] at hlist
      obtain ⟨args, hargs, hitems⟩ := hlist.of_bind_right not_fails_require
      rcases fails_ofItems_iff.mp hitems with h | ⟨before, d', after, rfl, hbefore, h⟩
      · exact .inl (.args hkind (field?_of_require hname) (field?_of_require hargs) h)
      · exact .inr ⟨d', .argument hkind (field?_of_require hname) (field?_of_require hargs)
          hbefore, h⟩
    · rename_i hkind
      rcases h.of_bind with h | ⟨c, hc, h⟩
      · exact .inr (exists_leads (.condition hkind) h)
      · rcases h.of_bind with h | ⟨t, ht, h⟩
        · exact .inr (exists_leads (.thenBranch hkind hc) h)
        · exact .inr (exists_leads (.elseBranch hkind hc ht) h.of_map)
    · rename_i hkind
      obtain ⟨params, hparams, h⟩ := h.of_bind_right not_fails_require
      rcases h.of_bind with h | ⟨items, hitems, h⟩
      · exact .inl (.params hkind (field?_of_require hparams) (fails_toItems_iff.mp h))
      · exact .inr (exists_leads (.body hkind (field?_of_require hparams) hitems) h.of_map)
    · exact absurd h (not_fails_promised trivial)
  · exact absurd h (not_fails_promised trivial)

end DraftExpr

/-! ## Expressions, statements and programs -/

namespace Document

variable {key : String} {fields : List (List CodePoint × Document)} {d d' : Document}

/-- The value of a field is smaller than the fields. -/
theorem sizeOf_field? (h : field? fields key = some d) : sizeOf d < sizeOf fields := by
  induction fields with
  | nil => cases h
  | cons f fields ih =>
    obtain ⟨k, v⟩ := f
    unfold field? Bindings.findEntry at h
    split at h
    · cases h
      simp only [List.cons.sizeOf_spec, Prod.mk.sizeOf_spec]
      omega
    · have hrest := ih h
      simp only [List.cons.sizeOf_spec]
      omega

/-- Reading only comes to smaller documents. -/
theorem Leads.sizeOf_lt (h : d.Leads d') : sizeOf d' < sizeOf d := by
  cases h with
  | field _ hd =>
    have hfield := sizeOf_field? hd
    simp only [Document.object.sizeOf_spec]
    omega
  | @argument _ _ before d' after _ _ hargs _ =>
    have hfield := sizeOf_field? hargs
    have hitem : sizeOf d' < sizeOf (before ++ d' :: after) :=
      List.sizeOf_lt_of_mem (List.mem_append_right _ List.mem_cons_self)
    simp only [Document.list.sizeOf_spec, Document.object.sizeOf_spec] at hfield ⊢
    omega

end Document

/-- The reading of an expression fails exactly if it comes to an object that faults, and with the
error of that. -/
theorem DraftExpr.fails_iff {d : Document} {e : DocumentError} :
    Fails (DraftExpr.ofDocument d) e ↔ d.Stumbles e := by
  constructor
  · -- What the reading comes to are smaller and smaller parts of the document.
    induction hsize : sizeOf d using Nat.strongRecOn generalizing d with
    | ind n ih =>
      intro h
      rcases faults_or_leads h with hfaults | ⟨d', hleads, h'⟩
      · exact ⟨d, .refl, hfaults⟩
      · obtain ⟨d'', hreach, hfaults⟩ := ih (sizeOf d') (hsize ▸ hleads.sizeOf_lt) rfl h'
        exact ⟨d'', hreach.head hleads, hfaults⟩
  · rintro ⟨d', hreach, hfaults⟩
    induction hreach using ReflTransGen.head_induction_on with
    | refl => exact fails_of_faults hfaults
    | head hleads _ ih => exact fails_of_leads hleads ih

/-- The reading of a statement comes to its expression. -/
inductive DraftStmt.LeadsTo : Document → Document → Prop
  | assignment {fields name d} (hkind : Document.kindName? fields = some "assignment")
      (hname : field? fields "name" = some name) (hd : field? fields "value" = some d) :
      LeadsTo (.object fields) d
  | expression {fields d} (hkind : Document.kindName? fields = some "expression")
      (hd : field? fields "expr" = some d) : LeadsTo (.object fields) d

/-- The reading of a node comes to an expression: to the node itself if that is one, and in a
program behind statements that could be read. -/
inductive DraftNode.LeadsTo : Document → Document → Prop
  | expr (d) : LeadsTo d d
  | stmt {d d'} (h : DraftStmt.LeadsTo d d') : LeadsTo d d'
  | program {fields before d after d'} (htype : field? fields "type" = none)
      (hd : field? fields "statements" = some (.list (before ++ d :: after)))
      (hbefore : ∀ b ∈ before, ∃ s, DraftStmt.ofDocument b = .ok s) (h : DraftStmt.LeadsTo d d') :
      LeadsTo (.object fields) d'

/-- The reading of a node comes to an object that faults, or to no list of statements. -/
inductive DraftNode.Stumbles : Document → DocumentError → Prop
  | expr {d d' e} (h : LeadsTo d d') (hd' : d'.Stumbles e) : Stumbles d e
  | statements {fields d e} (htype : field? fields "type" = none)
      (hd : field? fields "statements" = some d) (h : d.NoList e) : Stumbles (.object fields) e

section Nodes

open Document

variable {d : Document} {e : DocumentError}

/-- The reading of a statement fails exactly if the reading of its expression comes to an object
that faults. -/
theorem DraftStmt.fails_iff :
    Fails (DraftStmt.ofDocument d) e ↔ ∃ d', DraftStmt.LeadsTo d d' ∧ d'.Stumbles e := by
  constructor
  · intro h
    unfold DraftStmt.ofDocument at h
    split at h
    · split at h
      · rename_i hkind
        obtain ⟨name, hname, h⟩ := h.of_bind_right not_fails_require
        obtain ⟨d', hd', h⟩ := DraftExpr.fails_ofField_iff.mp h.of_map
        exact ⟨d', .assignment hkind (field?_of_require hname) hd', DraftExpr.fails_iff.mp h⟩
      · rename_i hkind
        obtain ⟨d', hd', h⟩ := DraftExpr.fails_ofField_iff.mp h.of_map
        exact ⟨d', .expression hkind hd', DraftExpr.fails_iff.mp h⟩
      · exact absurd h (not_fails_promised trivial)
    · exact absurd h (not_fails_promised trivial)
  · rintro ⟨d', hleads, hd'⟩
    have hfail := DraftExpr.fails_iff.mpr hd'
    cases hleads with
    | assignment hkind hname hd =>
      rw [DraftStmt.ofDocument, hkind]
      exact .bind_of_ok (require_eq hname)
        (Fails.bind (DraftExpr.fails_ofField_iff.mpr ⟨d', hd, hfail⟩))
    | expression hkind hd =>
      rw [DraftStmt.ofDocument, hkind]
      exact Fails.bind (DraftExpr.fails_ofField_iff.mpr ⟨d', hd, hfail⟩)

/-- Where no list can be made of the statements, or the reading of a statement fails. Code points
and keys are refused. -/
theorem DraftStmt.fails_ofItems_iff : Fails (DraftStmt.ofItems d) e ↔ d.NoList e ∨
    ∃ before s after, d = .list (before ++ s :: after) ∧
      (∀ b ∈ before, ∃ stmt, DraftStmt.ofDocument b = .ok stmt) ∧
      Fails (DraftStmt.ofDocument s) e := by
  constructor
  · intro h
    unfold DraftStmt.ofItems at h
    rcases h.of_bind with h | ⟨items, hitems, h⟩
    · exact .inl (fails_toItems_iff.mp h)
    · obtain ⟨before, s, after, rfl, hbefore, hs⟩ := fails_mapM_iff.mp h
      rcases list_or_texts_of_toItems hitems with rfl | htexts
      · exact .inr ⟨before, s, after, rfl, hbefore, hs⟩
      · obtain ⟨text, rfl⟩ := htexts s (List.mem_append_right _ List.mem_cons_self)
        exact absurd hs (not_fails_promised trivial)
  · rintro (h | ⟨before, s, after, rfl, hbefore, h⟩)
    · exact Fails.bind (fails_toItems_iff.mpr h)
    · exact .bind_of_ok rfl (fails_mapM_iff.mpr ⟨before, s, after, rfl, hbefore, h⟩)

/-- An object of a kind has a field that says so. -/
theorem field?_type {fields : List (List CodePoint × Document)} {k : String}
    (h : kindName? fields = some k) : field? fields "type" = some (.text k) := by
  rw [kindName?, string?_eq_some_iff, kind] at h
  cases htype : field? fields "type" with
  | none =>
    rw [htype] at h
    cases h
  | some d =>
    rw [htype] at h
    rw [show d = .text k from h]

theorem kindName?_eq_none {fields : List (List CodePoint × Document)}
    (h : field? fields "type" = none) : kindName? fields = none := by
  rw [kindName?, kind, h]
  rfl

/-- What is taken for a program or for a statement is no expression, and is refused as one. -/
theorem DraftNode.fails_of_fails_expr (h : Fails (DraftExpr.ofDocument d) e) :
    Fails (DraftNode.ofDocument d) e := by
  unfold DraftNode.ofDocument
  split
  · split
    · rename_i htype _
      rw [DraftExpr.ofDocument, kindName?_eq_none htype] at h
      exact absurd h (not_fails_promised trivial)
    · split
      · rename_i hkind
        rw [DraftExpr.ofDocument, hkind] at h
        exact absurd h (not_fails_promised trivial)
      · rename_i hkind
        rw [DraftExpr.ofDocument, hkind] at h
        exact absurd h (not_fails_promised trivial)
      · exact h.bind
  · exact h.bind

/-- What is read as a statement, and is one. -/
theorem DraftNode.fails_of_fails_stmt {d' : Document} (hleads : DraftStmt.LeadsTo d d')
    (h : Fails (DraftStmt.ofDocument d) e) : Fails (DraftNode.ofDocument d) e := by
  cases hleads with
  | assignment hkind hname hd =>
    rw [DraftNode.ofDocument, field?_type hkind, hkind]
    exact h.bind
  | expression hkind hd =>
    rw [DraftNode.ofDocument, field?_type hkind, hkind]
    exact h.bind

/-- The reading of a node fails exactly if it comes to an object that faults or to no list of
statements, and with the error of that. -/
theorem DraftNode.fails_iff : Fails (DraftNode.ofDocument d) e ↔ DraftNode.Stumbles d e := by
  constructor
  · -- Everything but the statement list itself fails at an expression it leads to.
    have hexpr : Fails (DraftExpr.ofDocument d) e → DraftNode.Stumbles d e := fun h =>
      .expr (.expr d) (DraftExpr.fails_iff.mp h)
    have hstmt : Fails (DraftStmt.ofDocument d) e → DraftNode.Stumbles d e := fun h => by
      obtain ⟨d', hleads, hd'⟩ := DraftStmt.fails_iff.mp h
      exact .expr (.stmt hleads) hd'
    intro h
    unfold DraftNode.ofDocument at h
    split at h
    · split at h
      · rename_i htype hstatements
        rcases DraftStmt.fails_ofItems_iff.mp h.of_map with h | ⟨before, s, after, rfl, hbefore, hs⟩
        · exact .statements htype hstatements h
        · obtain ⟨d', hleads, hd'⟩ := DraftStmt.fails_iff.mp hs
          exact .expr (.program htype hstatements hbefore hleads) hd'
      · split at h
        · exact hstmt h.of_map
        · exact hstmt h.of_map
        · exact hexpr h.of_map
    · exact hexpr h.of_map
  · intro h
    cases h with
    | expr hleads hd' =>
      cases hleads with
      | expr => exact DraftNode.fails_of_fails_expr (DraftExpr.fails_iff.mpr hd')
      | stmt hstmt =>
        exact DraftNode.fails_of_fails_stmt hstmt (DraftStmt.fails_iff.mpr ⟨_, hstmt, hd'⟩)
      | program htype hd hbefore hstmt =>
        rw [DraftNode.ofDocument, htype, hd]
        have hfail := DraftStmt.fails_iff.mpr ⟨_, hstmt, hd'⟩
        exact Fails.bind (DraftStmt.fails_ofItems_iff.mpr (.inr ⟨_, _, _, rfl, hbefore, hfail⟩))
    | statements htype hd h =>
      rw [DraftNode.ofDocument, htype, hd]
      exact Fails.bind (DraftStmt.fails_ofItems_iff.mpr (.inl h))

/-! ## Texts -/

/-- The reading of a text fails exactly if it is one of a document whose reading does. -/
theorem DraftNode.fails_ofText_iff {text : String} :
    Fails (DraftNode.ofText text) e ↔ ∃ d, Document.read text = .ok d ∧ DraftNode.Stumbles d e := by
  unfold DraftNode.ofText
  cases hd : Document.read text with
  | error err =>
    refine ⟨fun h => absurd h (not_fails_promised trivial), ?_⟩
    rintro ⟨d, hread, -⟩
    cases hread
  | ok d =>
    constructor
    · exact fun h => ⟨d, rfl, DraftNode.fails_iff.mp h⟩
    · rintro ⟨d', hread, h⟩
      cases hread
      exact DraftNode.fails_iff.mpr h

end Nodes

/-- From a text either a draft is read or there is an error that is promised, unless the reading
comes to an object with a field from which no number or no list can be made; and then the error is
that of the field. -/
theorem DraftNode.ofText_promised_iff (text : String) :
    (((∃ n, DraftNode.ofText text = .ok n) ∨ ∃ e, DraftNode.ofText text = .error e ∧ e.Promised) ↔
      ¬ ∃ d e, Document.read text = .ok d ∧ DraftNode.Stumbles d e) ∧
    ∀ e : DocumentError, DraftNode.ofText text = .error e ∧ ¬ e.Promised ↔
      ∃ d, Document.read text = .ok d ∧ DraftNode.Stumbles d e := by
  refine ⟨⟨?_, fun hno => ?_⟩, fun e => DraftNode.fails_ofText_iff⟩
  · rintro hpromised ⟨d, e, hread, hstumbles⟩
    obtain ⟨heq, he⟩ := DraftNode.fails_ofText_iff.mpr ⟨d, hread, hstumbles⟩
    rcases hpromised with ⟨n, hn⟩ | ⟨e', he', hpromised⟩
    · rw [heq] at hn
      cases hn
    · rw [heq] at he'
      cases he'
      exact he hpromised
  · cases hresult : DraftNode.ofText text with
    | ok n => exact .inl ⟨n, rfl⟩
    | error e =>
      refine .inr ⟨e, rfl, ?_⟩
      by_contra he
      obtain ⟨d, hread, hstumbles⟩ := DraftNode.fails_ofText_iff.mp ⟨hresult, he⟩
      exact hno ⟨d, e, hread, hstumbles⟩

/-- Where a number belongs, `null` is refused with an error that is not promised. -/
theorem DraftNode.number_from_null :
    let text := "\x7b\"type\": \"number\", \"value\": null\x7d"
    DraftNode.ofText text = .error (.notANumber "NoneType") ∧
      ¬ ((∃ n, DraftNode.ofText text = .ok n) ∨
        ∃ e, DraftNode.ofText text = .error e ∧ e.Promised) := by
  intro text
  let d : Document := .object [("type", .text "number"), ("value", .null)]
  have htext : text = d.write false := by decide +kernel
  have hreadable : d.Readable := by simp [d, Document.Readable, Document.ReadableFields]
  have hfaults : d.Faults (.notANumber "NoneType") :=
    .value Document.kindName?_cons rfl .null
  have hresult : DraftNode.ofText text = .error (.notANumber "NoneType") := by
    rw [htext, DraftNode.ofText, Document.read_write hreadable]
    exact (DraftNode.fails_iff.mpr (.expr (.expr d) ⟨d, .refl, hfaults⟩)).1
  refine ⟨hresult, ?_⟩
  rw [hresult]
  rintro (⟨n, hn⟩ | ⟨e, he, hpromised⟩)
  · cases hn
  · cases he
    exact hpromised

end Abacus
