import Abacus.Program.Document

/-!
# Drafts of nodes

Every node has a draft, and a draft is one of at most one node: of the node whose names are the
strings that stand for them (`DraftNode.toNode?_eq_some_iff`). So a text stands for a node exactly
if the draft of the node is what is read from it (`Node.ofText_eq_ok_iff`).
-/

namespace Abacus

/-- A partial reading that inverts `write` inverts it on lists. -/
theorem mapM_eq_some_iff {α β : Type} {read : β → Option α} {write : α → β}
    (h : ∀ b a, read b = some a ↔ b = write a) {bs : List β} {as : List α} :
    bs.mapM read = some as ↔ bs = as.map write := by
  induction bs generalizing as with
  | nil => cases as <;> simp
  | cons b bs ih =>
    rw [List.mapM_cons]
    constructor
    · intro hread
      simp only [Option.bind_eq_bind, Option.bind_eq_some_iff] at hread
      obtain ⟨a, ha, as', has, heq⟩ := hread
      cases heq
      rw [(h b a).mp ha, ih.mp has, List.map_cons]
    · intro heq
      cases as with
      | nil => cases heq
      | cons a as =>
        obtain ⟨hb, hbs⟩ := List.cons.inj heq
        rw [(h b a).mpr hb, ih.mpr hbs]
        rfl

/-- Documents are names if they are strings. -/
theorem mapM_string?_eq_some_iff {ds : List Document} {names : List String} :
    ds.mapM Document.string? = some names ↔ ds = names.map fun name : String => .text name :=
  mapM_eq_some_iff fun _ _ => Document.string?_eq_some_iff

namespace DraftExpr

mutual

/-- The draft of an expression is one of this expression. -/
theorem toExpr?_draft : (x : Expr) → x.draft.toExpr? = some x
  | .number v => by rw [Expr.draft, toExpr?]
  | .var name => by simp [Expr.draft, toExpr?]
  | .unary op x => by simp [Expr.draft, toExpr?, toExpr?_draft x]
  | .binary op x y => by simp [Expr.draft, toExpr?, toExpr?_draft x, toExpr?_draft y]
  | .conditional c t e => by
    simp [Expr.draft, toExpr?, toExpr?_draft c, toExpr?_draft t, toExpr?_draft e]
  | .call name args => by simp [Expr.draft, toExpr?, toExprs?_draftList args]
  | .lambda params body => by
    simp [Expr.draft, toExpr?, mapM_string?_eq_some_iff.mpr rfl, toExpr?_draft body]

theorem toExprs?_draftList : (xs : List Expr) → toExprs? (Expr.draftList xs) = some xs
  | [] => by rw [Expr.draftList, toExprs?]
  | x :: xs => by simp [Expr.draftList, toExprs?, toExpr?_draft x, toExprs?_draftList xs]

end

mutual

/-- A draft of an expression is the draft of it. -/
theorem eq_draft_of_toExpr? : (d : DraftExpr) → ∀ {x : Expr}, d.toExpr? = some x → d = x.draft
  | .number v, x, h => by
    rw [toExpr?] at h
    cases h
    rw [Expr.draft]
  | .var name, x, h => by
    simp only [toExpr?, Option.bind_eq_bind, Option.bind_eq_some_iff] at h
    -- A name that has a text is the code points of that text, so nothing is lost here.
    obtain ⟨s, hs, heq⟩ := h
    cases heq
    rw [Expr.draft, Document.string?_eq_some_iff.mp hs]
  | .unary op d, x, h => by
    simp only [toExpr?, Option.bind_eq_bind, Option.bind_eq_some_iff] at h
    obtain ⟨y, hy, heq⟩ := h
    cases heq
    rw [Expr.draft, eq_draft_of_toExpr? d hy]
  | .binary op d₁ d₂, x, h => by
    simp only [toExpr?, Option.bind_eq_bind, Option.bind_eq_some_iff] at h
    obtain ⟨y₁, hy₁, y₂, hy₂, heq⟩ := h
    cases heq
    rw [Expr.draft, eq_draft_of_toExpr? d₁ hy₁, eq_draft_of_toExpr? d₂ hy₂]
  | .conditional d₁ d₂ d₃, x, h => by
    simp only [toExpr?, Option.bind_eq_bind, Option.bind_eq_some_iff] at h
    obtain ⟨y₁, hy₁, y₂, hy₂, y₃, hy₃, heq⟩ := h
    cases heq
    rw [Expr.draft, eq_draft_of_toExpr? d₁ hy₁, eq_draft_of_toExpr? d₂ hy₂,
      eq_draft_of_toExpr? d₃ hy₃]
  | .call name args, x, h => by
    simp only [toExpr?, Option.bind_eq_bind, Option.bind_eq_some_iff] at h
    obtain ⟨s, hs, xs, hxs, heq⟩ := h
    cases heq
    rw [Expr.draft, Document.string?_eq_some_iff.mp hs, eq_draftList_of_toExprs? args hxs]
  | .lambda params body, x, h => by
    simp only [toExpr?, Option.bind_eq_bind, Option.bind_eq_some_iff] at h
    obtain ⟨names, hnames, y, hy, heq⟩ := h
    cases heq
    rw [Expr.draft, mapM_string?_eq_some_iff.mp hnames, eq_draft_of_toExpr? body hy]

theorem eq_draftList_of_toExprs? : (ds : List DraftExpr) → ∀ {xs : List Expr},
    toExprs? ds = some xs → ds = Expr.draftList xs
  | [], xs, h => by
    rw [toExprs?] at h
    cases h
    rw [Expr.draftList]
  | d :: ds, xs, h => by
    simp only [toExprs?, Option.bind_eq_bind, Option.bind_eq_some_iff] at h
    obtain ⟨x, hx, xs', hxs, heq⟩ := h
    cases heq
    rw [Expr.draftList, eq_draft_of_toExpr? d hx, eq_draftList_of_toExprs? ds hxs]

end

/-- A draft is one of an expression exactly if it is the draft of it. -/
theorem toExpr?_eq_some_iff {d : DraftExpr} {x : Expr} : d.toExpr? = some x ↔ d = x.draft :=
  ⟨eq_draft_of_toExpr? d, fun h => h ▸ toExpr?_draft x⟩

end DraftExpr

theorem DraftStmt.toStmt?_eq_some_iff {d : DraftStmt} {s : Stmt} :
    d.toStmt? = some s ↔ d = s.draft := by
  cases d with
  | assign name value =>
    cases s <;> simp [toStmt?, Stmt.draft, Option.bind_eq_some_iff,
      Document.string?_eq_some_iff, DraftExpr.toExpr?_eq_some_iff]
  | expr value =>
    cases s <;> simp [toStmt?, Stmt.draft, Option.bind_eq_some_iff,
      DraftExpr.toExpr?_eq_some_iff]

/-- A draft is one of a node exactly if it is the draft of it. -/
theorem DraftNode.toNode?_eq_some_iff {d : DraftNode} {n : Node} :
    d.toNode? = some n ↔ d = n.draft := by
  cases d with
  | program statements =>
    have hstatements (ss : List Stmt) :
        statements.mapM DraftStmt.toStmt? = some ss ↔ statements = ss.map Stmt.draft :=
      mapM_eq_some_iff fun _ _ => DraftStmt.toStmt?_eq_some_iff
    cases n with
    | program p =>
      obtain ⟨ss⟩ := p
      simp [toNode?, Node.draft, Option.bind_eq_some_iff, hstatements]
    | _ => simp [toNode?, Node.draft, Option.bind_eq_some_iff]
  | stmt s =>
    cases n <;> simp [toNode?, Node.draft, Option.bind_eq_some_iff,
      DraftStmt.toStmt?_eq_some_iff]
  | expr e =>
    cases n <;> simp [toNode?, Node.draft, Option.bind_eq_some_iff,
      DraftExpr.toExpr?_eq_some_iff]

/-- A text stands for a node exactly if the draft of the node is read from it. -/
theorem Node.ofText_eq_ok_iff {text : String} {n : Node} :
    Node.ofText text = .ok n ↔ DraftNode.ofText text = .ok n.draft := by
  unfold Node.ofText
  cases hdraft : DraftNode.ofText text with
  | error e => simp
  | ok d =>
    rw [Except.ok.injEq, ← DraftNode.toNode?_eq_some_iff]
    cases hnode : d.toNode? <;> simp [hnode]

end Abacus
