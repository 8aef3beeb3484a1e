import Abacus.Eval.Reply
import Abacus.Proofs.Eval.Evaluation
import Abacus.Proofs.Eval.Frames
import Mathlib.Data.List.Basic

/-!
# Well-scoped programs

A name is free in an expression when it is looked up in the frames around it. A program is
well-scoped when the free names of every statement have been assigned to by earlier ones, except
that a function may call itself.

In a run of such a program no name is looked up in vain (`Program.runs_in_scope`), although a
function is called long after it was made and in other frames. The reason is an invariant of the
store, `Store.Closed`: the free names of every closure are bound in the frames that it hangs off.
No binding goes away, so that what is bound once stays bound (`Store.Keeps`). Between the making of
a function that calls itself and the binding of its name the invariant holds up to that name.
-/

namespace Abacus

/-! ## Free names -/

mutual

/-- The names that an expression looks up in the frames around it. -/
def Expr.free : Expr → List String
  | .number _ => []
  | .var name => if (constant? name).isSome then [] else [name]
  | .unary _ x => x.free
  | .binary _ x y => x.free ++ y.free
  | .conditional c t e => c.free ++ (t.free ++ e.free)
  | .call name args => (if (Builtin.ofName? name).isSome then [] else [name]) ++ Expr.freeList args
  | .lambda params body => body.free.filter (· ∉ params)

/-- The names that the expressions of a list look up. -/
def Expr.freeList : List Expr → List String
  | [] => []
  | x :: xs => x.free ++ Expr.freeList xs

end

/-- The name of the function that a statement defines. -/
def Stmt.function? : Stmt → Option String
  | .assign name (.lambda _ _) => some name
  | _ => none

/-- A statement that defines a function is the assignment of a lambda. -/
theorem Stmt.eq_of_function? {stmt : Stmt} {name : String} (h : stmt.function? = some name) :
    ∃ params body, stmt = .assign name (.lambda params body) := by
  unfold Stmt.function? at h
  split at h
  · cases h
    exact ⟨_, _, rfl⟩
  · cases h

/-- The free names of the statement are among the assigned ones; a function may be free in
itself. -/
def Stmt.ScopedIn (assigned : List String) (stmt : Stmt) : Prop :=
  ∀ n ∈ stmt.value.free, n ∈ assigned ∨ stmt.function? = some n

/-- Each statement is scoped in the assigned names and those that the statements before it assign
to. -/
def Stmt.ScopedFrom (assigned : List String) : List Stmt → Prop
  | [] => True
  | stmt :: ss => stmt.ScopedIn assigned ∧ ScopedFrom (assigned ++ targets [stmt]) ss

/-- The free names of each statement are assigned to by earlier statements, or are the function that
the statement defines. -/
def Program.WellScoped (p : Program) : Prop := Stmt.ScopedFrom [] p.statements

instance (assigned : List String) (stmt : Stmt) : Decidable (stmt.ScopedIn assigned) :=
  inferInstanceAs (Decidable (∀ n ∈ stmt.value.free, n ∈ assigned ∨ stmt.function? = some n))

instance Stmt.decidableScopedFrom (assigned : List String) :
    (ss : List Stmt) → Decidable (Stmt.ScopedFrom assigned ss)
  | [] => isTrue trivial
  | stmt :: ss =>
    have := Stmt.decidableScopedFrom (assigned ++ targets [stmt]) ss
    inferInstanceAs (Decidable (stmt.ScopedIn assigned ∧ ScopedFrom _ ss))

instance (p : Program) : Decidable p.WellScoped :=
  inferInstanceAs (Decidable (Stmt.ScopedFrom [] p.statements))

/-- The free names of an expression are free in every list with it. -/
theorem Expr.free_subset_freeList {x : Expr} {xs : List Expr} (h : x ∈ xs) :
    x.free ⊆ Expr.freeList xs := by
  induction xs with
  | nil => cases h
  | cons y ys ih =>
    rw [freeList]
    rcases List.mem_cons.mp h with rfl | h
    · exact List.subset_append_left _ _
    · exact List.Subset.trans (ih h) (List.subset_append_right _ _)

/-- A part of an expression that is evaluated in the same frame has no other free names. -/
theorem Expr.free_part {x y : Expr} (h : y ∈ x.parts) : y.free ⊆ x.free := by
  cases x with
  | number _ | var _ | lambda _ _ => cases h
  | unary op x =>
    rw [List.mem_singleton.mp h, free]
    exact List.Subset.refl _
  | binary op x z =>
    rw [free]
    simp only [parts, List.mem_cons, List.not_mem_nil, or_false] at h
    rcases h with rfl | rfl
    · exact List.subset_append_left _ _
    · exact List.subset_append_right _ _
  | conditional c t e =>
    rw [free]
    simp only [parts, List.mem_cons, List.not_mem_nil, or_false] at h
    rcases h with rfl | rfl | rfl <;> intro n hn <;> simp [hn]
  | call name args =>
    rw [free]
    exact List.Subset.trans (free_subset_freeList h) (List.subset_append_right _ _)

/-! ## Bound names -/

namespace Bindings

variable {α : Type}

/-- Names that entries have are bound by them. -/
theorem get?_ofList {entries : List (String × α)} {name : String}
    (h : name ∈ entries.map Prod.fst) : ∃ v, (ofList entries).get? name = some v := by
  have hfold : ∀ b : Bindings α, (∃ v, b.get? name = some v) ∨ name ∈ entries.map Prod.fst →
      ∃ v, (entries.foldl (fun b e => b.set e.1 e.2) b).get? name = some v := by
    clear h
    induction entries with
    | nil => simp
    | cons e entries ih =>
      intro b hb
      apply ih
      rw [get?_set]
      by_cases he : name = e.1
      · exact .inl ⟨e.2, if_pos he⟩
      · rw [if_neg he]
        simpa [he] using hb
  exact hfold empty (.inr h)

end Bindings

namespace Store

/-- The name is bound in the frame or one that it hangs off. -/
def Binds (s : Store) (f : FrameId) (name : String) : Prop := ∃ v, s.lookup f name = some v

/-- Frames stay, with their parents, and what they bind stays bound. -/
structure Keeps (s t : Store) : Prop where
  frame : ∀ {g : FrameId} {frame : Frame}, s.frames[g]? = some frame →
    ∃ frame', t.frames[g]? = some frame' ∧ frame'.parent = frame.parent ∧
      ∀ name v, frame.bindings.get? name = some v → ∃ w, frame'.bindings.get? name = some w

variable {s t u : Store} {f : FrameId} {name : String}

/-- A store keeps its own frames. -/
theorem Keeps.refl (s : Store) : s.Keeps s where
  frame h := ⟨_, h, rfl, fun _ v hv => ⟨v, hv⟩⟩

theorem Keeps.trans (h : s.Keeps t) (h' : t.Keeps u) : s.Keeps u where
  frame hg := by
    obtain ⟨frame₁, hg₁, hparent₁, hnames₁⟩ := h.frame hg
    obtain ⟨frame₂, hg₂, hparent₂, hnames₂⟩ := h'.frame hg₁
    refine ⟨frame₂, hg₂, hparent₂.trans hparent₁, fun name v hv => ?_⟩
    obtain ⟨w, hw⟩ := hnames₁ name v hv
    exact hnames₂ name w hw

/-- A name is bound from a frame if the frame itself binds it, or its parent does or one above. -/
theorem binds_iff : s.Binds f name ↔ (∃ v, (s.frame f).bindings.get? name = some v) ∨
    ∃ p, (s.frame f).parent = some p ∧ p < f ∧ s.Binds p name := by
  unfold Binds
  rw [lookup]
  cases (s.frame f).bindings.get? name with
  | some v => simp
  | none =>
    cases (s.frame f).parent with
    | none => simp
    | some p => by_cases hlt : p < f <;> simp [hlt]

/-- Frames that were not given out bind nothing. -/
theorem Binds.exists_frame (h : s.Binds f name) : ∃ frame, s.frames[f]? = some frame := by
  cases hf : s.frames[f]? with
  | some frame => exact ⟨frame, rfl⟩
  | none =>
    rw [binds_iff, frame_missing hf] at h
    rcases h with ⟨v, hv⟩ | ⟨p, hp, -⟩
    · cases hv
    · cases hp

/-- What is bound stays bound. -/
theorem Binds.keep {f : FrameId} (h : s.Keeps t) (hb : s.Binds f name) : t.Binds f name := by
  obtain ⟨frame, hf⟩ := hb.exists_frame
  obtain ⟨frame', hf', hparent, hnames⟩ := h.frame hf
  rw [← frame_eq hf, ← frame_eq hf'] at hparent hnames
  rcases binds_iff.mp hb with ⟨v, hv⟩ | ⟨p, hp, hlt, hb⟩
  · exact binds_iff.mpr (.inl (hnames name v hv))
  · exact binds_iff.mpr (.inr ⟨p, hparent.trans hp, hlt, hb.keep h⟩)
termination_by f

theorem keeps_of_frames (h : t.frames = s.frames) : s.Keeps t where
  frame hg := ⟨_, by rw [h, hg], rfl, fun _ v hv => ⟨v, hv⟩⟩

theorem keeps_addFrame (bindings : Bindings Value) (parent : Option FrameId) :
    s.Keeps (s.addFrame bindings parent).2 := by
  refine ⟨fun {g frame} hg => ?_⟩
  have hlt := (Array.getElem?_eq_some_iff.mp hg).1
  refine ⟨frame, ?_, rfl, fun _ v hv => ⟨v, hv⟩⟩
  rw [addFrame, Array.getElem?_push, if_neg (Nat.ne_of_lt hlt), hg]

/-- Binding a name unbinds none. -/
theorem keeps_bind (f : FrameId) (name : String) (v : Value) : s.Keeps (s.bind f name v) := by
  refine ⟨fun {g frame} hg => ?_⟩
  rw [Store.bind, Array.getElem?_modify]
  by_cases hf : f = g
  · refine ⟨{ frame with bindings := frame.bindings.set name v }, ?_, rfl, fun n w hn => ?_⟩
    · rw [if_pos hf, hg, Option.map_some]
    · rw [Bindings.get?_set]
      split
      · exact ⟨v, rfl⟩
      · exact ⟨w, hn⟩
  · exact ⟨frame, by rw [if_neg hf, hg], rfl, fun _ w hw => ⟨w, hw⟩⟩

/-- A name that was bound in a frame is bound from it. -/
theorem binds_bind {frame : Frame} (hf : s.frames[f]? = some frame) (name : String) (v : Value) :
    (s.bind f name v).Binds f name := by
  have hbound : (s.bind f name v).frames[f]? =
      some { frame with bindings := frame.bindings.set name v } := by
    rw [Store.bind, Array.getElem?_modify, if_pos rfl, hf, Option.map_some]
  rw [binds_iff, frame_eq hbound]
  exact .inl ⟨v, by rw [Bindings.get?_set, if_pos rfl]⟩

end Store

/-! ## Closed stores -/

/-- The names that a function looks up in the frames that it hangs off. -/
def Closure.free (c : Closure) : List String := (Expr.lambda c.params c.body).free

/-- There is a root frame, and the free names of every closure are bound in the frames that it hangs
off; those of a closure that hangs off the root frame may also be `pending`, that is about to be
bound there. -/
structure Store.Closed (pending : List String) (s : Store) : Prop where
  root_exists : ∃ frame, s.frames[root]? = some frame
  binds : ∀ {c : ClosureId} {closure : Closure}, s.closures[c]? = some closure →
    ∀ n ∈ closure.free, s.Binds closure.frame n ∨ n ∈ pending ∧ closure.frame = root

namespace Store

variable {s t : Store} {pending : List String}

/-- Where every function is closed, some names may be left pending. -/
theorem Closed.mono (hs : s.Closed []) : s.Closed pending where
  root_exists := hs.root_exists
  binds hc n hn := by
    rcases hs.binds hc n hn with h | ⟨h, -⟩
    · exact .inl h
    · cases h

theorem closed_initial : initial.Closed [] where
  root_exists := ⟨_, rfl⟩
  binds h := by cases h

/-- The free names of a function are bound where it was made. -/
theorem Closed.closure_binds (hs : s.Closed []) (c : ClosureId) :
    ∀ n ∈ (s.closure c).free, s.Binds (s.closure c).frame n := by
  intro n hn
  cases hc : s.closures[c]? with
  | none =>
    rw [closure_missing hc] at hn
    cases hn
  | some closure =>
    rw [closure_eq hc] at hn ⊢
    rcases hs.binds hc n hn with h | ⟨h, -⟩
    · exact h
    · cases h

/-- A store stays closed when it is kept and its closures are old ones, but for their names. -/
theorem Closed.keep (hs : s.Closed pending) (h : s.Keeps t)
    (hold : ∀ {c : ClosureId} {closure : Closure}, t.closures[c]? = some closure →
      ∃ closure', s.closures[c]? = some closure' ∧ closure'.free = closure.free ∧
        closure'.frame = closure.frame) : t.Closed pending where
  root_exists := by
    obtain ⟨frame, hroot⟩ := hs.root_exists
    obtain ⟨frame', hroot', -⟩ := h.frame hroot
    exact ⟨frame', hroot'⟩
  binds hc n hn := by
    obtain ⟨closure', hc', hfree, hframe⟩ := hold hc
    rw [← hfree] at hn
    rw [← hframe]
    exact (hs.binds hc' n hn).imp_left (Binds.keep h)

/-- A function may be made whose free names are bound, or pending in the root frame. -/
theorem Closed.addClosure {closure : Closure} (hs : s.Closed [])
    (hclosure : ∀ n ∈ closure.free, s.Binds closure.frame n ∨ n ∈ pending ∧ closure.frame = root) :
    (s.addClosure closure).2.Closed pending where
  root_exists := hs.root_exists
  binds {c closure'} hc n hn := by
    have hkeeps : s.Keeps (s.addClosure closure).2 := keeps_of_frames rfl
    rw [Store.addClosure, Array.getElem?_push] at hc
    split at hc
    · cases hc
      exact (hclosure n hn).imp_left (Binds.keep hkeeps)
    · exact (hs.mono.binds hc n hn).imp_left (Binds.keep hkeeps)

/-- The name of a function is not one of its free names, so a store stays closed when it is named.
-/
theorem Closed.nameClosure (hs : s.Closed pending) (c : ClosureId) (name : String) :
    (s.nameClosure c name).Closed pending := by
  refine hs.keep (keeps_of_frames rfl) fun {c' closure} hc' => ?_
  rw [Store.nameClosure, Array.getElem?_modify] at hc'
  split at hc'
  · obtain ⟨closure', hc, rfl⟩ := Option.map_eq_some_iff.mp hc'
    exact ⟨closure', hc, rfl, rfl⟩
  · exact ⟨closure, hc', rfl, rfl⟩

/-- Binding the pending name in the root frame closes the store. -/
theorem Closed.bind {name : String} (hs : s.Closed [name]) (v : Value) :
    (s.bind root name v).Closed [] := by
  have hclosed := hs.keep (keeps_bind root name v) fun hc => ⟨_, hc, rfl, rfl⟩
  refine ⟨hclosed.root_exists, fun {c closure} hc n hn => .inl ?_⟩
  rcases hclosed.binds hc n hn with h | ⟨hmem, hframe⟩
  · exact h
  · obtain ⟨frame, hroot⟩ := hs.root_exists
    rw [List.mem_singleton.mp hmem, hframe]
    exact binds_bind hroot name v

/-- Keeping the store closed, while nothing that is bound ceases to be. -/
def scoping : Policy where
  holds s := s.store.Closed []
  allows s t := s.store.Keeps t.store
  refl s := Keeps.refl s.store
  trans := Keeps.trans

/-- The free names of the expression are bound around the frame. -/
def InScope (s : State) (f : FrameId) (x : Expr) : Prop := ∀ n ∈ x.free, s.store.Binds f n

/-- Evaluating in scope keeps the store closed, and every part is in scope. -/
theorem guides_scoping : scoping.Guides (fun _ _ => True) InScope where
  valid_of_allows _ _ := trivial
  ready_of_allows h hx n hn := (hx n hn).keep h
  ready_part hx hy n hn := hx n (Expr.free_part hy hn)
  number _ _ := trivial
  lookup _ _ _ := trivial
  write _ hs := ⟨hs, Keeps.refl _⟩
  makeClosure hs hx _ := ⟨hs.addClosure fun n hn => .inl (hx n hn), keeps_of_frames rfl, trivial⟩
  openFrame {s c args} hs _ _ harity := by
    intro frame
    have hkeeps : s.store.Keeps (s.openFrame frame).store := keeps_addFrame _ _
    refine ⟨hs.keep hkeeps fun hc => ⟨_, hc, rfl, rfl⟩, hkeeps, fun n hn => ?_⟩
    have hnew : (s.openFrame frame).store.frame s.store.frames.size = frame :=
      frame_eq Array.getElem?_push_size
    rw [binds_iff, hnew]
    by_cases hparam : n ∈ (s.store.closure c).params
    · refine .inl (Bindings.get?_ofList ?_)
      rwa [List.map_fst_zip (Nat.le_of_eq harity.symm)]
    · have hfree : n ∈ (s.store.closure c).free := by
        rw [Closure.free, Expr.free]
        exact List.mem_filter.mpr ⟨hn, by simpa using hparam⟩
      have hbound := hs.closure_binds c n hfree
      obtain ⟨_, hframe⟩ := hbound.exists_frame
      exact .inr ⟨_, rfl, (Array.getElem?_eq_some_iff.mp hframe).1, hbound.keep hkeeps⟩

end Store

/-! ## Sites in scope -/

/-- A name that is looked up at the site is bound around its frame. -/
structure Site.InScope (q : Site) : Prop where
  var : ∀ {name : String}, q.expr = .var name → constant? name = none →
    q.state.store.Binds q.frame name
  call : ∀ {name : String} {args : List Expr}, q.expr = .call name args →
    Builtin.ofName? name = none → q.state.store.Binds q.frame name

/-- A site that is ready is in scope. -/
theorem Site.Ready.inScope {q : Site} (h : q.Ready Store.scoping Store.InScope) : q.InScope := by
  obtain ⟨l, x, f, s⟩ := q
  constructor
  · rintro name ⟨⟩ hconstant
    exact h.2 name (by simp [Expr.free, hconstant])
  · rintro name args ⟨⟩ hname
    exact h.2 name (by simp [Expr.free, hname])

/-- Nothing is looked up where a function is made. -/
theorem Site.inScope_lambda {l : Nat} {params : List String} {body : Expr} {f : FrameId}
    {s : State} : Site.InScope ⟨l, .lambda params body, f, s⟩ where
  var h := by cases h
  call h := by cases h

theorem Site.not_next_lambda {traced : Bool} {l : Nat} {params : List String} {body : Expr}
    {f : FrameId} {s : State} {q : Site} : ¬ Next traced ⟨l, .lambda params body, f, s⟩ q := by
  rintro (h | _ | _ | h)
  · cases h
  · cases h

/-- The error of a name that was looked up in vain. -/
def EvalError.IsLookup : EvalError → Prop
  | .undefinedVariable _ | .unknownFunction _ => True
  | _ => False

/-- Operators fail for other reasons than a name that is not found. -/
theorem BinaryOp.not_isLookup {op : BinaryOp} {a b : Float} {e : EvalError}
    (h : op.eval a b = .error e) : ¬ e.IsLookup := by
  cases op <;> simp only [BinaryOp.eval, reduceCtorEq] at h
  · split at h <;> cases h
    exact id
  · split at h <;> cases h
    exact id

theorem UnaryFunction.not_isLookup {g : UnaryFunction} {x : Float} {e : EvalError}
    (h : g.eval x = .error e) : ¬ e.IsLookup := by
  cases g <;> simp only [UnaryFunction.eval, UnaryFunction.logarithm, reduceCtorEq] at h <;>
    split at h <;> cases h <;> exact id

theorem BinaryFunction.not_isLookup {g : BinaryFunction} {x y : Float} {e : EvalError}
    (h : g.eval x y = .error e) : ¬ e.IsLookup := by
  cases g <;> simp only [BinaryFunction.eval, BinaryFunction.logarithm, reduceCtorEq] at h
  · split at h
    · cases h
      exact id
    · split at h
      · cases h
        exact id
      · split at h <;> cases h
  · split at h <;> cases h
    exact id

/-- Built-in functions fail for other reasons than a name that is not found. -/
theorem Builtin.not_isLookup {b : Builtin} {xs : List Float} {e : EvalError}
    (h : b.eval xs = .error (.eval e)) : ¬ e.IsLookup := by
  unfold Builtin.eval at h
  split at h
  · rename_i g x
    cases hg : g.eval x with
    | ok y =>
      rw [hg] at h
      cases h
    | error e' =>
      rw [hg] at h
      cases h
      exact UnaryFunction.not_isLookup hg
  · rename_i g x y
    cases hg : g.eval x y with
    | ok z =>
      rw [hg] at h
      cases h
    | error e' =>
      rw [hg] at h
      cases h
      exact BinaryFunction.not_isLookup hg
  · cases h
  · rename_i g x xs
    cases hg : g.eval (x :: xs) <;> rw [hg] at h <;> cases h
  · cases h
    exact id

/-- Where names are bound, the only name that is looked up in vain is a number that is called. -/
theorem Site.Raises.inScope {traced : Bool} {q : Site} {e : Fault} {err : EvalError}
    (h : q.Raises traced e) (he : e = .eval err) (herr : err.IsLookup) (hq : q.InScope) :
    ∃ name args x, err = .unknownFunction name ∧ q.expr = .call name args ∧
      Builtin.ofName? name = none ∧ q.state.store.lookup q.frame name = some (.number x) := by
  cases h with
  | undefinedVariable hconstant hnone =>
    obtain ⟨v, hv⟩ := hq.var rfl hconstant
    rw [hnone] at hv
    cases hv
  | unknownFunction hname hno =>
    obtain ⟨v, hv⟩ := hq.call rfl hname
    cases he
    cases v with
    | number x => exact ⟨_, _, x, rfl, rfl, hname, hv⟩
    | closure c => exact absurd hv (hno c)
  | notNumber | reservedName | arityMismatch =>
    cases he
    exact herr.elim
  | operator _ _ _ heval =>
    cases he
    exact absurd herr (BinaryOp.not_isLookup heval)
  | builtin _ _ heval =>
    subst he
    exact absurd herr (Builtin.not_isLookup heval)
  | tooDeep => cases he

/-! ## Statements and programs -/

section Statements

variable {set : Settings} {s t : State} {v : Value} {assigned : List String}

/-- Statements in a row are in scope, each behind what those before it assign. -/
theorem Stmt.scopedFrom_append {before after : List Stmt} {stmt : Stmt}
    (h : ScopedFrom assigned (before ++ stmt :: after)) :
    ScopedFrom assigned before ∧ stmt.ScopedIn (assigned ++ targets before) := by
  induction before generalizing assigned with
  | nil => exact ⟨trivial, by simpa [targets] using h.1⟩
  | cons stmt' before ih =>
    obtain ⟨hbefore, hstmt⟩ := ih h.2
    rw [List.append_assoc, ← targets_cons] at hstmt
    exact ⟨⟨h.1, hbefore⟩, hstmt⟩

/-- An assignment that has a value names and binds it. -/
theorem ok_of_evalStmt_assign {f : FrameId} {name : String} {x : Expr}
    (h : (set.evalStmt f (.assign name x)).on s = (.ok v, t)) :
    ∃ u, (set.eval f x).on s = (.ok v, u) ∧
      t.store = ((nameValue name v).after u).store.bind f name v := by
  obtain ⟨w, u, hx, h⟩ := Run.ok_of_on_bind h
  obtain ⟨_, _, hfree, h⟩ := Run.ok_of_on_bind h
  obtain ⟨-, rfl⟩ := Run.ok_of_ensureFree hfree
  obtain ⟨_, u', hname, h⟩ := Run.ok_of_on_bind h
  obtain ⟨log, hlog⟩ := Run.on_note set.traceRun (fun s =>
    "  bind " ++ name ++ " = " ++ s.shown w ++ " (depth " ++ toString (s.depth f) ++ ")") u'
  rw [Run.on_bind_ok hlog, Run.on_bind_ok (Run.on_update _ _)] at h
  cases h
  exact ⟨u, hx, by rw [Run.after, hname]⟩

open Store (scoping InScope guides_scoping)

/-- Naming a value keeps the store closed, and nothing is unbound. -/
theorem closed_nameValue {pending : List String} (name : String) (v : Value)
    (hs : s.store.Closed pending) : ((nameValue name v).after s).store.Closed pending ∧
      s.store.Keeps ((nameValue name v).after s).store := by
  cases v with
  | number x => exact ⟨hs, Store.Keeps.refl _⟩
  | closure c => exact ⟨hs.nameClosure c name, Store.keeps_of_frames rfl⟩

/-- The value of an assignment may need the name that is assigned to: it is bound before anything
else is evaluated. -/
theorem scoped_of_assign {name : String} {x : Expr} {u : State}
    (hx : (set.eval Store.root x).on s = (.ok v, u)) (hu : u.store.Closed [name])
    (hsu : s.store.Keeps u.store)
    (h : (set.evalStmt Store.root (.assign name x)).on s = (.ok v, t)) :
    t.store.Closed [] ∧ s.store.Keeps t.store ∧ t.store.Binds Store.root name := by
  obtain ⟨u', hx', ht⟩ := ok_of_evalStmt_assign h
  rw [hx] at hx'
  cases hx'
  obtain ⟨hnamed, hkeeps⟩ := closed_nameValue name v hu
  obtain ⟨_, hroot⟩ := hnamed.root_exists
  rw [ht]
  exact ⟨hnamed.bind v, (hsu.trans hkeeps).trans (Store.keeps_bind _ _ _),
    Store.binds_bind hroot name v⟩

/-- The value of a statement that defines no function is in scope if what it needs has been
assigned. -/
theorem Stmt.ScopedIn.inScope {stmt : Stmt} (hstmt : stmt.ScopedIn assigned)
    (hassigned : ∀ n ∈ assigned, s.store.Binds Store.root n) (hno : stmt.function? = none) :
    InScope s Store.root stmt.value := by
  intro n hn
  rcases hstmt n hn with h | h
  · exact hassigned n h
  · rw [hno] at h
    cases h

/-- An evaluation in scope leaves a closed store with the same names bound. -/
theorem closed_of_eval {x : Expr} (hs : s.store.Closed []) (hx : InScope s Store.root x)
    (h : (set.eval Store.root x).on s = (.ok v, t)) :
    t.store.Closed [] ∧ s.store.Keeps t.store := by
  have hrun := Settings.eval_guided (P := scoping) guides_scoping set x hs hx
  obtain ⟨ht, hst, -⟩ := hrun.on h
  exact ⟨ht, hst⟩

/-- A function may need the name that it is assigned to; every other value needs none. -/
theorem closed_of_function {name : String} {params : List String} {body : Expr}
    (hstmt : (Stmt.assign name (.lambda params body)).ScopedIn assigned) (hs : s.store.Closed [])
    (hassigned : ∀ n ∈ assigned, s.store.Binds Store.root n)
    (h : (set.eval Store.root (.lambda params body)).on s = (.ok v, t)) :
    t.store.Closed [name] ∧ s.store.Keeps t.store := by
  rw [Settings.eval, Expr.eval] at h
  rw [ok_of_evalLambda h]
  refine ⟨hs.addClosure fun n hn => ?_, Store.keeps_of_frames rfl⟩
  rcases hstmt n hn with h | h
  · exact .inl (hassigned n h)
  · cases h
    exact .inr ⟨List.mem_singleton_self _, rfl⟩

/-- A statement in scope leaves a closed store in which its target is bound too. -/
theorem scoped_of_evalStmt {stmt : Stmt} (hstmt : stmt.ScopedIn assigned)
    (hs : s.store.Closed []) (hassigned : ∀ n ∈ assigned, s.store.Binds Store.root n)
    (h : (set.evalStmt Store.root stmt).on s = (.ok v, t)) :
    t.store.Closed [] ∧ ∀ n ∈ assigned ++ targets [stmt], t.store.Binds Store.root n := by
  cases stmt with
  | expr x =>
    obtain ⟨ht, hst⟩ := closed_of_eval hs (hstmt.inScope hassigned rfl) h
    exact ⟨ht, fun n hn => (hassigned n (by simpa [targets] using hn)).keep hst⟩
  | assign name x =>
    obtain ⟨u, hx, -⟩ := ok_of_evalStmt_assign h
    have hu : u.store.Closed [name] ∧ s.store.Keeps u.store := by
      cases hfun : (Stmt.assign name x).function? with
      | none =>
        obtain ⟨hu, hsu⟩ := closed_of_eval hs (hstmt.inScope hassigned hfun) hx
        exact ⟨hu.mono, hsu⟩
      | some _ =>
        obtain ⟨params, body, he⟩ := Stmt.eq_of_function? hfun
        cases he
        exact closed_of_function hstmt hs hassigned hx
    obtain ⟨ht, hst, hname⟩ := scoped_of_assign hx hu.1 hu.2 h
    refine ⟨ht, fun n hn => ?_⟩
    rcases List.mem_append.mp hn with hn | hn
    · exact (hassigned n hn).keep hst
    · rw [List.mem_singleton.mp hn]
      exact hname

/-- Statements in scope leave a closed store in which all their targets are bound. -/
theorem scoped_of_evalStmts {ss : List Stmt} {index : Nat} {result : Value}
    (hss : Stmt.ScopedFrom assigned ss) (hs : s.store.Closed [])
    (hassigned : ∀ n ∈ assigned, s.store.Binds Store.root n)
    (h : (set.evalStmts Store.root index result ss).on s = (.ok v, t)) :
    t.store.Closed [] ∧ ∀ n ∈ assigned ++ targets ss, t.store.Binds Store.root n := by
  induction ss generalizing s assigned index result with
  | nil =>
    cases h
    exact ⟨hs, by simpa [targets] using hassigned⟩
  | cons stmt ss ih =>
    rw [Settings.evalStmts] at h
    obtain ⟨log, hlog⟩ := Run.on_note set.traceRun (fun _ =>
      "Evaluating stmt " ++ toString index ++ ": " ++ stmt.outline) s
    rw [Run.on_bind_ok hlog] at h
    obtain ⟨w, u, hstmt, h⟩ := Run.ok_of_on_bind h
    obtain ⟨hu, hassigned'⟩ := scoped_of_evalStmt (s := ⟨s.store, log⟩) hss.1 hs hassigned hstmt
    rw [targets_cons, ← List.append_assoc]
    exact ih hss.2 hu hassigned' h

open Relation (ReflTransGen)

/-- Whatever a well-scoped program comes to evaluate is in scope. -/
theorem Program.inScope_of_reaches {p : Program} (hp : p.WellScoped) (hs : s.store.Closed [])
    {q : Site} (hq : p.Reaches set Store.root s q) : q.InScope := by
  obtain ⟨start, hstart, hreach⟩ := hq
  cases hstart with
  | @intro before stmt after result t u hstmts hbefore hnote =>
    unfold Program.WellScoped at hp
    rw [hstmts] at hp
    obtain ⟨hscoped, hstmt⟩ := Stmt.scopedFrom_append hp
    obtain ⟨ht, hassigned⟩ := scoped_of_evalStmts hscoped hs (fun n hn => by cases hn) hbefore
    obtain ⟨log, hlog⟩ := Run.on_note set.traceRun (fun _ =>
      "Evaluating stmt " ++ toString before.length ++ ": " ++ stmt.outline) t
    rw [hlog] at hnote
    cases hnote
    cases hfun : stmt.function? with
    | none =>
      have hready :
          Site.Ready scoping InScope ⟨set.limit, stmt.value, Store.root, ⟨t.store, log⟩⟩ :=
        ⟨ht, hstmt.inScope (s := ⟨t.store, log⟩) hassigned hfun⟩
      exact (Site.ready_of_reach guides_scoping hreach hready).inScope
    | some name =>
      -- Making the function evaluates nothing else.
      obtain ⟨params, body, rfl⟩ := Stmt.eq_of_function? hfun
      rcases hreach.cases_head with rfl | ⟨q', hnext, -⟩
      · exact Site.inScope_lambda
      · exact absurd hnext Site.not_next_lambda

end Statements

/-- In a run of a well-scoped program from the start, with whatever depth of calls, every name that
is looked up is bound in a frame around; no variable is undefined; and a function is unknown only
where the nearest binding of its name, seen from the frame of the call, is a number. -/
theorem Program.runs_in_scope {p : Program} (h : p.WellScoped) (set : Settings) :
    let s : State := ⟨Store.initial, #[]⟩
    let run := set.evalProgram Store.root p
    (∀ q, p.Reaches set Store.root s q → q.InScope) ∧
    (∀ name, (run.on s).1 ≠ .error (.eval (.undefinedVariable name))) ∧
    ∀ name, (run.on s).1 = .error (.eval (.unknownFunction name)) →
      ∃ q args x, p.Reaches set Store.root s q ∧ q.expr = .call name args ∧
        Builtin.ofName? name = none ∧ q.state.store.lookup q.frame name = some (.number x) ∧
        q.outcome set.traceRun = (.error (.eval (.unknownFunction name)), run.after s) := by
  intro s run
  have hscope : ∀ q, p.Reaches set Store.root s q → q.InScope :=
    fun q hq => Program.inScope_of_reaches h Store.closed_initial hq
  -- An error of a lookup starts at some site. A site in scope finds every name that it looks up, so
  -- that only a call of a number is left.
  have horigin : ∀ {err : EvalError}, (run.on s).1 = .error (.eval err) → err.IsLookup →
      ∃ q name args x, err = .unknownFunction name ∧ p.Reaches set Store.root s q ∧
        q.expr = .call name args ∧ Builtin.ofName? name = none ∧
        q.state.store.lookup q.frame name = some (.number x) ∧
        q.outcome set.traceRun = (.error (.eval err), run.after s) := by
    intro err herr hlookup
    have hrun : run.on s = (.error (.eval err), run.after s) := by rw [← herr]; rfl
    rcases Program.fault_origin p hrun with ⟨q, hq, hraises, hend⟩ | ⟨_, _, _, _, _, he⟩ |
      ⟨_, _, he⟩
    · obtain ⟨name, args, x, hname, hexpr, hfree, hnumber⟩ :=
        hraises.inScope rfl hlookup (hscope q hq)
      exact ⟨q, name, args, x, hname, hq, hexpr, hfree, hnumber, hend⟩
    · -- The other two ways to fail are no lookups.
      cases he
      exact hlookup.elim
    · cases he
      exact hlookup.elim
  refine ⟨hscope, fun name hname => ?_, fun name hname => ?_⟩
  · obtain ⟨_, _, _, _, he, -⟩ := horigin hname trivial
    cases he
  · obtain ⟨q, _, args, x, he, hq⟩ := horigin hname trivial
    cases he
    exact ⟨q, args, x, hq⟩

/-- A function that calls itself, one that calls what it is given, and a call of the second with a
number: the parameter `f` is the nearest binding, although a function `f` is bound further out. -/
theorem Program.runs_in_scope_number_called :
    let p : Program := ⟨[
      .assign "f" (.lambda ["n"] (.conditional (.binary .eq (.var "n") (.number 0)) (.number 1)
        (.binary .mul (.var "n") (.call "f" [.binary .sub (.var "n") (.number 1)])))),
      .assign "twice" (.lambda ["f", "x"] (.call "f" [.call "f" [.var "x"]])),
      .assign "a" (.call "twice" [.var "f", .number 3]),
      .expr (.call "twice" [.var "a", .var "pi"])]⟩
    let set : Settings := ⟨false, false, 1000⟩
    let run := set.evalProgram Store.root p
    p.WellScoped ∧
      ((run.on ⟨Store.initial, #[]⟩).1 = .error (.eval (.unknownFunction "f"))) ∧
      ∃ q args x, p.Reaches set Store.root ⟨Store.initial, #[]⟩ q ∧ q.expr = .call "f" args ∧
        q.state.store.lookup q.frame "f" = some (.number x) := by
  intro p set run
  have hscoped : p.WellScoped := by decide +kernel
  have hunknown : (run.on ⟨Store.initial, #[]⟩).1 = .error (.eval (.unknownFunction "f")) := by
    decide +kernel
  obtain ⟨q, args, x, hq, hexpr, -, hnumber, -⟩ :=
    (Program.runs_in_scope hscoped set).2.2 "f" hunknown
  exact ⟨hscoped, hunknown, q, args, x, hq, hexpr, hnumber⟩

end Abacus
