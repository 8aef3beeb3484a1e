import Abacus.Proofs.Eval.Mirror
import Mathlib.Data.Option.Basic

/-!
# Runs that correspond

Two runs may give out other places, look up other names and evaluate other expressions, and still
do the same. A `Correspondence` says how the second one follows the first: which stores, closures,
names and expressions of it correspond to those of the first one. It may depend on what has happened
so far, which is called a world here and only grows.

* `Correspondence.Lawful`: what must hold of the correspondence. The laws are about one lookup, one
  closure, one call or one node of an expression.
* `Run.Corresponds`: from states that correspond, both runs end with values that correspond or with
  faults that do, and print the same. `Run.Corresponds.bind`: one run after the other.
* `callClosure_corresponds` and `Settings.eval_corresponds`: calls and expressions, by an induction
  on how deep calls may still be nested, and for each depth one on the expression.
* `Settings.evalProgram_corresponds`: programs, if names may be bound in corresponding stores.
-/

namespace Abacus

/-! ## Names and nodes -/

/-- Nothing, or neither name is reserved. -/
def SameOrFree (name name' : String) : Prop :=
  name' = name ∨ reservedKind? name = none ∧ reservedKind? name' = none

/-- The names are the same or both free, so that they name the same constant. -/
theorem SameOrFree.constant?_eq {n n' : String} (h : SameOrFree n n') :
    constant? n' = constant? n := by
  rcases h with rfl | ⟨hfree, hfree'⟩
  · rfl
  · rw [(reservedKind?_eq_none.mp hfree).1, (reservedKind?_eq_none.mp hfree').1]

/-- A name that names a built-in function has not been changed. -/
theorem SameOrFree.eq_of_builtin {n n' : String} {b : Builtin} (h : SameOrFree n n')
    (hb : Builtin.ofName? n = some b) : n' = n := by
  rcases h with h | ⟨hfree, -⟩
  · exact h
  · rw [(reservedKind?_eq_none.mp hfree).2.1] at hb
    cases hb

theorem SameOrFree.builtin_eq_none {n n' : String} (h : SameOrFree n n')
    (hb : Builtin.ofName? n = none) : Builtin.ofName? n' = none := by
  rcases h with rfl | ⟨-, hfree'⟩
  · exact hb
  · exact (reservedKind?_eq_none.mp hfree').2.1

/-- The second expression is built as the first one is, from names, expressions and functions that
correspond. -/
inductive Expr.Matches (names : String → String → Prop) (exprs : Expr → Expr → Prop)
    (lambdas : List String → Expr → List String → Expr → Prop) : Expr → Expr → Prop
  | number (v : Float) : Matches names exprs lambdas (.number v) (.number v)
  | var {n n' : String} (hn : names n n') : Matches names exprs lambdas (.var n) (.var n')
  | unary {op : UnaryOp} {x x' : Expr} (hx : exprs x x') :
      Matches names exprs lambdas (.unary op x) (.unary op x')
  | binary {op : BinaryOp} {x x' y y' : Expr} (hx : exprs x x') (hy : exprs y y') :
      Matches names exprs lambdas (.binary op x y) (.binary op x' y')
  | conditional {c c' t t' e e' : Expr} (hc : exprs c c') (ht : exprs t t') (he : exprs e e') :
      Matches names exprs lambdas (.conditional c t e) (.conditional c' t' e')
  | call {n n' : String} {args args' : List Expr} (hn : names n n')
      (hargs : List.Forall₂ exprs args args') :
      Matches names exprs lambdas (.call n args) (.call n' args')
  | lambda {params params' : List String} {body body' : Expr}
      (h : lambdas params body params' body') :
      Matches names exprs lambdas (.lambda params body) (.lambda params' body')

/-- Every expression is built like itself. -/
theorem Expr.Matches.refl {names : String → String → Prop} {exprs : Expr → Expr → Prop}
    {lambdas : List String → Expr → List String → Expr → Prop} (hnames : ∀ n, names n n)
    (hexprs : ∀ x, exprs x x) (hlambdas : ∀ params body, lambdas params body params body)
    (x : Expr) : x.Matches names exprs lambdas x := by
  cases x with
  | number v => exact .number v
  | var n => exact .var (hnames n)
  | unary op x => exact .unary (hexprs x)
  | binary op x y => exact .binary (hexprs x) (hexprs y)
  | conditional c t e => exact .conditional (hexprs c) (hexprs t) (hexprs e)
  | call n args => exact .call (hnames n) (List.forall₂_same.mpr fun x _ => hexprs x)
  | lambda params body => exact .lambda (hlambdas params body)

/-! ## Correspondence -/

/-- How a second run corresponds to a first one. -/
structure Correspondence (World : Type) where
  /-- The second world is the first one, or what it has become. -/
  later : World → World → Prop
  stores : World → Store → Store → Prop
  closures : World → ClosureId → ClosureId → Prop
  /-- Names that are looked up in two frames. -/
  names : World → FrameId → FrameId → String → String → Prop
  /-- Expressions that are evaluated in two frames. -/
  exprs : World → FrameId → FrameId → Expr → Expr → Prop
  faults : Fault → Fault → Prop

namespace Correspondence

variable {World : Type} (σ : Correspondence World)

/-- The same number, or closures that correspond. -/
inductive Values (w : World) : Value → Value → Prop
  | number (x : Float) : Values w (.number x) (.number x)
  | closure {c c' : ClosureId} (h : σ.closures w c c') : Values w (.closure c) (.closure c')

/-- The stores correspond, and the runs have printed the same. -/
structure States (w : World) (s t : State) : Prop where
  stores : σ.stores w s.store t.store
  printed : printedTexts t.log.toList = printedTexts s.log.toList

/-- Both runs end with values between which `Q` holds, or with faults that correspond. -/
inductive Ends (w : World) {α β : Type} (Q : World → α → β → Prop) :
    Except Fault α × State → Except Fault β × State → Prop
  | ok {w' : World} {s t : State} {a : α} {b : β} (hw : σ.later w w') (h : σ.States w' s t)
      (hab : Q w' a b) : Ends w Q (.ok a, s) (.ok b, t)
  | error {w' : World} {s t : State} {e e' : Fault} (he : σ.faults e e') (hw : σ.later w w')
      (h : σ.States w' s t) : Ends w Q (.error e, s) (.error e', t)

/-- In corresponding stores the variable has a number that the second expression spells out. -/
inductive Inlined (w : World) (f : FrameId) : Expr → Expr → Prop
  | intro {n : String} {v : Float} (hn : constant? n = none)
      (h : ∀ {s t}, σ.stores w s t → s.lookup f n = some (.number v)) :
      Inlined w f (.var n) (.number v)

/-- What must hold of a correspondence. -/
structure Lawful : Prop where
  refl : ∀ w, σ.later w w
  trans : ∀ {w w' w''}, σ.later w w' → σ.later w' w'' → σ.later w w''
  closures_later : ∀ {w w' c c'}, σ.later w w' → σ.closures w c c' → σ.closures w' c c'
  names_later : ∀ {w w' f f' n n'}, σ.later w w' → σ.names w f f' n n' → σ.names w' f f' n n'
  exprs_later : ∀ {w w' f f' x x'}, σ.later w w' → σ.exprs w f f' x x' → σ.exprs w' f f' x x'
  expr : ∀ {w f f' x x'}, σ.exprs w f f' x x' → σ.Inlined w f x x' ∨
    Expr.Matches (σ.names w f f') (σ.exprs w f f')
      (fun params _ params' _ => List.Forall₂ SameOrFree params params') x x'
  free : ∀ {w f f' n n'}, σ.names w f f' n n' → SameOrFree n n'
  lookup : ∀ {w s t f f' n n'}, σ.stores w s t → σ.names w f f' n n' →
    Option.Rel (σ.Values w) (s.lookup f n) (t.lookup f' n')
  /-- A lambda makes functions that correspond. -/
  made : ∀ {w s t f f' params params' body body'}, σ.stores w s t →
    σ.exprs w f f' (.lambda params body) (.lambda params' body') → ∃ w', σ.later w w' ∧
      σ.stores w' (s.addClosure ⟨params, body, f, none⟩).2
        (t.addClosure ⟨params', body', f', none⟩).2 ∧
      σ.closures w' s.closures.size t.closures.size
  arity : ∀ {w s t c c'}, σ.stores w s t → σ.closures w c c' →
    (t.closure c').arity = (s.closure c).arity
  /-- A call opens frames in which the bodies correspond. -/
  opened : ∀ {w s t c c' args args'}, σ.stores w s t → σ.closures w c c' →
    List.Forall₂ (σ.Values w) args args' → args.length = (s.closure c).arity →
    ∃ w', σ.later w w' ∧
      σ.stores w'
        (s.addFrame (.ofList ((s.closure c).params.zip args)) (some (s.closure c).frame)).2
        (t.addFrame (.ofList ((t.closure c').params.zip args')) (some (t.closure c').frame)).2 ∧
      σ.exprs w' s.frames.size t.frames.size (s.closure c).body (t.closure c').body
  faults_refl : ∀ e, σ.faults e e
  undefinedVariable : ∀ {w f f' n n'}, σ.names w f f' n n' →
    σ.faults (.eval (.undefinedVariable n)) (.eval (.undefinedVariable n'))
  unknownFunction : ∀ {w f f' n n'}, σ.names w f f' n n' →
    σ.faults (.eval (.unknownFunction n)) (.eval (.unknownFunction n'))
  arityMismatch : ∀ {w s t c c' f f' n n'} expected got, σ.stores w s t → σ.closures w c c' →
    σ.names w f f' n n' →
    σ.faults (.eval (.arityMismatch ((s.closure c).label (some n)) expected got false))
      (.eval (.arityMismatch ((t.closure c').label (some n')) expected got false))
  notNumber : ∀ {w s t c c'} place, σ.stores w s t → σ.closures w c c' →
    σ.faults (Run.notNumber place (s.closure c)) (Run.notNumber place (t.closure c'))

variable {σ} (hσ : σ.Lawful) {w w' : World}

section SamePlaces

/-! ### Closures at the same places -/

/-- A value corresponds to itself where each function does. -/
theorem values_refl (h : ∀ c, σ.closures w c c) (v : Value) : σ.Values w v v := by
  cases v with
  | number x => exact .number x
  | closure c => exact .closure (h c)

variable (h : ∀ {c c'}, σ.closures w c c' → c' = c)
include h

theorem eq_of_values {v v' : Value} (hv : σ.Values w v v') : v' = v := by
  cases hv with
  | number x => rfl
  | closure hc => rw [h hc]

theorem eq_of_forall₂_values {vs vs' : List Value} (hvs : List.Forall₂ (σ.Values w) vs vs') :
    vs' = vs := by
  induction hvs with
  | nil => rfl
  | cons hv _ ih => rw [eq_of_values h hv, ih]

end SamePlaces

theorem Ends.states {α β : Type} {Q : World → α → β → Prop} {r : Except Fault α × State}
    {r' : Except Fault β × State} (h : σ.Ends w Q r r') : ∃ w', σ.States w' r.2 r'.2 := by
  cases h with
  | ok _ h _ => exact ⟨_, h⟩
  | error _ _ h => exact ⟨_, h⟩

include hσ in
/-- Runs that end alike in a later world end alike. -/
theorem Ends.of_later {α β : Type} {Q : World → α → β → Prop} {r : Except Fault α × State}
    {r' : Except Fault β × State} (hw : σ.later w w') (h : σ.Ends w' Q r r') : σ.Ends w Q r r' := by
  cases h with
  | ok hw' h hab => exact .ok (hσ.trans hw hw') h hab
  | error he hw' h => exact .error he (hσ.trans hw hw') h

include hσ in
/-- Values correspond in later worlds too. -/
theorem Values.of_later {v v' : Value} (hw : σ.later w w') (h : σ.Values w v v') :
    σ.Values w' v v' := by
  cases h with
  | number x => exact .number x
  | closure hc => exact .closure (hσ.closures_later hw hc)

end Correspondence

/-! ## Rules for runs -/

/-- From states that correspond, the second run does what the first one does. -/
def Run.Corresponds {World α β : Type} (σ : Correspondence World) (w : World)
    (Q : World → α → β → Prop) (run : Run α) (run' : Run β) : Prop :=
  ∀ s t, σ.States w s t → σ.Ends w Q (run.on s) (run'.on t)

section

variable {World : Type} {σ : Correspondence World} (hσ : σ.Lawful) {w : World} {α β γ δ : Type}
  {Q : World → α → β → Prop} {R : World → γ → δ → Prop}

namespace Run.Corresponds

include hσ

/-- Results that correspond may be given. -/
theorem pure {a : α} {b : β} (h : Q w a b) : Corresponds σ w Q (Pure.pure a) (Pure.pure b) :=
  fun _ _ hst => .ok (hσ.refl w) hst h

/-- Faults that correspond may be thrown. -/
theorem throw {e e' : Fault} (he : σ.faults e e') :
    Corresponds σ w Q (MonadExcept.throw e : Run α) (MonadExcept.throw e' : Run β) :=
  fun _ _ h => .error he (hσ.refl w) h

/-- Second runs start where the first ones ended. -/
theorem bind {x : Run α} {x' : Run β} {k : α → Run γ} {k' : β → Run δ}
    (hx : Corresponds σ w Q x x')
    (hk : ∀ a b w', σ.later w w' → Q w' a b → Corresponds σ w' R (k a) (k' b)) :
    Corresponds σ w R (x >>= k) (x' >>= k') := by
  intro s t h
  have hends := hx s t h
  rw [on_bind, on_bind]
  generalize x.on s = end₁ at hends
  generalize x'.on t = end₂ at hends
  cases hends with
  | ok hw h₁ hab => exact (hk _ _ _ hw hab _ _ h₁).of_later hσ hw
  | error he hw h₁ => exact .error he hw h₁

omit hσ in
/-- Both runs look at their stores first. -/
theorem store_bind {k : Store → Run α} {k' : Store → Run β}
    (hk : ∀ s t, σ.stores w s t → Corresponds σ w Q (k s) (k' t)) :
    Corresponds σ w Q (Run.store >>= k) (Run.store >>= k') := by
  intro s t h
  rw [on_store_bind, on_store_bind]
  exact hk s.store t.store h.stores s t h

/-- Stores that correspond may be changed in ways that keep them so. -/
theorem update {f f' : Store → Store} (hf : ∀ s t, σ.stores w s t → σ.stores w (f s) (f' t)) :
    Corresponds σ w (fun _ _ _ => True) (Run.update f) (Run.update f') := by
  intro s t h
  rw [on_update, on_update]
  exact .ok (hσ.refl w) ⟨hf _ _ h.stores, h.printed⟩ trivial

/-- Both runs may print the same text. -/
theorem emit (text : String) :
    Corresponds σ w (fun _ _ _ => True) (Run.emit (.printed text)) (Run.emit (.printed text)) := by
  intro s t h
  rw [on_emit, on_emit]
  refine .ok (hσ.refl w) ⟨h.stores, ?_⟩ trivial
  rw [Mirror.printedTexts_push, Mirror.printedTexts_push, h.printed]

omit hσ in
/-- A line about the run prints nothing. -/
theorem on_note_printed (traced : Bool) (line : Store → String) (s : State) : ∃ log,
    (Run.note traced line).on s = (.ok (), ⟨s.store, log⟩) ∧
      printedTexts log.toList = printedTexts s.log.toList := by
  cases traced with
  | false => exact ⟨s.log, rfl, rfl⟩
  | true =>
    refine ⟨_, rfl, ?_⟩
    rw [Mirror.printedTexts_push]
    exact List.append_nil _

/-- Each run may write about itself what it likes. -/
theorem note (traced traced' : Bool) (line line' : Store → String) :
    Corresponds σ w (fun _ _ _ => True) (Run.note traced line) (Run.note traced' line') := by
  intro s t h
  obtain ⟨log, hs, hlog⟩ := on_note_printed traced line s
  obtain ⟨log', ht, hlog'⟩ := on_note_printed traced' line' t
  rw [hs, ht]
  exact .ok (hσ.refl w) ⟨h.stores, by rw [hlog, hlog', h.printed]⟩ trivial

omit hσ in
/-- What two runs come to that are started on stores that correspond. -/
theorem start {run : Run α} {run' : Run β} (h : Corresponds σ w Q run run') {s t : Store}
    (hst : σ.stores w s t) :
    ∃ w', σ.later w w' ∧ σ.stores w' (run.start s).store (run'.start t).store ∧
      printedTexts (run'.start t).log = printedTexts (run.start s).log ∧
      ((∃ a b, (run.start s).result = .ok a ∧ (run'.start t).result = .ok b ∧ Q w' a b) ∨
        ∃ e e', σ.faults e e' ∧ (run.start s).result = .error e ∧
          (run'.start t).result = .error e') := by
  have hends := h ⟨s, #[]⟩ ⟨t, #[]⟩ ⟨hst, rfl⟩
  unfold Run.on at hends
  unfold Run.start
  generalize (ExceptT.run run).run ⟨s, #[]⟩ = end₁ at hends
  generalize (ExceptT.run run').run ⟨t, #[]⟩ = end₂ at hends
  cases hends with
  | ok hw hend hab => exact ⟨_, hw, hend.stores, hend.printed, .inl ⟨_, _, rfl, rfl, hab⟩⟩
  | error he hw hend => exact ⟨_, hw, hend.stores, hend.printed, .inr ⟨_, _, he, rfl, rfl⟩⟩

end Run.Corresponds

/-! ## Runs of a few steps -/

open Run (Corresponds)

include hσ

/-- Names are reserved in both runs or in none. -/
theorem corresponds_ensureFree {name name' : String} (h : SameOrFree name name') :
    Corresponds σ w (fun _ _ _ => reservedKind? name = none) (Run.ensureFree name)
      (Run.ensureFree name') := by
  unfold Run.ensureFree
  rcases h with rfl | ⟨hfree, hfree'⟩
  · split
    · exact .throw hσ (hσ.faults_refl _)
    · rename_i hfree
      exact .pure hσ hfree
  · rw [hfree, hfree']
    exact .pure hσ rfl

theorem corresponds_ensureFree_all {params params' : List String}
    (h : List.Forall₂ SameOrFree params params') :
    Corresponds σ w (fun _ _ _ => True) (params.forM Run.ensureFree)
      (params'.forM Run.ensureFree) := by
  induction h generalizing w with
  | nil => exact .pure hσ trivial
  | cons hp _ ih => exact (corresponds_ensureFree hσ hp).bind hσ fun _ _ _ _ _ => ih

/-- Values that correspond are the same number, or functions in both runs. -/
theorem corresponds_toNumber (place : String) {v v' : Value} (h : σ.Values w v v') :
    Corresponds σ w (fun _ a b => a = b) (Run.toNumber place v) (Run.toNumber place v') := by
  cases h with
  | number x => exact .pure hσ rfl
  | closure hc => exact .store_bind fun s t hst => .throw hσ (hσ.notNumber place hst hc)

theorem corresponds_ofEval (r : Except EvalError α) :
    Corresponds σ w (fun _ a b => a = b) (Run.ofEval r) (Run.ofEval r) := by
  cases r with
  | ok a => exact .pure hσ rfl
  | error e => exact .throw hσ (hσ.faults_refl _)

/-- The same numbers give a built-in function the same result and the same prints. -/
theorem corresponds_builtin (b : Builtin) (args : List Float) :
    Corresponds σ w (fun _ a b => a = b) (Run.builtin b args) (Run.builtin b args) := by
  unfold Run.builtin
  split
  · exact .throw hσ (hσ.faults_refl _)
  · dsimp only
    split
    · exact (Corresponds.emit hσ _).bind hσ fun _ _ _ _ _ => .pure hσ rfl
    · exact .pure hσ rfl

/-- Names that correspond have values that correspond. -/
theorem corresponds_evalVariable {f f' : FrameId} {n n' : String} (hn : σ.names w f f' n n') :
    Corresponds σ w σ.Values (evalVariable f n) (evalVariable f' n') := by
  unfold evalVariable
  rw [(hσ.free hn).constant?_eq]
  split
  · exact .pure hσ (.number _)
  · refine .store_bind fun s t hst => ?_
    have hlookup := hσ.lookup hst hn
    generalize s.lookup f n = found at hlookup
    generalize t.lookup f' n' = found' at hlookup
    cases hlookup with
    | some hv => exact .pure hσ hv
    | none => exact .throw hσ (hσ.undefinedVariable hn)

/-- Looking up a variable gives the number that the second expression spells out. -/
theorem corresponds_inlined {f : FrameId} {n : String} {v : Float} (hn : constant? n = none)
    (h : ∀ {s t}, σ.stores w s t → s.lookup f n = some (.number v)) :
    Corresponds σ w σ.Values (evalVariable f n) (Pure.pure (.number v)) := by
  intro s t hst
  unfold evalVariable
  rw [hn]
  dsimp only
  rw [Run.on_store_bind, h hst.stores]
  exact .ok (hσ.refl w) hst (.number v)

/-- Names that correspond have functions that correspond. -/
theorem corresponds_findFunction {f f' : FrameId} {n n' : String} (hn : σ.names w f f' n n') :
    Corresponds σ w σ.closures (findFunction f n) (findFunction f' n') := by
  unfold findFunction
  refine .store_bind fun s t hst => ?_
  have hlookup := hσ.lookup hst hn
  generalize s.lookup f n = found at hlookup
  generalize t.lookup f' n' = found' at hlookup
  cases hlookup with
  | none => exact .throw hσ (hσ.unknownFunction hn)
  | some hv =>
    cases hv with
    | number x => exact .throw hσ (hσ.unknownFunction hn)
    | closure hc => exact .pure hσ hc

/-- Functions that correspond are made of expressions that do. -/
theorem corresponds_evalLambda {f f' : FrameId} {params params' : List String} {body body' : Expr}
    (hparams : List.Forall₂ SameOrFree params params')
    (h : σ.exprs w f f' (.lambda params body) (.lambda params' body')) :
    Corresponds σ w σ.Values (evalLambda f params body) (evalLambda f' params' body') := by
  unfold evalLambda
  refine (corresponds_ensureFree_all hσ hparams).bind hσ fun _ _ w₁ hw₁ _ => ?_
  refine Corresponds.bind hσ (Q := σ.closures) ?_ fun c c' w₂ _ hc => .pure hσ (.closure hc)
  intro s t hst
  obtain ⟨w₂, hw₂, hmade, hc⟩ := hσ.made hst.stores (hσ.exprs_later hw₁ h)
  rw [Run.on_add, Run.on_add]
  exact .ok hw₂ ⟨hmade, hst.printed⟩ hc

/-! ## Expressions -/

omit hσ in
/-- Calls by names that correspond, of closures and with values that do, do the same. -/
def Caller.Corresponds (σ : Correspondence World) (call call' : Caller) : Prop :=
  ∀ {w f f' n n' c c' args args'}, σ.names w f f' n n' → σ.closures w c c' →
    List.Forall₂ (σ.Values w) args args' →
    Run.Corresponds σ w σ.Values (call c args (some n)) (call' c' args' (some n'))

variable {call call' : Caller} {traced : Bool}

mutual

/-- Expressions that correspond evaluate to values that do, if calls correspond. -/
theorem Expr.eval_corresponds (hcall : Caller.Corresponds σ call call') : (x : Expr) →
    {x' : Expr} → {w : World} → {f f' : FrameId} → σ.exprs w f f' x x' →
    Corresponds σ w σ.Values (x.eval call traced f) (x'.eval call' traced f')
  | .number x, _, _, _, _, h => by
    cases (hσ.expr h).resolve_left (by rintro ⟨⟩)
    unfold eval
    exact .pure hσ (Correspondence.Values.number x)
  | .var _, _, _, _, _, h => by
    -- A name is the only expression that may stand for a value in the other run.
    rcases hσ.expr h with ⟨hn, hv⟩ | hmatch
    · unfold eval
      exact corresponds_inlined hσ hn hv
    · cases hmatch with
      | var hn =>
        unfold eval
        exact corresponds_evalVariable hσ hn
  | .unary op x, _, _, _, _, h => by
    cases (hσ.expr h).resolve_left (by rintro ⟨⟩) with
    | unary hx =>
      unfold eval
      refine (Expr.eval_corresponds hcall x hx).bind hσ fun v v' w₁ _ hv => ?_
      refine (corresponds_toNumber hσ _ hv).bind hσ fun a b w₂ _ hab => ?_
      rw [hab]
      exact .pure hσ (.number _)
  | .binary op x y, _, _, _, _, h => by
    cases (hσ.expr h).resolve_left (by rintro ⟨⟩) with
    | binary hx hy =>
      unfold eval
      refine (Expr.eval_corresponds hcall x hx).bind hσ fun v v' w₁ hw₁ hv => ?_
      refine (corresponds_toNumber hσ _ hv).bind hσ fun a b w₂ hw₂ hab => ?_
      rw [hab]
      split
      · exact .pure hσ (.number _)
      · -- The expressions are still to correspond in the world behind the first operand.
        have hy₂ := hσ.exprs_later (hσ.trans hw₁ hw₂) hy
        refine (Expr.eval_corresponds hcall y hy₂).bind hσ fun u u' w₃ _ hu => ?_
        refine (corresponds_toNumber hσ _ hu).bind hσ fun d d' w₄ _ hd => ?_
        rw [hd]
        refine (corresponds_ofEval hσ _).bind hσ fun z z' w₅ _ hz => ?_
        rw [hz]
        exact .pure hσ (.number z')
  | .conditional c t e, _, _, _, _, h => by
    cases (hσ.expr h).resolve_left (by rintro ⟨⟩) with
    | conditional hc ht he =>
      unfold eval
      refine (Expr.eval_corresponds hcall c hc).bind hσ fun v v' w₁ hw₁ hv => ?_
      refine (corresponds_toNumber hσ _ hv).bind hσ fun a b w₂ hw₂ hab => ?_
      have hw := hσ.trans hw₁ hw₂
      rw [hab]
      split
      · exact Expr.eval_corresponds hcall t (hσ.exprs_later hw ht)
      · exact Expr.eval_corresponds hcall e (hσ.exprs_later hw he)
  | .call name args, _, _, f, f', h => by
    cases (hσ.expr h).resolve_left (by rintro ⟨⟩) with
    | @call _ name' _ args' hn hargs =>
      unfold eval
      cases hb : Builtin.ofName? name with
      | some b =>
        -- A built-in function is called by the same name in both runs.
        rw [(hσ.free hn).eq_of_builtin hb, hb]
        refine (Expr.evalNumbers_corresponds hcall name args hargs).bind hσ
          fun xs xs' w₁ _ hxs => ?_
        rw [hxs]
        refine (Corresponds.note hσ _ _ _ _).bind hσ fun _ _ w₂ _ _ => ?_
        refine (corresponds_builtin hσ _ _).bind hσ fun z z' w₃ _ hz => ?_
        rw [hz]
        exact .pure hσ (.number z')
      | none =>
        rw [(hσ.free hn).builtin_eq_none hb]
        refine (corresponds_findFunction hσ hn).bind hσ fun c c' w₁ hw₁ hc => ?_
        have hargs₁ := hargs.imp fun _ _ => hσ.exprs_later hw₁
        refine (Expr.evalList_corresponds hcall args hargs₁).bind hσ fun vs vs' w₂ hw₂ hvs => ?_
        exact hcall (hσ.names_later (hσ.trans hw₁ hw₂) hn) (hσ.closures_later hw₂ hc) hvs
  | .lambda params body, _, _, _, _, h => by
    cases (hσ.expr h).resolve_left (by rintro ⟨⟩) with
    | lambda hparams =>
      unfold eval
      exact corresponds_evalLambda hσ hparams h

/-- Lists of expressions evaluate to lists of values that correspond. -/
theorem Expr.evalList_corresponds (hcall : Caller.Corresponds σ call call') :
    (xs : List Expr) → {xs' : List Expr} → {w : World} → {f f' : FrameId} →
    List.Forall₂ (σ.exprs w f f') xs xs' →
    Corresponds σ w (fun w => List.Forall₂ (σ.Values w)) (Expr.evalList call traced f xs)
      (Expr.evalList call' traced f' xs')
  | [], _, _, _, _, .nil => by
    unfold evalList
    exact .pure hσ .nil
  | x :: xs, _, _, _, _, .cons hx hxs => by
    unfold evalList
    refine (Expr.eval_corresponds hcall x hx).bind hσ fun v v' w₁ hw₁ hv => ?_
    have hxs₁ := hxs.imp fun _ _ => hσ.exprs_later hw₁
    refine (Expr.evalList_corresponds hcall xs hxs₁).bind hσ fun vs vs' w₂ hw₂ hvs => ?_
    exact .pure hσ (.cons (hv.of_later hσ hw₂) hvs)

/-- Lists of expressions that must be numbers evaluate to the same numbers. -/
theorem Expr.evalNumbers_corresponds (hcall : Caller.Corresponds σ call call') (place : String) :
    (xs : List Expr) → {xs' : List Expr} → {w : World} → {f f' : FrameId} →
    List.Forall₂ (σ.exprs w f f') xs xs' →
    Corresponds σ w (fun _ as bs => as = bs) (Expr.evalNumbers call traced f place xs)
      (Expr.evalNumbers call' traced f' place xs')
  | [], _, _, _, _, .nil => by
    unfold evalNumbers
    exact .pure hσ rfl
  | x :: xs, _, _, _, _, .cons hx hxs => by
    unfold evalNumbers
    refine (Expr.eval_corresponds hcall x hx).bind hσ fun v v' w₁ hw₁ hv => ?_
    refine (corresponds_toNumber hσ place hv).bind hσ fun a b w₂ hw₂ hab => ?_
    have hxs₂ := hxs.imp fun _ _ => hσ.exprs_later (hσ.trans hw₁ hw₂)
    refine (Expr.evalNumbers_corresponds hcall place xs hxs₂).bind hσ fun as bs w₃ _ has => ?_
    exact .pure hσ (by rw [hab, has])

end

/-! ## Calls -/

/-- With a wrong number of arguments, closures that correspond fail alike. -/
theorem ends_of_arity_ne {limit : Nat} {f f' : FrameId} {n n' : String} {c c' : ClosureId}
    {args args' : List Value} {s t : State} (h : σ.States w s t) (hn : σ.names w f f' n n')
    (hc : σ.closures w c c') (hargs : args.length = args'.length)
    (harity : args.length ≠ (s.store.closure c).arity) :
    σ.Ends w σ.Values ((callClosure traced limit c args (some n)).on s)
      ((callClosure traced limit c' args' (some n')).on t) := by
  have harity' := hσ.arity h.stores hc
  rw [on_callClosure_arity harity, on_callClosure_arity (by rwa [harity', ← hargs]), harity', hargs]
  exact .error (hσ.arityMismatch _ _ h.stores hc hn) (hσ.refl w) h

/-- Calls of any depth do the same: the bodies correspond in the frames that are opened. -/
theorem callClosure_corresponds (limit : Nat) :
    Caller.Corresponds σ (callClosure traced limit) (callClosure traced limit) := by
  induction limit with
  | zero =>
    intro w f f' n n' c c' args args' hn hc hargs s t h
    have harity' := hσ.arity h.stores hc
    by_cases harity : args.length = (s.store.closure c).arity
    · rw [on_callClosure_zero harity,
        on_callClosure_zero (by rw [harity', ← harity, hargs.length_eq])]
      exact .error (hσ.faults_refl _) (hσ.refl w) h
    · exact ends_of_arity_ne hσ h hn hc hargs.length_eq harity
  | succ limit ih =>
    intro w f f' n n' c c' args args' hn hc hargs s t h
    have harity' := hσ.arity h.stores hc
    by_cases harity : args.length = (s.store.closure c).arity
    · rw [on_callClosure_succ harity,
        on_callClosure_succ (by rw [harity', ← harity, hargs.length_eq])]
      unfold openCall
      rw [bind_assoc, bind_assoc]
      obtain ⟨w₁, hw₁, hopened, hbody⟩ := hσ.opened h.stores hc hargs harity
      rw [Run.on_bind_ok (Run.on_add _ s), Run.on_bind_ok (Run.on_add _ t)]
      refine Correspondence.Ends.of_later hσ hw₁ ?_
      simp only [bind_assoc, pure_bind]
      refine ((Corresponds.note hσ _ _ _ _).bind hσ fun _ _ w₂ hw₂ _ => ?_) _ _
        (⟨hopened, h.printed⟩ : σ.States w₁ ⟨_, s.log⟩ ⟨_, t.log⟩)
      exact Expr.eval_corresponds hσ ih _ (hσ.exprs_later hw₂ hbody)
    · exact ends_of_arity_ne hσ h hn hc hargs.length_eq harity

/-- The same with the calls as they are. -/
theorem Settings.eval_corresponds (set : Settings) {f f' : FrameId} {x x' : Expr}
    (hx : σ.exprs w f f' x x') : Corresponds σ w σ.Values (set.eval f x) (set.eval f' x') :=
  Expr.eval_corresponds hσ (callClosure_corresponds hσ set.limit) x hx

end

/-! ## Statements and programs -/

namespace Correspondence

variable {World : Type} (σ : Correspondence World)

/-- What must hold of a correspondence so that statements may be evaluated in the root frame, which
assign to names of which `target` holds. -/
structure Assigns (target : String → Prop) : Prop where
  nameClosure : ∀ {w s t c c'} name, σ.stores w s t → σ.closures w c c' →
    σ.stores w (s.nameClosure c name) (t.nameClosure c' name)
  bind : ∀ {w s t name v v'}, target name → σ.stores w s t → σ.Values w v v' →
    σ.stores w (s.bind Store.root name v) (t.bind Store.root name v')
  asResult : ∀ {w s t c c'}, σ.stores w s t → σ.closures w c c' →
    σ.faults (.eval (.functionAsResult (s.closure c).shown (s.closure c).name))
      (.eval (.functionAsResult (t.closure c').shown (t.closure c').name))

/-- The statements are both assignments to one name or both expressions, for values that
correspond. -/
inductive Stmts (target : String → Prop) (w : World) : Stmt → Stmt → Prop
  | assign {name : String} {x x' : Expr} (hname : target name)
      (hx : σ.exprs w Store.root Store.root x x') :
      Stmts target w (.assign name x) (.assign name x')
  | expr {x x' : Expr} (hx : σ.exprs w Store.root Store.root x x') :
      Stmts target w (.expr x) (.expr x')

variable {σ} (hσ : σ.Lawful) {target : String → Prop} {w w' : World}

include hσ in
/-- Statements correspond in later worlds too. -/
theorem Stmts.of_later {stmt stmt' : Stmt} (hw : σ.later w w') (h : σ.Stmts target w stmt stmt') :
    σ.Stmts target w' stmt stmt' := by
  cases h with
  | assign hname hx => exact .assign hname (hσ.exprs_later hw hx)
  | expr hx => exact .expr (hσ.exprs_later hw hx)

/-- What becomes of the results so far. -/
theorem Stmts.nextResult {stmt stmt' : Stmt} {result result' v v' : Value}
    (h : σ.Stmts target w stmt stmt') (hresult : σ.Values w result result')
    (hv : σ.Values w v v') :
    σ.Values w (nextResult result stmt v) (Abacus.nextResult result' stmt' v') := by
  cases h with
  | expr => exact hv
  | assign =>
    cases hv with
    | number x => exact .number x
    | closure => exact hresult

end Correspondence

/-- The result of a program whose statements have the given result. -/
def Run.ofResult : Value → Run Float
  | .number x => pure x
  | .closure c => do
    let closure := (← Run.store).closure c
    Run.fail (.functionAsResult closure.shown closure.name)

theorem Settings.evalProgram_eq (set : Settings) (f : FrameId) (p : Program) :
    set.evalProgram f p = set.evalStmts f 0 (.number 0) p.statements >>= Run.ofResult := rfl

section

variable {World : Type} {σ : Correspondence World} (hσ : σ.Lawful) {w : World}
  {target : String → Prop} (hA : σ.Assigns target)

open Run (Corresponds)

include hσ hA

omit hσ in
/-- Naming values that correspond keeps the stores so. -/
theorem corresponds_nameValue (hσ : σ.Lawful) (name : String) {v v' : Value}
    (h : σ.Values w v v') :
    Corresponds σ w (fun _ _ _ => True) (nameValue name v) (nameValue name v') := by
  cases h with
  | number x => exact .pure hσ trivial
  | closure hc => exact .update hσ fun s t hst => hA.nameClosure name hst hc

/-- Statements that correspond have results that do. -/
theorem Settings.evalStmt_corresponds (set : Settings) {stmt stmt' : Stmt}
    (h : σ.Stmts target w stmt stmt') :
    Corresponds σ w σ.Values (set.evalStmt Store.root stmt) (set.evalStmt Store.root stmt') := by
  cases h with
  | expr hx => exact Settings.eval_corresponds hσ set hx
  | @assign name x x' hname hx =>
    unfold Settings.evalStmt
    refine (Settings.eval_corresponds hσ set hx).bind hσ fun v v' w₁ _ hv => ?_
    refine (corresponds_ensureFree hσ (.inl rfl)).bind hσ fun _ _ w₂ hw₂ _ => ?_
    have hv₂ := hv.of_later hσ hw₂
    refine (corresponds_nameValue hA hσ name hv₂).bind hσ fun _ _ w₃ hw₃ _ => ?_
    refine (Corresponds.note hσ _ _ _ _).bind hσ fun _ _ w₄ hw₄ _ => ?_
    have hv₄ := (hv₂.of_later hσ hw₃).of_later hσ hw₄
    refine Corresponds.bind hσ (.update hσ fun s t hst => hA.bind hname hst hv₄)
      fun _ _ w₅ hw₅ _ => .pure hσ (hv₄.of_later hσ hw₅)

/-- Statements in a row that correspond have results that do. -/
theorem Settings.evalStmts_corresponds (set : Settings) {ss ss' : List Stmt}
    (h : List.Forall₂ (σ.Stmts target w) ss ss') {result result' : Value}
    (hresult : σ.Values w result result') (index : Nat) :
    Corresponds σ w σ.Values (set.evalStmts Store.root index result ss)
      (set.evalStmts Store.root index result' ss') := by
  induction ss generalizing ss' w index result result' with
  | nil =>
    cases h
    exact .pure hσ hresult
  | cons stmt ss ih =>
    cases h with
    | @cons _ stmt' _ ss' hstmt hss =>
      unfold Settings.evalStmts
      refine (Corresponds.note hσ _ _ _ _).bind hσ fun _ _ w₁ hw₁ _ => ?_
      refine (Settings.evalStmt_corresponds hσ hA set (hstmt.of_later hσ hw₁)).bind hσ
        fun v v' w₂ hw₂ hv => ?_
      have hw := hσ.trans hw₁ hw₂
      exact ih (hss.imp fun _ _ hs => hs.of_later hσ hw)
        ((hstmt.of_later hσ hw).nextResult (hresult.of_later hσ hw) hv) _

theorem corresponds_ofResult {v v' : Value} (h : σ.Values w v v') :
    Corresponds σ w (fun _ a b => a = b) (Run.ofResult v) (Run.ofResult v') := by
  cases h with
  | number x => exact .pure hσ rfl
  | closure hc => exact .store_bind fun s t hst => .throw hσ (hA.asResult hst hc)

/-- Programs whose statements correspond do the same. -/
theorem Settings.evalProgram_corresponds (set : Settings) {p p' : Program}
    (h : List.Forall₂ (σ.Stmts target w) p.statements p'.statements) :
    Corresponds σ w (fun _ a b => a = b) (set.evalProgram Store.root p)
      (set.evalProgram Store.root p') := by
  rw [Settings.evalProgram_eq, Settings.evalProgram_eq]
  exact (Settings.evalStmts_corresponds hσ hA set h (.number 0) 0).bind hσ
    fun _ _ _ _ hv => corresponds_ofResult hσ hA hv

end

end Abacus
