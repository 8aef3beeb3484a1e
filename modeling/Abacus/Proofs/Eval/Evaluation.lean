import Abacus.Eval.Evaluator
import Abacus.Proofs.Eval.Policy
import Abacus.Proofs.Eval.Sites

/-!
# Policies of the evaluator

An evaluation changes a state in five ways: it writes to the log, makes a closure, opens a frame for
a call, names a closure, and binds a name. A policy that allows these steps is kept to by every
evaluation, of whatever depth and however it ends.

* `Policy.Guides` lists the first three, for expressions that are ready to be evaluated in a frame,
  and with them `callClosure_guided` and `Settings.eval_guided` follow for calls and expressions: an
  induction on how deep calls may still be nested, and for each depth one on the expression. Every
  site that such an evaluation comes to is ready in its turn (`Site.ready_of_reach`).
* `Policy.Evaluates` is the case in which every expression is ready in a frame if one is.
* `Policy.Assigns` adds the last two, for statements and programs (`Settings.evalProgram_guided`).
-/

namespace Abacus

/-! ## The steps of an evaluation -/

namespace State

/-- Writes to the log. -/
def write (s : State) (e : Emission) : State := { s with log := s.log.push e }

/-- Opens a frame. -/
def openFrame (s : State) (frame : Frame) : State :=
  { s with store := { s.store with frames := s.store.frames.push frame } }

/-- Makes a closure. -/
def makeClosure (s : State) (c : Closure) : State :=
  { s with store := { s.store with closures := s.store.closures.push c } }

/-- Names a closure that has no name yet. -/
def nameClosure (s : State) (c : ClosureId) (name : String) : State :=
  { s with store := s.store.nameClosure c name }

/-- Binds a name in a frame. -/
def bind (s : State) (f : FrameId) (name : String) (v : Value) : State :=
  { s with store := s.store.bind f name v }

end State

/-- The expressions that evaluating an expression may come to in the same frame. -/
def Expr.parts : Expr → List Expr
  | .number _ | .var _ | .lambda _ _ => []
  | .unary _ x => [x]
  | .binary _ x y => [x, y]
  | .conditional c t e => [c, t, e]
  | .call _ args => args

/-- What a policy must allow so that every evaluation of an expression that is ready for it keeps to
it: `valid` holds of the values at hand, `ready` of a frame and an expression that is evaluated in
it. -/
structure Policy.Guides (P : Policy) (valid : State → Value → Prop)
    (ready : State → FrameId → Expr → Prop) : Prop where
  valid_of_allows : ∀ {s s' v}, P.allows s s' → valid s v → valid s' v
  ready_of_allows : ∀ {s s' f x}, P.allows s s' → ready s f x → ready s' f x
  ready_part : ∀ {s f x y}, ready s f x → y ∈ x.parts → ready s f y
  number : ∀ s x, valid s (.number x)
  lookup : ∀ {s f x name v}, P.holds s → ready s f x → s.store.lookup f name = some v → valid s v
  write : ∀ {s} e, P.holds s → P.holds (s.write e) ∧ P.allows s (s.write e)
  makeClosure : ∀ {s f params body}, P.holds s → ready s f (.lambda params body) →
    (∀ p ∈ params, reservedKind? p = none) →
    P.holds (s.makeClosure ⟨params, body, f, none⟩) ∧
      P.allows s (s.makeClosure ⟨params, body, f, none⟩) ∧
      valid (s.makeClosure ⟨params, body, f, none⟩) (.closure s.store.closures.size)
  openFrame : ∀ {s c args}, P.holds s → valid s (.closure c) → (∀ v ∈ args, valid s v) →
    args.length = (s.store.closure c).arity →
    let frame : Frame := ⟨.ofList ((s.store.closure c).params.zip args),
      some (s.store.closure c).frame⟩
    P.holds (s.openFrame frame) ∧ P.allows s (s.openFrame frame) ∧
      ready (s.openFrame frame) s.store.frames.size (s.store.closure c).body

section Guides

variable {P : Policy} {valid : State → Value → Prop} {ready : State → FrameId → Expr → Prop}
  {s : State} {f : FrameId}

open Run (Obeys)

/-! ## Runs of a few steps -/

/-- Only a name that is not reserved is let through. -/
theorem obeys_ensureFree {name : String} (hs : P.holds s) :
    (Run.ensureFree name).Obeys P (fun _ _ => reservedKind? name = none) s := by
  unfold Run.ensureFree
  split
  · exact .fail hs
  · rename_i h
    exact .pure hs h

theorem obeys_ensureFree_all (params : List String) (hs : P.holds s) :
    (params.forM Run.ensureFree).Obeys P (fun _ _ => ∀ p ∈ params, reservedKind? p = none) s := by
  induction params generalizing s with
  | nil => exact .pure hs fun p hp => by cases hp
  | cons p ps ih =>
    refine (obeys_ensureFree hs).bind fun _ s₁ hs₁ _ hp => (ih hs₁).imp fun _ _ _ _ hps => ?_
    exact List.forall_mem_cons.mpr ⟨hp, hps⟩

/-- Taking a value for a number changes nothing. -/
theorem obeys_toNumber {place : String} {v : Value} (hs : P.holds s) :
    (Run.toNumber place v).Obeys P (fun _ _ => True) s := by
  cases v with
  | number x => exact .pure hs trivial
  | closure c => exact .store_bind (.fail hs)

theorem obeys_ofEval {α : Type} {r : Except EvalError α} (hs : P.holds s) :
    (Run.ofEval r).Obeys P (fun _ _ => True) s := by
  cases r with
  | ok a => exact .pure hs trivial
  | error e => exact .fail hs

variable (hP : P.Guides valid ready)
include hP

theorem obeys_emit {e : Emission} (hs : P.holds s) : (Run.emit e).Obeys P (fun _ _ => True) s :=
  .of_on (Run.on_emit e s) (hP.write e hs).1 (hP.write e hs).2 fun _ _ => trivial

/-- A note keeps to the policy, which allows to write. -/
theorem obeys_note {traced : Bool} {line : Store → String} (hs : P.holds s) :
    (Run.note traced line).Obeys P (fun _ _ => True) s := by
  unfold Run.note
  split
  · exact .store_bind (obeys_emit hP hs)
  · exact .pure hs trivial

/-- A built-in function keeps to the policy, which allows to print. -/
theorem obeys_builtin {b : Builtin} {args : List Float} (hs : P.holds s) :
    (Run.builtin b args).Obeys P (fun _ _ => True) s := by
  unfold Run.builtin
  split
  · exact .throw hs
  · dsimp only
    split
    · exact (obeys_emit hP hs).bind fun _ s₁ hs₁ _ _ => .pure hs₁ trivial
    · exact .pure hs trivial

/-- A name that is ready is looked up and gives a valid value. -/
theorem obeys_evalVariable {x : Expr} {name : String} (hs : P.holds s) (hx : ready s f x) :
    (evalVariable f name).Obeys P valid s := by
  unfold evalVariable
  split
  · exact .pure hs (hP.number s _)
  · refine .store_bind ?_
    split
    · rename_i v hv
      exact .pure hs (hP.lookup hs hx hv)
    · exact .fail hs

/-- A name that is ready is looked up and gives a valid function. -/
theorem obeys_findFunction {x : Expr} {name : String} (hs : P.holds s) (hx : ready s f x) :
    (findFunction f name).Obeys P (fun s c => valid s (.closure c)) s := by
  unfold findFunction
  refine .store_bind ?_
  split
  · rename_i c hc
    exact .pure hs (hP.lookup hs hx hc)
  · exact .fail hs

/-- A function that is ready to be made is added to the store. -/
theorem obeys_evalLambda {params : List String} {body : Expr} (hs : P.holds s)
    (hx : ready s f (.lambda params body)) : (evalLambda f params body).Obeys P valid s := by
  unfold evalLambda
  refine (obeys_ensureFree_all params hs).bind fun _ s₁ hs₁ hss₁ hparams => ?_
  obtain ⟨hs₂, hss₂, hv⟩ := hP.makeClosure hs₁ (hP.ready_of_allows hss₁ hx) hparams
  refine Obeys.bind (Q := fun s c => valid s (.closure c)) ?_ fun c s₃ hs₃ _ hc => .pure hs₃ hc
  exact .of_on (Run.on_add _ s₁) hs₂ hss₂ fun c hc => by cases hc; exact hv

/-- Opening a call with valid arguments makes the body ready. -/
theorem obeys_openCall {traced : Bool} {c : ClosureId} {args : List Value} {label : String}
    (hs : P.holds s) (hc : valid s (.closure c)) (hargs : ∀ v ∈ args, valid s v)
    (harity : args.length = (s.store.closure c).arity) :
    (openCall traced (s.store.closure c) args label).Obeys P
      (fun s' g => ready s' g (s.store.closure c).body) s := by
  obtain ⟨hs₁, hss₁, hready⟩ := hP.openFrame hs hc hargs harity
  unfold openCall
  refine Obeys.bind (Q := fun s' g => ready s' g (s.store.closure c).body) ?_
    fun g s₂ hs₂ _ hg => ?_
  · exact .of_on (Run.on_add _ s) hs₁ hss₁ fun g hg => by cases hg; exact hready
  · exact (obeys_note hP hs₂).bind fun _ s₃ hs₃ hss₃ _ => .pure hs₃ (hP.ready_of_allows hss₃ hg)

/-! ## Expressions -/

/-- Called from any state that the policy holds of, with values that are valid there, a closure
keeps to the policy. -/
def Caller.Obeys (call : Caller) (P : Policy) (valid : State → Value → Prop) : Prop :=
  ∀ {s c args name}, P.holds s → valid s (.closure c) → (∀ v ∈ args, valid s v) →
    (call c args name).Obeys P valid s

variable {call : Caller} {traced : Bool}

mutual

/-- An expression that is ready is evaluated by the policy and gives a valid value, if calls do so.
-/
theorem Expr.eval_guided (hcall : Caller.Obeys call P valid) : (x : Expr) → {s : State} →
    {f : FrameId} → P.holds s → ready s f x → (x.eval call traced f).Obeys P valid s
  | .number x, s, _, hs, _ => by
    unfold eval
    exact .pure hs (hP.number s x)
  | .var _, _, _, hs, hx => by
    unfold eval
    exact obeys_evalVariable hP hs hx
  | .unary _ x, _, _, hs, hx => by
    unfold eval
    have hpart := hP.ready_part hx (List.mem_singleton_self x)
    refine (Expr.eval_guided hcall x hs hpart).bind fun v s₁ hs₁ _ _ => ?_
    exact (obeys_toNumber hs₁).bind fun a s₂ hs₂ _ _ => .pure hs₂ (hP.number s₂ _)
  | .binary _ x y, _, _, hs, hx => by
    unfold eval
    have hleft := hP.ready_part (y := x) hx (by simp [parts])
    have hright := hP.ready_part (y := y) hx (by simp [parts])
    refine (Expr.eval_guided hcall x hs hleft).bind fun v s₁ hs₁ hss₁ _ => ?_
    refine (obeys_toNumber hs₁).bind fun a s₂ hs₂ hss₂ _ => ?_
    split
    · exact .pure hs₂ (hP.number s₂ _)
    · -- What was ready stays so while the first operand is evaluated.
      have hright₂ := hP.ready_of_allows (P.trans hss₁ hss₂) hright
      refine (Expr.eval_guided hcall y hs₂ hright₂).bind fun w s₃ hs₃ _ _ => ?_
      refine (obeys_toNumber hs₃).bind fun b s₄ hs₄ _ _ => ?_
      exact (obeys_ofEval hs₄).bind fun z s₅ hs₅ _ _ => .pure hs₅ (hP.number s₅ z)
  | .conditional c t e, _, _, hs, hx => by
    unfold eval
    have hcond := hP.ready_part (y := c) hx (by simp [parts])
    have hthen := hP.ready_part (y := t) hx (by simp [parts])
    have helse := hP.ready_part (y := e) hx (by simp [parts])
    refine (Expr.eval_guided hcall c hs hcond).bind fun v s₁ hs₁ hss₁ _ => ?_
    refine (obeys_toNumber hs₁).bind fun a s₂ hs₂ hss₂ _ => ?_
    have hss := P.trans hss₁ hss₂
    split
    · exact Expr.eval_guided hcall t hs₂ (hP.ready_of_allows hss hthen)
    · exact Expr.eval_guided hcall e hs₂ (hP.ready_of_allows hss helse)
  | .call name args, _, _, hs, hx => by
    unfold eval
    -- The arguments are parts of the call, each ready where the call is.
    have hargs := fun y hy => hP.ready_part (y := y) hx hy
    split
    · refine (Expr.evalNumbers_guided hcall args hs hargs).bind fun xs s₁ hs₁ _ _ => ?_
      refine (obeys_note hP hs₁).bind fun _ s₂ hs₂ _ _ => ?_
      exact (obeys_builtin hP hs₂).bind fun z s₃ hs₃ _ _ => .pure hs₃ (hP.number s₃ z)
    · refine (obeys_findFunction hP hs hx).bind fun c s₁ hs₁ hss₁ hc => ?_
      have hargs₁ := fun y hy => hP.ready_of_allows hss₁ (hargs y hy)
      refine (Expr.evalList_guided hcall args hs₁ hargs₁).bind fun vs s₂ hs₂ hss₂ hvs => ?_
      exact hcall hs₂ (hP.valid_of_allows hss₂ hc) hvs
  | .lambda _ _, _, _, hs, hx => by
    unfold eval
    exact obeys_evalLambda hP hs hx

/-- Expressions that are ready are evaluated by the policy and give valid values. -/
theorem Expr.evalList_guided (hcall : Caller.Obeys call P valid) : (xs : List Expr) →
    {s : State} → {f : FrameId} → P.holds s → (∀ x ∈ xs, ready s f x) →
    (Expr.evalList call traced f xs).Obeys P (fun s vs => ∀ v ∈ vs, valid s v) s
  | [], _, _, hs, _ => by
    unfold evalList
    exact .pure hs fun v hv => by cases hv
  | x :: xs, _, _, hs, hxs => by
    obtain ⟨hx, hxs⟩ := List.forall_mem_cons.mp hxs
    unfold evalList
    refine (Expr.eval_guided hcall x hs hx).bind fun v s₁ hs₁ hss₁ hv => ?_
    have hxs₁ := fun y hy => hP.ready_of_allows hss₁ (hxs y hy)
    refine (Expr.evalList_guided hcall xs hs₁ hxs₁).bind fun vs s₂ hs₂ hss₂ hvs => ?_
    exact .pure hs₂ (List.forall_mem_cons.mpr ⟨hP.valid_of_allows hss₂ hv, hvs⟩)

/-- The same where the values must be numbers. -/
theorem Expr.evalNumbers_guided (hcall : Caller.Obeys call P valid) : (xs : List Expr) →
    {s : State} → {f : FrameId} → {place : String} → P.holds s → (∀ x ∈ xs, ready s f x) →
    (Expr.evalNumbers call traced f place xs).Obeys P (fun _ _ => True) s
  | [], _, _, _, hs, _ => by
    unfold evalNumbers
    exact .pure hs trivial
  | x :: xs, _, _, _, hs, hxs => by
    obtain ⟨hx, hxs⟩ := List.forall_mem_cons.mp hxs
    unfold evalNumbers
    refine (Expr.eval_guided hcall x hs hx).bind fun v s₁ hs₁ hss₁ _ => ?_
    refine (obeys_toNumber hs₁).bind fun a s₂ hs₂ hss₂ _ => ?_
    have hxs₂ := fun y hy => hP.ready_of_allows (P.trans hss₁ hss₂) (hxs y hy)
    refine (Expr.evalNumbers_guided hcall xs hs₂ hxs₂).bind fun as s₃ hs₃ _ _ => ?_
    exact .pure hs₃ trivial

end

/-! ## Calls -/

/-- A call of any depth keeps to the policy: what it does before its body is evaluated is to look at
the closure, open a frame and write to the log. -/
theorem callClosure_guided (traced : Bool) (limit : Nat) :
    Caller.Obeys (callClosure traced limit) P valid := by
  induction limit with
  | zero =>
    intro s c args name hs _ _
    by_cases harity : args.length = (s.store.closure c).arity
    · exact .of_on_same (on_callClosure_zero harity) hs fun v hv => by cases hv
    · exact .of_on_same (on_callClosure_arity harity) hs fun v hv => by cases hv
  | succ limit ih =>
    intro s c args name hs hc hargs
    by_cases harity : args.length = (s.store.closure c).arity
    · refine Obeys.of_on_eq (on_callClosure_succ harity) ?_
      refine (obeys_openCall hP hs hc hargs harity).bind fun g s₁ hs₁ _ hbody => ?_
      exact Expr.eval_guided hP ih _ hs₁ hbody
    · exact .of_on_same (on_callClosure_arity harity) hs fun v hv => by cases hv

/-- The same with the calls as they are, however deep they are nested. -/
theorem Settings.eval_guided (set : Settings) (x : Expr) (hs : P.holds s) (hx : ready s f x) :
    (set.eval f x).Obeys P valid s :=
  Expr.eval_guided hP (callClosure_guided hP set.traceRun set.limit) x hs hx

/-! ## Sites -/

namespace Site

/-- The policy holds at the site, whose expression is ready. -/
def Ready (P : Policy) (ready : State → FrameId → Expr → Prop) (p : Site) : Prop :=
  P.holds p.state ∧ ready p.state p.frame p.expr

/-- What comes out at a site that is ready is allowed by the policy. -/
theorem Ready.outcome {p : Site} {r : Except Fault Value} {t : State} (h : p.Ready P ready)
    (hp : p.outcome traced = (r, t)) : P.holds t ∧ P.allows p.state t := by
  have hrun : (p.expr.eval (callClosure traced p.limit) traced p.frame).Obeys P valid p.state :=
    Expr.eval_guided hP (callClosure_guided hP traced p.limit) p.expr h.1 h.2
  obtain ⟨ht, hpt, -⟩ := hrun.on hp
  exact ⟨ht, hpt⟩

/-- The parts of an expression are ready, also in a later state. -/
theorem Ready.part {l : Nat} {x y : Expr} {t : State} (h : Ready P ready ⟨l, x, f, s⟩)
    (hy : y ∈ x.parts) (ht : P.holds t) (hst : P.allows s t) : Ready P ready ⟨l, y, f, t⟩ :=
  ⟨ht, hP.ready_of_allows hst (hP.ready_part h.2 hy)⟩

/-- An operand is evaluated where it is ready. -/
theorem ready_of_operand {p q : Site} {place : String} (h : Operand traced p place q)
    (hp : p.Ready P ready) : q.Ready P ready := by
  cases h with
  | unary => exact hp.part hP (by simp [Expr.parts]) hp.1 (P.refl _)
  | left => exact hp.part hP (by simp [Expr.parts]) hp.1 (P.refl _)
  | condition => exact hp.part hP (by simp [Expr.parts]) hp.1 (P.refl _)
  | @right l f s op x y a t hx _ =>
    have hleft : Ready P ready ⟨l, x, f, s⟩ :=
      hp.part hP (by simp [Expr.parts]) hp.1 (P.refl _)
    obtain ⟨ht, hst⟩ := hleft.outcome hP hx
    exact hp.part hP (by simp [Expr.parts]) ht hst
  | @argument l f s name b before x after as t _ hbefore =>
    have hready : ∀ y ∈ before, ready s f y := fun y hy =>
      hP.ready_part hp.2 (List.mem_append_left _ hy)
    obtain ⟨ht, hst, -⟩ := (Expr.evalNumbers_guided hP (callClosure_guided hP traced l) before
      hp.1 hready).on hbefore
    exact hp.part hP (by simp [Expr.parts]) ht hst

/-- From a site that is ready, evaluation comes to sites that are ready. -/
theorem ready_of_next {p q : Site} (h : Next traced p q) (hp : p.Ready P ready) :
    q.Ready P ready := by
  cases h with
  | operand h => exact ready_of_operand hP h hp
  | @branch l f s c x y a t hc =>
    have hcond : Ready P ready ⟨l, c, f, s⟩ :=
      hp.part hP (by simp [Expr.parts]) hp.1 (P.refl _)
    obtain ⟨ht, hst⟩ := hcond.outcome hP hc
    refine hp.part hP ?_ ht hst
    split <;> simp [Expr.parts]
  | @argument l f s name c before x after vs t _ _ hbefore =>
    have hready : ∀ y ∈ before, ready s f y := fun y hy =>
      hP.ready_part hp.2 (List.mem_append_left _ hy)
    obtain ⟨ht, hst, -⟩ := (Expr.evalList_guided hP (callClosure_guided hP traced l) before hp.1
      hready).on hbefore
    exact hp.part hP (by simp [Expr.parts]) ht hst
  | @body l _ f s name c vs t g u hcalls harity hopen =>
    cases hcalls with
    | @intro _ _ _ _ args _ _ _ _ hc hargs =>
      obtain ⟨ht, hst, hvs⟩ := (Expr.evalList_guided hP (callClosure_guided hP traced (l + 1)) args
        hp.1 fun y hy => hP.ready_part hp.2 hy).on hargs
      have hvalid := hP.valid_of_allows hst (hP.lookup hp.1 hp.2 hc)
      obtain ⟨hu, -, hbody⟩ := (obeys_openCall hP ht hvalid (hvs vs rfl) harity).on hopen
      exact ⟨hu, hbody g rfl⟩

open Relation (ReflTransGen)

/-- Every site that evaluation reaches is ready. -/
theorem ready_of_reach {p q : Site} (h : ReflTransGen (Next traced) p q) (hp : p.Ready P ready) :
    q.Ready P ready := by
  induction h with
  | refl => exact hp
  | tail _ hnext ih => exact ready_of_next hP hnext ih

end Site

end Guides

/-- What a policy must allow so that every evaluation of an expression keeps to it: `valid` holds of
the values at hand, `current` of the frame in which an expression is evaluated. -/
structure Policy.Evaluates (P : Policy) (valid : State → Value → Prop)
    (current : State → FrameId → Prop) : Prop where
  valid_of_allows : ∀ {s s' v}, P.allows s s' → valid s v → valid s' v
  current_of_allows : ∀ {s s' f}, P.allows s s' → current s f → current s' f
  number : ∀ s x, valid s (.number x)
  lookup : ∀ {s f name v}, P.holds s → current s f → s.store.lookup f name = some v → valid s v
  write : ∀ {s} e, P.holds s → P.holds (s.write e) ∧ P.allows s (s.write e)
  makeClosure : ∀ {s f params} body, P.holds s → current s f →
    (∀ p ∈ params, reservedKind? p = none) →
    P.holds (s.makeClosure ⟨params, body, f, none⟩) ∧
      P.allows s (s.makeClosure ⟨params, body, f, none⟩) ∧
      valid (s.makeClosure ⟨params, body, f, none⟩) (.closure s.store.closures.size)
  openFrame : ∀ {s c args}, P.holds s → valid s (.closure c) → (∀ v ∈ args, valid s v) →
    let frame : Frame := ⟨.ofList ((s.store.closure c).params.zip args),
      some (s.store.closure c).frame⟩
    P.holds (s.openFrame frame) ∧ P.allows s (s.openFrame frame) ∧
      current (s.openFrame frame) s.store.frames.size

section Evaluates

variable {P : Policy} {valid : State → Value → Prop} {current : State → FrameId → Prop}
  {s : State} {f : FrameId} (hP : P.Evaluates valid current)
include hP

/-- A policy that looks at the frame only, not at the expression, guides every evaluation. -/
theorem Policy.Evaluates.guides : P.Guides valid fun s f _ => current s f where
  valid_of_allows := hP.valid_of_allows
  ready_of_allows := hP.current_of_allows
  ready_part hx _ := hx
  number := hP.number
  lookup := hP.lookup
  write := hP.write
  makeClosure := hP.makeClosure _
  openFrame hs hc hargs _ := hP.openFrame hs hc hargs

open Run (Obeys)

/-- Calls keep to the policy. -/
theorem callClosure_obeys (traced : Bool) (limit : Nat) :
    Caller.Obeys (callClosure traced limit) P valid :=
  callClosure_guided hP.guides traced limit

/-- Evaluating an expression keeps to the policy. -/
theorem Settings.eval_obeys (set : Settings) (x : Expr) (hs : P.holds s) (hf : current s f) :
    (set.eval f x).Obeys P valid s :=
  Settings.eval_guided hP.guides set x hs hf

end Evaluates

/-! ## Statements and programs -/

/-- The names that a program assigns to. -/
def targets : List Stmt → List String
  | [] => []
  | .assign name _ :: ss => name :: targets ss
  | .expr _ :: ss => targets ss

theorem targets_cons (stmt : Stmt) (ss : List Stmt) :
    targets (stmt :: ss) = targets [stmt] ++ targets ss := by
  cases stmt <;> rfl

theorem targets_append (ss ss' : List Stmt) : targets (ss ++ ss') = targets ss ++ targets ss' := by
  induction ss with
  | nil => rfl
  | cons stmt ss ih =>
    rw [List.cons_append, targets_cons, ih, targets_cons stmt ss, List.append_assoc]

/-- What a policy must allow so that statements that assign to `names` in the frame `f` keep to it:
`bindable` holds of a value that has been named. -/
structure Policy.Assigns (P : Policy) (valid bindable : State → Value → Prop) (f : FrameId)
    (names : List String) : Prop where
  bindable_of_allows : ∀ {s s' v}, P.allows s s' → bindable s v → bindable s' v
  number : ∀ s x, bindable s (.number x)
  nameClosure : ∀ {s c name}, P.holds s → valid s (.closure c) → name ∈ names →
    reservedKind? name = none → P.holds (s.nameClosure c name) ∧
      P.allows s (s.nameClosure c name) ∧ bindable (s.nameClosure c name) (.closure c)
  bind : ∀ {s name v}, P.holds s → bindable s v → name ∈ names → reservedKind? name = none →
    P.holds (s.bind f name v) ∧ P.allows s (s.bind f name v)

section Assigns

variable {P : Policy} {valid bindable : State → Value → Prop}
  {ready : State → FrameId → Expr → Prop} {s : State} {f : FrameId} {names : List String}
  (hP : P.Guides valid ready) (hA : P.Assigns valid bindable f names)

open Run (Obeys)

include hA in
/-- Giving a valid value a free name makes it one that may be bound. -/
theorem obeys_nameValue {name : String} {v : Value} (hs : P.holds s) (hv : valid s v)
    (hname : name ∈ names) (hfree : reservedKind? name = none) :
    (nameValue name v).Obeys P (fun s _ => bindable s v) s := by
  cases v with
  | number x => exact .pure hs (hA.number s x)
  | closure c =>
    obtain ⟨hs₁, hss₁, hv₁⟩ := hA.nameClosure hs hv hname hfree
    unfold nameValue
    exact .of_on (Run.on_update _ s) hs₁ hss₁ fun _ _ => hv₁

include hP hA

/-- A statement that is ready is run by the policy, if its target is among the names. -/
theorem Settings.evalStmt_guided (set : Settings) (stmt : Stmt)
    (hnames : ∀ name ∈ targets [stmt], name ∈ names) (hs : P.holds s)
    (hstmt : ready s f stmt.value) : (set.evalStmt f stmt).Obeys P valid s := by
  cases stmt with
  | expr x => exact Settings.eval_guided hP set x hs hstmt
  | assign name x =>
    have hname : name ∈ names := hnames name List.mem_cons_self
    unfold Settings.evalStmt
    refine (Settings.eval_guided hP set x hs hstmt).bind fun v s₁ hs₁ _ hv => ?_
    refine (obeys_ensureFree hs₁).bind fun _ s₂ hs₂ hss₂ hfree => ?_
    have hv₂ := hP.valid_of_allows hss₂ hv
    refine (obeys_nameValue hA hs₂ hv₂ hname hfree).bind fun _ s₃ hs₃ hss₃ hb => ?_
    refine (obeys_note hP hs₃).bind fun _ s₄ hs₄ hss₄ _ => ?_
    have hv₄ := hP.valid_of_allows (P.trans hss₃ hss₄) hv₂
    obtain ⟨hs₅, hss₅⟩ := hA.bind hs₄ (hA.bindable_of_allows hss₄ hb) hname hfree
    refine Obeys.bind (Q := fun s _ => valid s v) ?_ fun _ s₆ hs₆ _ hv₆ => .pure hs₆ hv₆
    exact .of_on (Run.on_update _ s₄) hs₅ hss₅ fun _ _ => hP.valid_of_allows hss₅ hv₄

omit hP hA in
/-- The result of a program is a valid value before and after a statement. -/
theorem valid_nextResult {stmt : Stmt} {result v : Value} (hresult : valid s result)
    (hv : valid s v) : valid s (nextResult result stmt v) := by
  unfold nextResult
  split
  · exact hresult
  · exact hv

/-- Statements that are ready are run by the policy. -/
theorem Settings.evalStmts_guided (set : Settings) (ss : List Stmt) (index : Nat) {result : Value}
    (hnames : ∀ name ∈ targets ss, name ∈ names) (hs : P.holds s)
    (hss : ∀ stmt ∈ ss, ready s f stmt.value) (hresult : valid s result) :
    (set.evalStmts f index result ss).Obeys P valid s := by
  induction ss generalizing s index result with
  | nil => exact .pure hs hresult
  | cons stmt ss ih =>
    rw [targets_cons, List.forall_mem_append] at hnames
    obtain ⟨hstmt, hss⟩ := List.forall_mem_cons.mp hss
    unfold Settings.evalStmts
    refine (obeys_note hP hs).bind fun _ s₁ hs₁ hss₁ _ => ?_
    have hstmt₁ := hP.ready_of_allows hss₁ hstmt
    refine (Settings.evalStmt_guided hP hA set stmt hnames.1 hs₁ hstmt₁).bind
      fun v s₂ hs₂ hss₂ hv => ?_
    have hss' := P.trans hss₁ hss₂
    exact ih _ hnames.2 hs₂ (fun x hx => hP.ready_of_allows hss' (hss x hx))
      (valid_nextResult (hP.valid_of_allows hss' hresult) hv)

/-- A program whose expressions are ready before its run keeps to the policy. -/
theorem Settings.evalProgram_guided (set : Settings) (p : Program)
    (hnames : ∀ name ∈ targets p.statements, name ∈ names) (hs : P.holds s)
    (hp : ∀ stmt ∈ p.statements, ready s f stmt.value) :
    (set.evalProgram f p).Obeys P (fun _ _ => True) s := by
  unfold Settings.evalProgram
  refine (Settings.evalStmts_guided hP hA set p.statements 0 hnames hs hp (hP.number s 0)).bind
    fun v s₁ hs₁ _ _ => ?_
  cases v with
  | number x => exact .pure hs₁ trivial
  | closure c => exact .store_bind (.fail hs₁)

open Relation (ReflTransGen)

/-- Whatever a program comes to evaluate is ready, if its expressions are before its run. -/
theorem Program.ready_of_reaches {set : Settings} {p : Program} {q : Site}
    (hnames : ∀ name ∈ targets p.statements, name ∈ names) (hs : P.holds s)
    (hp : ∀ stmt ∈ p.statements, ready s f stmt.value) (hq : p.Reaches set f s q) :
    q.Ready P ready := by
  obtain ⟨start, hstart, hreach⟩ := hq
  cases hstart with
  | @intro before stmt after result t u hstmts hbefore hnote =>
    rw [hstmts, List.forall_mem_append] at hp
    obtain ⟨hbefore', hp⟩ := hp
    obtain ⟨hstmt, -⟩ := List.forall_mem_cons.mp hp
    have hnames' : ∀ name ∈ targets before, name ∈ names := fun name hname =>
      hnames name (by rw [hstmts, targets_append]; exact List.mem_append_left _ hname)
    obtain ⟨ht, hst, -⟩ := (Settings.evalStmts_guided hP hA set before 0 hnames' hs hbefore'
      (hP.number s 0)).on hbefore
    obtain ⟨hu, htu, -⟩ := (obeys_note hP ht).on hnote
    exact Site.ready_of_reach hP hreach ⟨hu, hP.ready_of_allows (P.trans hst htu) hstmt⟩

end Assigns

/-- Running a program keeps to the policy, if its targets are among the names. -/
theorem Settings.evalProgram_obeys {P : Policy} {valid bindable : State → Value → Prop}
    {current : State → FrameId → Prop} {s : State} {f : FrameId} {names : List String}
    (hP : P.Evaluates valid current) (hA : P.Assigns valid bindable f names) (set : Settings)
    (p : Program) (hnames : ∀ name ∈ targets p.statements, name ∈ names) (hs : P.holds s)
    (hf : current s f) : (set.evalProgram f p).Obeys P (fun _ _ => True) s :=
  Settings.evalProgram_guided hP.guides hA set p hnames hs fun _ _ => hf

end Abacus
