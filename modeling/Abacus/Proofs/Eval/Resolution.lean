import Abacus.Proofs.Eval.Evaluation

/-!
# Ways to resolve names

A name is resolved in two places: where a variable is evaluated, and where a call by name looks for
what it calls. `Expr.evalBy r` is the evaluator with these two places given by a `Resolution`, and
all else unchanged.

* `Resolution.framesFirst`: the resolution that looks into the frames before it looks among the
  constants and the built-in functions.
* `Settings.on_evalProgramBy`: a resolution that agrees with the evaluator in all states that a
  policy holds of does the same in whole runs.
-/

namespace Abacus

/-- How names are resolved: to the value of a variable, and to what a call by name calls. -/
structure Resolution where
  value : FrameId → String → Run Value
  callee : FrameId → String → Run (Builtin ⊕ ClosureId)

namespace Resolution

/-- The resolution of the evaluator: constants and built-in functions come before all bindings. -/
def standard : Resolution where
  value := evalVariable
  callee frame name :=
    match Builtin.ofName? name with
    | some b => return .inl b
    | none => return .inr (← findFunction frame name)

/-- The resolution in which bindings come before constants and built-in functions. -/
def framesFirst : Resolution where
  value frame name := do
    match (← Run.store).lookup frame name with
    | some v => return v
    | none =>
      match constant? name with
      | some x => return .number x
      | none => Run.fail (.undefinedVariable name)
  callee frame name := do
    match (← Run.store).lookup frame name with
    | some (.closure c) => return .inr c
    | some (.number _) => Run.fail (.unknownFunction name)
    | none =>
      match Builtin.ofName? name with
      | some b => return .inl b
      | none => Run.fail (.unknownFunction name)

end Resolution

/-! ## The evaluator for a resolution -/

section EvalBy

variable (r : Resolution)

mutual

/-- The value of an expression in a frame. -/
def Expr.evalBy (call : Caller) (traced : Bool) (frame : FrameId) : Expr → Run Value
  | .number x => return .number x
  | .var name => r.value frame name
  | .unary op x => do
    let a ← Run.toNumber op.symbol (← x.evalBy call traced frame)
    return .number (op.eval a)
  | .binary op x y => do
    let a ← Run.toNumber op.symbol (← x.evalBy call traced frame)
    match op.decided? a with
    | some c => return .number c
    | none =>
      let b ← Run.toNumber op.symbol (← y.evalBy call traced frame)
      return .number (← Run.ofEval (op.eval a b))
  | .conditional c t e => do
    let a ← Run.toNumber "if" (← c.evalBy call traced frame)
    if Number.isTrue a then t.evalBy call traced frame else e.evalBy call traced frame
  | .call name args => do
    match ← r.callee frame name with
    | .inl b =>
      let xs ← Expr.evalNumbersBy call traced frame name args
      Run.note traced fun _ =>
        "  builtin " ++ name ++ "(" ++ ", ".intercalate (xs.map Number.text) ++ ")"
      return .number (← Run.builtin b xs)
    | .inr c =>
      let vs ← Expr.evalListBy call traced frame args
      call c vs (some name)
  | .lambda params body => evalLambda frame params body

/-- The values of expressions from left to right. -/
def Expr.evalListBy (call : Caller) (traced : Bool) (frame : FrameId) :
    List Expr → Run (List Value)
  | [] => return []
  | x :: xs => do
    let v ← x.evalBy call traced frame
    let vs ← Expr.evalListBy call traced frame xs
    return v :: vs

/-- The numbers that are the values of expressions from left to right; `place` tells in an error
where they were needed. -/
def Expr.evalNumbersBy (call : Caller) (traced : Bool) (frame : FrameId) (place : String) :
    List Expr → Run (List Float)
  | [] => return []
  | x :: xs => do
    let a ← Run.toNumber place (← x.evalBy call traced frame)
    let as ← Expr.evalNumbersBy call traced frame place xs
    return a :: as

end

/-- Calls a closure, nested `limit` deep at most. -/
def callClosureBy (traced : Bool) (limit : Nat) : Caller := fun id args name => do
  let closure := (← Run.store).closure id
  if args.length ≠ closure.arity then
    Run.fail (.arityMismatch (closure.label name) closure.arity args.length false)
  else
    match limit with
    | 0 => throw .tooDeep
    | limit + 1 =>
      let frame ← openCall traced closure args (closure.label name)
      closure.body.evalBy r (callClosureBy traced limit) traced frame

/-- The value of an expression. -/
def Settings.evalBy (set : Settings) (frame : FrameId) (x : Expr) : Run Value :=
  x.evalBy r (callClosureBy r set.traceRun set.limit) set.traceRun frame

/-- The value of a statement. An assignment binds it in the frame. -/
def Settings.evalStmtBy (set : Settings) (frame : FrameId) : Stmt → Run Value
  | .expr x => set.evalBy r frame x
  | .assign name x => do
    let v ← set.evalBy r frame x
    Run.ensureFree name
    nameValue name v
    Run.note set.traceRun fun s =>
      "  bind " ++ name ++ " = " ++ s.shown v ++ " (depth " ++ toString (s.depth frame) ++ ")"
    Run.update fun s => s.bind frame name v
    return v

/-- Evaluates statements in order; `index` is the number of those before, and `result` theirs. -/
def Settings.evalStmtsBy (set : Settings) (frame : FrameId) (index : Nat) (result : Value) :
    List Stmt → Run Value
  | [] => return result
  | s :: ss => do
    Run.note set.traceRun fun _ => "Evaluating stmt " ++ toString index ++ ": " ++ s.outline
    let v ← set.evalStmtBy r frame s
    set.evalStmtsBy frame (index + 1) (nextResult result s v) ss

/-- The result of a program, which must be a number. -/
def Settings.evalProgramBy (set : Settings) (frame : FrameId) (p : Program) : Run Float := do
  match ← set.evalStmtsBy r frame 0 (.number 0) p.statements with
  | .number x => return x
  | .closure c =>
    let closure := (← Run.store).closure c
    Run.fail (.functionAsResult closure.shown closure.name)

end EvalBy

/-! ## Resolutions that agree -/

theorem Resolution.standard_some {name : String} {b : Builtin} (h : Builtin.ofName? name = some b)
    (f : FrameId) : standard.callee f name = pure (.inl b) := by
  unfold standard
  simp only [h]

theorem Resolution.standard_none {name : String} (h : Builtin.ofName? name = none) (f : FrameId) :
    standard.callee f name = (do return .inr (← findFunction f name)) := by
  unfold standard
  simp only [h]

/-- The evaluator resolves what a call reaches by the standard resolution. -/
theorem Expr.eval_call (call : Caller) (traced : Bool) (f : FrameId) (name : String)
    (args : List Expr) :
    (Expr.call name args).eval call traced f = (do
      match ← Resolution.standard.callee f name with
      | .inl b =>
        let xs ← Expr.evalNumbers call traced f name args
        Run.note traced fun _ =>
          "  builtin " ++ name ++ "(" ++ ", ".intercalate (xs.map Number.text) ++ ")"
        return .number (← Run.builtin b xs)
      | .inr c =>
        let vs ← Expr.evalList call traced f args
        call c vs (some name)) := by
  unfold eval
  cases hb : Builtin.ofName? name with
  | some b => rw [Resolution.standard_some hb, pure_bind]
  | none => rw [Resolution.standard_none hb, bind_assoc]; simp only [pure_bind]

/-- What a call reaches, if not a built-in function, is the closure that the name is bound to. -/
theorem Resolution.ok_of_standard {f : FrameId} {name : String} {s t : State} {c : ClosureId}
    (h : (standard.callee f name).on s = (.ok (.inr c), t)) :
    s.store.lookup f name = some (.closure c) ∧ s = t := by
  cases hb : Builtin.ofName? name with
  | some b =>
    rw [standard_some hb] at h
    cases h
  | none =>
    rw [standard_none hb] at h
    obtain ⟨c', u, hfind, h⟩ := Run.ok_of_on_bind h
    cases h
    exact ok_of_findFunction hfind

theorem Resolution.ok_of_standard_builtin {f : FrameId} {name : String} {s t : State} {b : Builtin}
    (h : (standard.callee f name).on s = (.ok (.inl b), t)) : s = t := by
  cases hb : Builtin.ofName? name with
  | some b =>
    rw [standard_some hb] at h
    cases h
    rfl
  | none =>
    rw [standard_none hb] at h
    obtain ⟨c', u, hfind, h⟩ := Run.ok_of_on_bind h
    cases h

/-- Two runs agree if their first parts do and the rest agrees wherever the first part ended. -/
theorem Run.on_bind_congr {α β : Type} {x x' : Run α} {k k' : α → Run β} {s : State}
    (hx : x'.on s = x.on s) (hk : ∀ a t, x.on s = (.ok a, t) → (k' a).on t = (k a).on t) :
    (x' >>= k').on s = (x >>= k).on s := by
  rw [Run.on_bind, Run.on_bind, hx]
  rcases h : x.on s with ⟨e | a, t⟩
  · rfl
  · exact hk a t h

/-- The resolution agrees with the evaluator in all states that the policy holds of. -/
structure Resolution.Agrees (r : Resolution) (P : Policy) : Prop where
  value : ∀ {s f name}, P.holds s → (r.value f name).on s = (standard.value f name).on s
  callee : ∀ {s f name}, P.holds s → (r.callee f name).on s = (standard.callee f name).on s

/-- Called from any state that the policy holds of, with values that are valid there, both do the
same. -/
def Caller.Agrees (call' call : Caller) (P : Policy) (valid : State → Value → Prop) : Prop :=
  ∀ {s c args name}, P.holds s → valid s (.closure c) → (∀ v ∈ args, valid s v) →
    (call' c args name).on s = (call c args name).on s

section Agrees

variable {P : Policy} {valid : State → Value → Prop} {ready : State → FrameId → Expr → Prop}
  {r : Resolution} {s : State} {f : FrameId} {traced : Bool} {call call' : Caller}
  (hP : P.Guides valid ready)
include hP

mutual

/-- Resolvers that agree under the invariant evaluate every expression alike. -/
theorem Expr.on_evalBy (hr : r.Agrees P) (hcall : Caller.Obeys call P valid)
    (hsame : Caller.Agrees call' call P valid) : (x : Expr) → {s : State} → {f : FrameId} →
      P.holds s → ready s f x → (x.evalBy r call' traced f).on s = (x.eval call traced f).on s
  | .number _, _, _, _, _ => by
    unfold evalBy eval
    rfl
  | .var _, _, _, hs, _ => by
    unfold evalBy eval
    exact hr.value hs
  | .unary _ x, _, _, hs, hx => by
    unfold evalBy eval
    have hpart := hP.ready_part hx (List.mem_singleton_self x)
    exact Run.on_bind_congr (Expr.on_evalBy hr hcall hsame x hs hpart) fun _ _ _ => rfl
  | .binary op x y, _, _, hs, hx => by
    unfold evalBy eval
    have hleft := hP.ready_part (y := x) hx (by simp [parts])
    have hright := hP.ready_part (y := y) hx (by simp [parts])
    refine Run.on_bind_congr (Expr.on_evalBy hr hcall hsame x hs hleft) fun v s₁ h₁ => ?_
    obtain ⟨hs₁, hss₁, -⟩ := (Expr.eval_guided hP hcall x hs hleft).on h₁
    -- The right operand starts where the left one ended, so the invariant is carried along the
    -- standard run; the same is done for branches and arguments.
    refine Run.on_bind_congr rfl fun a s₂ h₂ => ?_
    obtain ⟨-, rfl⟩ := Run.ok_of_toNumber h₂
    cases op.decided? a with
    | some c => rfl
    | none =>
      have hy := Expr.on_evalBy hr hcall hsame y hs₁ (hP.ready_of_allows hss₁ hright)
      exact Run.on_bind_congr hy fun _ _ _ => rfl
  | .conditional c t e, _, _, hs, hx => by
    unfold evalBy eval
    have hcond := hP.ready_part (y := c) hx (by simp [parts])
    have hthen := hP.ready_part (y := t) hx (by simp [parts])
    have helse := hP.ready_part (y := e) hx (by simp [parts])
    refine Run.on_bind_congr (Expr.on_evalBy hr hcall hsame c hs hcond) fun v s₁ h₁ => ?_
    obtain ⟨hs₁, hss₁, -⟩ := (Expr.eval_guided hP hcall c hs hcond).on h₁
    refine Run.on_bind_congr rfl fun a s₂ h₂ => ?_
    obtain ⟨-, rfl⟩ := Run.ok_of_toNumber h₂
    -- Only the chosen branch is run, but both were ready.
    split
    · exact Expr.on_evalBy hr hcall hsame t hs₁ (hP.ready_of_allows hss₁ hthen)
    · exact Expr.on_evalBy hr hcall hsame e hs₁ (hP.ready_of_allows hss₁ helse)
  | .call name args, s, f, hs, hx => by
    have hargs := fun y (hy : y ∈ args) => hP.ready_part hx hy
    rw [Expr.eval_call]
    unfold evalBy
    -- The resolution of the callee is the one place where the two evaluators differ.
    refine Run.on_bind_congr (hr.callee hs) fun callee t ht => ?_
    rcases callee with b | c
    · obtain rfl := Resolution.ok_of_standard_builtin ht
      exact Run.on_bind_congr (Expr.on_evalNumbersBy hr hcall hsame args hs hargs) fun _ _ _ => rfl
    · obtain ⟨hc, rfl⟩ := Resolution.ok_of_standard ht
      refine Run.on_bind_congr (Expr.on_evalListBy hr hcall hsame args hs hargs) fun vs u hu => ?_
      obtain ⟨hs₁, hss₁, hvs⟩ := (Expr.evalList_guided hP hcall args hs hargs).on hu
      exact hsame hs₁ (hP.valid_of_allows hss₁ (hP.lookup hs hx hc)) (hvs vs rfl)
  | .lambda _ _, _, _, _, _ => by
    unfold evalBy eval
    rfl

theorem Expr.on_evalListBy (hr : r.Agrees P) (hcall : Caller.Obeys call P valid)
    (hsame : Caller.Agrees call' call P valid) : (xs : List Expr) → {s : State} → {f : FrameId} →
      P.holds s → (∀ x ∈ xs, ready s f x) →
      (Expr.evalListBy r call' traced f xs).on s = (Expr.evalList call traced f xs).on s
  | [], _, _, _, _ => by
    unfold evalListBy evalList
    rfl
  | x :: xs, _, _, hs, hxs => by
    obtain ⟨hx, hxs⟩ := List.forall_mem_cons.mp hxs
    unfold evalListBy evalList
    refine Run.on_bind_congr (Expr.on_evalBy hr hcall hsame x hs hx) fun v s₁ h₁ => ?_
    obtain ⟨hs₁, hss₁, -⟩ := (Expr.eval_guided hP hcall x hs hx).on h₁
    have hxs₁ := fun y hy => hP.ready_of_allows hss₁ (hxs y hy)
    exact Run.on_bind_congr (Expr.on_evalListBy hr hcall hsame xs hs₁ hxs₁) fun _ _ _ => rfl

theorem Expr.on_evalNumbersBy (hr : r.Agrees P) (hcall : Caller.Obeys call P valid)
    (hsame : Caller.Agrees call' call P valid) : (xs : List Expr) → {s : State} → {f : FrameId} →
      {place : String} → P.holds s → (∀ x ∈ xs, ready s f x) →
      (Expr.evalNumbersBy r call' traced f place xs).on s =
        (Expr.evalNumbers call traced f place xs).on s
  | [], _, _, _, _, _ => by
    unfold evalNumbersBy evalNumbers
    rfl
  | x :: xs, _, _, _, hs, hxs => by
    obtain ⟨hx, hxs⟩ := List.forall_mem_cons.mp hxs
    unfold evalNumbersBy evalNumbers
    refine Run.on_bind_congr (Expr.on_evalBy hr hcall hsame x hs hx) fun v s₁ h₁ => ?_
    obtain ⟨hs₁, hss₁, -⟩ := (Expr.eval_guided hP hcall x hs hx).on h₁
    refine Run.on_bind_congr rfl fun a s₂ h₂ => ?_
    obtain ⟨-, rfl⟩ := Run.ok_of_toNumber h₂
    have hxs₁ := fun y hy => hP.ready_of_allows hss₁ (hxs y hy)
    exact Run.on_bind_congr (Expr.on_evalNumbersBy hr hcall hsame xs hs₁ hxs₁) fun _ _ _ => rfl

end

variable (hr : r.Agrees P)
include hr

/-- Calls do not tell the two resolvers apart either, to any depth. -/
theorem callClosureBy_agrees (traced : Bool) (limit : Nat) :
    Caller.Agrees (callClosureBy r traced limit) (callClosure traced limit) P valid := by
  induction limit with
  | zero =>
    intro s c args name _ _ _
    unfold callClosureBy callClosure
    rfl
  | succ limit ih =>
    intro s c args name hs hc hargs
    by_cases harity : args.length = (s.store.closure c).arity
    · rw [on_callClosure_succ harity]
      unfold callClosureBy
      rw [Run.on_store_bind]
      dsimp only
      rw [if_neg (not_not_intro harity)]
      refine Run.on_bind_congr rfl fun g s₁ h₁ => ?_
      obtain ⟨hs₁, -, hbody⟩ := (obeys_openCall hP hs hc hargs harity).on h₁
      exact Expr.on_evalBy hP hr (callClosure_guided hP traced limit) ih _ hs₁ (hbody g rfl)
    · rw [on_callClosure_arity harity]
      unfold callClosureBy
      rw [Run.on_store_bind]
      dsimp only
      rw [if_pos harity]
      rfl

theorem Settings.on_evalBy (set : Settings) (x : Expr) (hs : P.holds s) (hx : ready s f x) :
    (set.evalBy r f x).on s = (set.eval f x).on s :=
  Expr.on_evalBy hP hr (callClosure_guided hP set.traceRun set.limit)
    (callClosureBy_agrees hP hr set.traceRun set.limit) x hs hx

theorem Settings.on_evalStmtBy (set : Settings) (stmt : Stmt) (hs : P.holds s)
    (hstmt : ready s f stmt.value) :
    (set.evalStmtBy r f stmt).on s = (set.evalStmt f stmt).on s := by
  cases stmt with
  | expr x => exact Settings.on_evalBy hP hr set x hs hstmt
  | assign name x =>
    exact Run.on_bind_congr (Settings.on_evalBy hP hr set x hs hstmt) fun _ _ _ => rfl

variable {bindable : State → Value → Prop} {names : List String}
  (hA : P.Assigns valid bindable f names)
include hA

theorem Settings.on_evalStmtsBy (set : Settings) (ss : List Stmt) (index : Nat) (result : Value)
    (hnames : ∀ name ∈ targets ss, name ∈ names) (hs : P.holds s)
    (hss : ∀ stmt ∈ ss, ready s f stmt.value) :
    (set.evalStmtsBy r f index result ss).on s = (set.evalStmts f index result ss).on s := by
  induction ss generalizing s index result with
  | nil => rfl
  | cons stmt ss ih =>
    rw [targets_cons, List.forall_mem_append] at hnames
    obtain ⟨hstmt, hss⟩ := List.forall_mem_cons.mp hss
    unfold Settings.evalStmtsBy Settings.evalStmts
    refine Run.on_bind_congr rfl fun _ s₁ h₁ => ?_
    obtain ⟨hs₁, hss₁, -⟩ := (obeys_note hP hs).on h₁
    have hstmt₁ := hP.ready_of_allows hss₁ hstmt
    refine Run.on_bind_congr (Settings.on_evalStmtBy hP hr set stmt hs₁ hstmt₁) fun v s₂ h₂ => ?_
    obtain ⟨hs₂, hss₂, -⟩ := (Settings.evalStmt_guided hP hA set stmt hnames.1 hs₁ hstmt₁).on h₂
    exact ih _ _ hnames.2 hs₂ fun x hx => hP.ready_of_allows (P.trans hss₁ hss₂) (hss x hx)

/-- A resolution that agrees with the evaluator in all states that can come up does the same in
whole runs. -/
theorem Settings.on_evalProgramBy (set : Settings) (p : Program)
    (hnames : ∀ name ∈ targets p.statements, name ∈ names) (hs : P.holds s)
    (hp : ∀ stmt ∈ p.statements, ready s f stmt.value) :
    (set.evalProgramBy r f p).on s = (set.evalProgram f p).on s :=
  Run.on_bind_congr (Settings.on_evalStmtsBy hP hr hA set p.statements 0 (.number 0) hnames hs hp)
    fun _ _ _ => rfl

end Agrees

end Abacus
