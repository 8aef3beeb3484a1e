import Abacus.Proofs.Eval.Evaluation
import Abacus.Proofs.Eval.Renumbering

/-!
# Runs that mirror each other

A `Mirror` says how the state of a second run is like the state of a first one: where the second
store has what the first one has, whether closures have the same names there, and whether the lines
of the trace correspond. `Run.Mirrors m g run run'`: from states that are alike in this sense the
second run ends as the first one does, with the result that `g` makes of the first result or with a
fault that is the same but for names of functions, in states that are alike again.

* `Run.Mirrors.bind`: one run after the other.
* `Expr.eval_mirrors`, `callClosure_mirrors`: what is evaluated in a frame and in its image is
  mirrored, by an induction on how deep calls may still be nested and for each depth one on the
  expression.
* `Settings.evalProgram_mirrors`: so are statements and programs.
-/

namespace Abacus

/-! ## States that are alike -/

/-- How a second run is like a first one. -/
structure Mirror where
  /-- Where the second store has what the first one has. -/
  places : Renumbering
  /-- Closures have the same names. -/
  exact : Prop
  /-- Both runs are traced or not, and have written the same so far. -/
  traces : Prop
  /-- What was printed before the second run and not before the first one. -/
  printed : List String

namespace Mirror

variable (m : Mirror)

/-- The texts are the same but for names of functions that are not the same. -/
def Texts (a a' : String) : Prop := TextAlike a a' ∧ (m.exact → a' = a)

/-- The lines are the same but for names of functions that are not the same. -/
def Lines (e e' : Emission) : Prop := e.Alike e' ∧ (m.exact → e' = e)

/-- The faults are the same but for names of functions that are not the same. -/
def Faults (e e' : Fault) : Prop := e.Alike e' ∧ (m.exact → e' = e)

/-- The states are alike. -/
structure States (s t : State) : Prop where
  store : s.store.Renumbers m.places m.exact t.store
  printed : printedTexts t.log.toList = m.printed ++ printedTexts s.log.toList
  log : m.traces → List.Forall₂ m.Lines s.log.toList t.log.toList

/-- Both runs end alike: with results, of which `g` makes the second one from the first, or with
faults. -/
inductive Ends {α β : Type} (g : α → β) :
    Except Fault α × State → Except Fault β × State → Prop
  | ok {a : α} {s t : State} (h : m.States s t) : Ends g (.ok a, s) (.ok (g a), t)
  | error {e e' : Fault} {s t : State} (he : m.Faults e e') (h : m.States s t) :
      Ends g (.error e, s) (.error e', t)

variable {m}

theorem texts_refl (a : String) : m.Texts a a := ⟨.refl a, fun _ => rfl⟩

/-- Texts that agree in parts agree. -/
theorem Texts.append {a a' b b' : String} (h : m.Texts a a') (h' : m.Texts b b') :
    m.Texts (a ++ b) (a' ++ b') :=
  ⟨h.1.append h'.1, fun hexact => by rw [h.2 hexact, h'.2 hexact]⟩

theorem faults_refl (e : Fault) : m.Faults e e := ⟨.refl e, fun _ => rfl⟩

section Write

variable {s t : State} {e e' : Emission}

/-- What is printed comes behind what was printed before. -/
theorem printedTexts_push (log : Array Emission) (e : Emission) :
    printedTexts (log.push e).toList = printedTexts log.toList ++ e.printed?.toList := by
  unfold printedTexts
  rw [Array.toList_push, List.filterMap_append]
  cases e with
  | printed text => rfl
  | traced line => rfl

/-- Emissions that agree print the same. -/
theorem Lines.printed?_eq (h : m.Lines e e') : e'.printed? = e.printed? := by
  obtain ⟨halike, -⟩ := h
  cases halike with
  | printed => rfl
  | traced => rfl

/-- Both states get a line. -/
theorem States.write (h : m.States s t) (he : m.Lines e e') :
    m.States (s.write e) (t.write e') where
  store := h.store
  printed := by
    have hprinted := h.printed
    unfold State.write
    rw [printedTexts_push, printedTexts_push, hprinted, he.printed?_eq, List.append_assoc]
  log htraces := by
    have hlog := h.log htraces
    unfold State.write
    rw [Array.toList_push, Array.toList_push]
    exact List.rel_append hlog (.cons he .nil)

/-- Where traces need not correspond, one state alone may get a line of the trace. -/
theorem States.trace_left (h : m.States s t) (htraces : ¬ m.traces) (line : String) :
    m.States (s.write (.traced line)) t where
  store := h.store
  printed := by
    have hprinted := h.printed
    unfold State.write
    rw [printedTexts_push, hprinted]
    exact (congrArg _ (List.append_nil _)).symm
  log h := absurd h htraces

/-- Where traces do not count, the second run may write one more. -/
theorem States.trace_right (h : m.States s t) (htraces : ¬ m.traces) (line : String) :
    m.States s (t.write (.traced line)) where
  store := h.store
  printed := by
    have hprinted := h.printed
    unfold State.write
    rw [printedTexts_push, hprinted]
    exact List.append_nil _
  log h := absurd h htraces

end Write

end Mirror

/-! ## Rules for runs -/

namespace Run

/-- From states that are alike, the second run does what the first one does. -/
def Mirrors {α β : Type} (m : Mirror) (g : α → β) (run : Run α) (run' : Run β) : Prop :=
  ∀ s t, m.States s t → m.Ends g (run.on s) (run'.on t)

namespace Mirrors

variable {m : Mirror} {α β γ δ : Type} {g : α → β}

/-- A result and its image may be given. -/
theorem pure (a : α) : Mirrors m g (Pure.pure a) (Pure.pure (g a)) := fun _ _ h => .ok h

/-- Faults that agree may be thrown. -/
theorem throw {e e' : Fault} (he : m.Faults e e') :
    Mirrors m g (MonadExcept.throw e : Run α) (MonadExcept.throw e' : Run β) :=
  fun _ _ h => .error he h

/-- Second runs start where the first ones ended, with the first results. -/
theorem bind {x : Run α} {x' : Run β} {k : α → Run γ} {k' : β → Run δ} {g' : γ → δ}
    (hx : Mirrors m g x x') (hk : ∀ a, Mirrors m g' (k a) (k' (g a))) :
    Mirrors m g' (x >>= k) (x' >>= k') := by
  intro s t h
  have hends := hx s t h
  rw [on_bind, on_bind]
  generalize x.on s = end₁ at hends
  generalize x'.on t = end₂ at hends
  cases hends with
  | ok h₁ => exact hk _ _ _ h₁
  | error he h₁ => exact .error he h₁

/-- Both runs look at their stores first. -/
theorem store_bind {k : Store → Run α} {k' : Store → Run β}
    (hk : ∀ s t, s.Renumbers m.places m.exact t → Mirrors m g (k s) (k' t)) :
    Mirrors m g (Run.store >>= k) (Run.store >>= k') := by
  intro s t h
  rw [on_bind_ok (on_store s), on_bind_ok (on_store t)]
  exact hk s.store t.store h.store s t h

/-- Both stores may be changed in ways that keep one the image of the other. -/
theorem update {f f' : Store → Store}
    (hf : ∀ s t, s.Renumbers m.places m.exact t → (f s).Renumbers m.places m.exact (f' t)) :
    Mirrors m id (Run.update f) (Run.update f') := by
  intro s t h
  rw [on_update, on_update]
  exact .ok ⟨hf _ _ h.store, h.printed, h.log⟩

/-- Places may be given out in both stores that correspond. -/
theorem add {f f' : Store → Nat × Store} {g : Nat → Nat}
    (hplace : ∀ s t, s.Renumbers m.places m.exact t → (f' t).1 = g (f s).1)
    (hf : ∀ s t, s.Renumbers m.places m.exact t →
      (f s).2.Renumbers m.places m.exact (f' t).2) :
    Mirrors m g (Run.add f) (Run.add f') := by
  intro s t h
  rw [on_add, on_add, hplace _ _ h.store]
  exact .ok ⟨hf _ _ h.store, h.printed, h.log⟩

/-- Both runs may print the same text. -/
theorem emit (text : String) :
    Mirrors m id (Run.emit (.printed text)) (Run.emit (.printed text)) :=
  fun _ _ h => .ok (h.write ⟨.printed text, fun _ => rfl⟩)

/-- Both runs write a line about themselves; where traces need not correspond, each as it likes. -/
theorem note {traced traced' : Bool} {line line' : Store → String}
    (htraced : m.traces → traced' = traced)
    (hline : m.traces → ∀ s t, s.Renumbers m.places m.exact t → m.Texts (line s) (line' t)) :
    Mirrors m id (Run.note traced line) (Run.note traced' line') := by
  have hnote : ∀ (traced : Bool) (line : Store → String) (s : State),
      (Run.note traced line).on s =
        (.ok (), if traced then s.write (.traced ("[EVAL] " ++ line s.store)) else s) := by
    intro traced line s
    cases traced with
    | true => rfl
    | false => rfl
  intro s t h
  rw [hnote, hnote]
  refine .ok (a := ()) ?_
  by_cases htraces : m.traces
  · rw [htraced htraces]
    split
    · obtain ⟨halike, heq⟩ := hline htraces _ _ h.store
      refine h.write ⟨.traced ((TextAlike.refl _).append halike), fun hexact => ?_⟩
      rw [heq hexact]
    · exact h
  · split
    · split
      · exact (h.trace_right htraces _).trace_left htraces _
      · exact h.trace_left htraces _
    · split
      · exact h.trace_right htraces _
      · exact h

end Mirrors

end Run

/-! ## Runs of a few steps -/

section

open Run (Mirrors)

variable {m : Mirror}

/-- A value at its place in the second store. -/
abbrev Mirror.value (m : Mirror) : Value → Value := Value.renumber m.places

/-- Names are reserved in both runs. -/
theorem mirrors_ensureFree (name : String) :
    Mirrors m id (Run.ensureFree name) (Run.ensureFree name) := by
  unfold Run.ensureFree
  split
  · exact .throw (Mirror.faults_refl _)
  · exact .pure ()

theorem mirrors_ensureFree_all (params : List String) :
    Mirrors m id (params.forM Run.ensureFree) (params.forM Run.ensureFree) := by
  induction params with
  | nil => exact .pure ()
  | cons p ps ih => exact (mirrors_ensureFree p).bind fun _ => ih

/-- A value and its image are the same number, or no number. -/
theorem mirrors_toNumber (place : String) (v : Value) :
    Mirrors m id (Run.toNumber place v) (Run.toNumber place (m.value v)) := by
  cases v with
  | number x => exact .pure x
  | closure c =>
    refine .store_bind fun s t h => .throw ?_
    refine ⟨.eval (.functionAsNumber (h.params_eq c) place), fun hexact => ?_⟩
    obtain ⟨name, hc, hname⟩ := h.closure_eq c
    rw [hc, hname hexact]
    rfl

theorem mirrors_ofEval {α : Type} (r : Except EvalError α) :
    Mirrors m id (Run.ofEval r) (Run.ofEval r) := by
  cases r with
  | ok a => exact .pure a
  | error e => exact .throw (Mirror.faults_refl _)

/-- A built-in function gives and prints the same in both runs. -/
theorem mirrors_builtin (b : Builtin) (args : List Float) :
    Mirrors m id (Run.builtin b args) (Run.builtin b args) := by
  unfold Run.builtin
  split
  · exact .throw (Mirror.faults_refl _)
  · dsimp only
    split
    · exact (Mirrors.emit _).bind fun _ => .pure _
    · exact .pure _

/-- A name has a value and its image. -/
theorem mirrors_evalVariable (f : FrameId) (name : String) :
    Mirrors m m.value (evalVariable f name) (evalVariable (m.places.frames.place f) name) := by
  unfold evalVariable
  split
  · exact .pure (Value.number _)
  · refine .store_bind fun s t h => ?_
    rw [h.lookup_eq]
    cases s.lookup f name with
    | some v => exact .pure v
    | none => exact .throw (Mirror.faults_refl _)

/-- A name has a function and its image. -/
theorem mirrors_findFunction (f : FrameId) (name : String) :
    Mirrors m m.places.closures.place (findFunction f name)
      (findFunction (m.places.frames.place f) name) := by
  unfold findFunction
  refine .store_bind fun s t h => ?_
  rw [h.lookup_eq]
  match s.lookup f name with
  | some (.closure c) => exact .pure c
  | some (.number x) => exact .throw (Mirror.faults_refl _)
  | none => exact .throw (Mirror.faults_refl _)

/-- A function is made in both runs, and only the frames in which it is made differ. -/
theorem mirrors_evalLambda (f : FrameId) (params : List String) {body : Expr}
    (hbody : body.WellFormed) :
    Mirrors m m.value (evalLambda f params body)
      (evalLambda (m.places.frames.place f) params body) := by
  unfold evalLambda
  refine (mirrors_ensureFree_all params).bind fun _ => ?_
  refine Mirrors.bind (g := m.places.closures.place) ?_ fun c => .pure (Value.closure c)
  refine .add (fun s t h => ?_) fun s t h => ?_
  · exact (Shift.place_eq_size h.closures_start h.closures_size).symm
  · exact h.addClosure hbody

/-- The frames of a call are opened in both runs, with arguments and their images. -/
theorem mirrors_addFrame (params : List String) (args : List Value) (parent : FrameId) :
    Mirrors m m.places.frames.place
      (Run.add fun s => s.addFrame (.ofList (params.zip args)) (some parent))
      (Run.add fun s => s.addFrame (.ofList (params.zip (args.map m.value)))
        (some (m.places.frames.place parent))) := by
  refine .add (fun s t h => ?_) fun s t h => ?_
  · exact (Shift.place_eq_size h.frames_start h.frames_size).symm
  · have hbindings : Bindings.ofList (params.zip (args.map m.value)) =
        (Bindings.ofList (params.zip args)).map m.value := by
      rw [Bindings.map_ofList, List.zip_map_right]
      rfl
    unfold Store.addFrame
    rw [hbindings]
    exact h.addFrame ⟨.ofList (params.zip args), some parent⟩

/-! ## Expressions -/

/-- A call by name is mirrored, of whatever closure and with whatever values. -/
def Caller.Mirrors (m : Mirror) (call call' : Caller) : Prop :=
  ∀ (c : ClosureId) (args : List Value) (name : String), name ≠ "" →
    Run.Mirrors m m.value (call c args (some name))
      (call' (m.places.closures.place c) (args.map m.value) (some name))

/-- A name that can be written is not empty. -/
theorem IsName.ne_empty {name : String} (h : IsName name) : name ≠ "" := by
  rintro rfl
  obtain ⟨⟨c, cs, hcs, -⟩, -⟩ := h
  cases hcs

variable {call call' : Caller} {traced traced' : Bool}

mutual

/-- An expression evaluates to a value and its image, if calls do. -/
theorem Expr.eval_mirrors (hcall : Caller.Mirrors m call call')
    (htraced : m.traces → traced' = traced) : (x : Expr) → x.WellFormed → (f : FrameId) →
    Mirrors m m.value (x.eval call traced f) (x.eval call' traced' (m.places.frames.place f))
  | .number x, _, _ => by
    unfold eval
    exact .pure (Value.number x)
  | .var name, _, f => by
    unfold eval
    exact mirrors_evalVariable f name
  | .unary op x, hx, f => by
    unfold eval
    unfold Expr.WellFormed at hx
    refine (Expr.eval_mirrors hcall htraced x hx f).bind fun v => ?_
    exact (mirrors_toNumber _ v).bind fun a => .pure (Value.number _)
  | .binary op x y, hx, f => by
    unfold eval
    unfold Expr.WellFormed at hx
    refine (Expr.eval_mirrors hcall htraced x hx.1 f).bind fun v => ?_
    refine (mirrors_toNumber _ v).bind fun a => ?_
    dsimp only [id]
    split
    · -- The first operand decided; the second one is evaluated in neither run.
      exact .pure (Value.number _)
    · refine (Expr.eval_mirrors hcall htraced y hx.2 f).bind fun w => ?_
      refine (mirrors_toNumber _ w).bind fun b => ?_
      exact (mirrors_ofEval _).bind fun z => .pure (Value.number z)
  | .conditional c t e, hx, f => by
    unfold eval
    unfold Expr.WellFormed at hx
    refine (Expr.eval_mirrors hcall htraced c hx.1 f).bind fun v => ?_
    refine (mirrors_toNumber _ v).bind fun a => ?_
    dsimp only [id]
    split
    · exact Expr.eval_mirrors hcall htraced t hx.2.1 f
    · exact Expr.eval_mirrors hcall htraced e hx.2.2 f
  | .call name args, hx, f => by
    unfold eval
    unfold Expr.WellFormed at hx
    split
    · refine (Expr.evalNumbers_mirrors hcall htraced args hx.2 f name).bind fun xs => ?_
      -- The line of a call to a built-in function is traced in both runs or does not count.
      refine (Mirrors.note htraced fun _ _ _ _ => Mirror.texts_refl _).bind fun _ => ?_
      exact (mirrors_builtin _ _).bind fun z => .pure (Value.number z)
    · refine (mirrors_findFunction f name).bind fun c => ?_
      refine (Expr.evalList_mirrors hcall htraced args hx.2 f).bind fun vs => ?_
      exact hcall c vs name hx.1.ne_empty
  | .lambda params body, hx, f => by
    unfold eval
    unfold Expr.WellFormed at hx
    exact mirrors_evalLambda f params hx.2

/-- Expressions evaluate to values and their images, if calls do. -/
theorem Expr.evalList_mirrors (hcall : Caller.Mirrors m call call')
    (htraced : m.traces → traced' = traced) :
    (xs : List Expr) → Expr.WellFormedList xs → (f : FrameId) →
    Mirrors m (List.map m.value) (Expr.evalList call traced f xs)
      (Expr.evalList call' traced' (m.places.frames.place f) xs)
  | [], _, _ => by
    unfold evalList
    exact .pure []
  | x :: xs, hxs, f => by
    unfold evalList
    unfold Expr.WellFormedList at hxs
    refine (Expr.eval_mirrors hcall htraced x hxs.1 f).bind fun v => ?_
    refine (Expr.evalList_mirrors hcall htraced xs hxs.2 f).bind fun vs => ?_
    exact .pure (v :: vs)

/-- Expressions that must be numbers evaluate to the same numbers. -/
theorem Expr.evalNumbers_mirrors (hcall : Caller.Mirrors m call call')
    (htraced : m.traces → traced' = traced) :
    (xs : List Expr) → Expr.WellFormedList xs → (f : FrameId) → (place : String) →
    Mirrors m id (Expr.evalNumbers call traced f place xs)
      (Expr.evalNumbers call' traced' (m.places.frames.place f) place xs)
  | [], _, _, _ => by
    unfold evalNumbers
    exact .pure []
  | x :: xs, hxs, f, place => by
    unfold evalNumbers
    unfold Expr.WellFormedList at hxs
    refine (Expr.eval_mirrors hcall htraced x hxs.1 f).bind fun v => ?_
    refine (mirrors_toNumber place v).bind fun a => ?_
    refine (Expr.evalNumbers_mirrors hcall htraced xs hxs.2 f place).bind fun as => ?_
    exact .pure (a :: as)

end

/-! ## Calls -/

/-- Under a name that is not empty, a closure is called by that name. -/
theorem Closure.label_some (c : Closure) {name : String} (h : name ≠ "") :
    c.label (some name) = name := by
  unfold Closure.label Closure.labelOr
  dsimp only
  rw [if_neg (by simpa [String.isEmpty_iff] using h)]

/-- The frame of a call is opened in both runs, whatever names the two functions have. -/
theorem mirrors_openCall (htraced : m.traces → traced' = traced) (closure : Closure)
    (name' : Option String) (args : List Value) (label : String) :
    Mirrors m m.places.frames.place (openCall traced closure args label)
      (openCall traced' { closure.renumber m.places with name := name' } (args.map m.value)
        label) := by
  unfold openCall
  refine (mirrors_addFrame closure.params args closure.frame).bind fun g => ?_
  refine Mirrors.bind (g := id) ?_ fun _ => .pure g
  refine .note htraced fun _ s t h => ?_
  have hargs : m.Texts (s.shownList args) (t.shownList (args.map m.value)) :=
    h.shownList_alike args
  rw [h.depth_eq g]
  exact (((Mirror.texts_refl ("  call " ++ label ++ "(")).append hargs).append
    (Mirror.texts_refl ") depth=")).append (Mirror.texts_refl (toString (s.depth g)))

/-- A call has as many arguments as parameters in both states or in none. -/
theorem Mirror.States.arity_iff {s t : State} (h : m.States s t) (c : ClosureId)
    (args : List Value) :
    (args.map m.value).length = (t.store.closure (m.places.closures.place c)).arity ↔
      args.length = (s.store.closure c).arity := by
  rw [List.length_map, h.store.arity_eq c]

/-- With a wrong number of arguments, closures with the same parameters fail alike. -/
theorem ends_callClosure_arity {limit : Nat} {s t : State} (h : m.States s t) {c : ClosureId}
    {args : List Value} {name : String} (hname : name ≠ "")
    (harity : args.length ≠ (s.store.closure c).arity) :
    m.Ends m.value ((callClosure traced limit c args (some name)).on s)
      ((callClosure traced' limit (m.places.closures.place c) (args.map m.value)
        (some name)).on t) := by
  have harity' := mt (h.arity_iff c args).mp harity
  rw [on_callClosure_arity harity, on_callClosure_arity harity', h.store.arity_eq c,
    List.length_map, Closure.label_some _ hname, Closure.label_some _ hname]
  exact .error (Mirror.faults_refl _) h

/-- A call of any depth is mirrored: the closures have the same parameters and the same body. -/
theorem callClosure_mirrors (htraced : m.traces → traced' = traced) (limit : Nat) :
    Caller.Mirrors m (callClosure traced limit) (callClosure traced' limit) := by
  induction limit with
  | zero =>
    intro c args name hname s t h
    by_cases harity : args.length = (s.store.closure c).arity
    · rw [on_callClosure_zero harity, on_callClosure_zero ((h.arity_iff c args).mpr harity)]
      exact .error (Mirror.faults_refl _) h
    · exact ends_callClosure_arity h hname harity
  | succ limit ih =>
    intro c args name hname s t h
    by_cases harity : args.length = (s.store.closure c).arity
    · have harity' := (h.arity_iff c args).mpr harity
      obtain ⟨name', hc, -⟩ := h.store.closure_eq c
      rw [on_callClosure_succ harity, on_callClosure_succ harity', Closure.label_some _ hname,
        Closure.label_some _ hname, hc]
      have hbody := Store.closure_body h.store.wellFormed c
      exact (mirrors_openCall htraced (s.store.closure c) name' args name).bind
        (fun g => Expr.eval_mirrors ih htraced _ hbody g) s t h
    · exact ends_callClosure_arity h hname harity

end

/-! ## Statements and programs -/

/-- The values of statements, in order. -/
def Settings.stmtValues (set : Settings) (frame : FrameId) (index : Nat) :
    List Stmt → Run (List Value)
  | [] => return []
  | s :: ss => do
    Run.note set.traceRun fun _ => "Evaluating stmt " ++ toString index ++ ": " ++ s.outline
    let v ← set.evalStmt frame s
    let vs ← set.stmtValues frame (index + 1) ss
    return v :: vs

/-- What a result has become after statements with the given values. -/
def lastResult (result : Value) : List Stmt → List Value → Value
  | s :: ss, v :: vs => lastResult (nextResult result s v) ss vs
  | _, _ => result

/-- The result plays no part in the evaluation of statements. -/
theorem Settings.evalStmts_eq (set : Settings) (f : FrameId) (index : Nat) (result : Value)
    (ss : List Stmt) : set.evalStmts f index result ss =
      set.stmtValues f index ss >>= fun vs => pure (lastResult result ss vs) := by
  induction ss generalizing index result with
  | nil => rfl
  | cons s ss ih =>
    unfold Settings.evalStmts Settings.stmtValues
    simp only [ih, bind_assoc, pure_bind]
    rfl

/-- The settings call for runs that are alike: calls may be nested as deep, and where traces
correspond, both runs are traced or not. -/
structure Settings.Matches (m : Mirror) (set set' : Settings) : Prop where
  limit : set'.limit = set.limit
  traced : m.traces → set'.traceRun = set.traceRun

section

open Run (Mirrors)

variable {m : Mirror} {set set' : Settings} (hset : Settings.Matches m set set')
include hset

/-- The same with the calls as they are. -/
theorem Settings.eval_mirrors {x : Expr} (hx : x.WellFormed) (f : FrameId) :
    Mirrors m m.value (set.eval f x) (set'.eval (m.places.frames.place f) x) := by
  unfold Settings.eval
  rw [hset.limit]
  exact Expr.eval_mirrors (callClosure_mirrors hset.traced _) hset.traced x hx f

omit hset in
/-- Naming a value and its image keeps one store the image of the other. -/
theorem mirrors_nameValue (name : String) (v : Value) :
    Mirrors m id (nameValue name v) (nameValue name (m.value v)) := by
  cases v with
  | number x => exact .pure ()
  | closure c => exact .update fun s t h => h.nameClosure c name

/-- A statement has a result and its image. -/
theorem Settings.evalStmt_mirrors {stmt : Stmt} (hstmt : stmt.WellFormed) (f : FrameId) :
    Mirrors m m.value (set.evalStmt f stmt) (set'.evalStmt (m.places.frames.place f) stmt) := by
  cases stmt with
  | expr x => exact Settings.eval_mirrors hset hstmt f
  | assign name x =>
    unfold Settings.evalStmt
    refine (Settings.eval_mirrors hset hstmt.2.2 f).bind fun v => ?_
    refine (mirrors_ensureFree name).bind fun _ => ?_
    refine (mirrors_nameValue name v).bind fun _ => ?_
    refine Mirrors.bind (g := id) (.note hset.traced fun _ s t h => ?_) fun _ => ?_
    · have hv : m.Texts (s.shown v) (t.shown (m.value v)) := h.shown_alike v
      rw [h.depth_eq f]
      exact ((((Mirror.texts_refl ("  bind " ++ name ++ " = ")).append hv).append
        (Mirror.texts_refl " (depth ")).append (Mirror.texts_refl (toString (s.depth f)))).append
        (Mirror.texts_refl ")")
    · exact Mirrors.bind (g := id) (.update fun s t h => h.bind f name v) fun _ => .pure v

/-- Where traces need not correspond, the second run may count the statements from another index. -/
theorem Settings.stmtValues_mirrors {ss : List Stmt} (hss : ∀ s ∈ ss, s.WellFormed) (f : FrameId)
    {index index' : Nat} (hindex : m.traces → index' = index) :
    Mirrors m (List.map m.value) (set.stmtValues f index ss)
      (set'.stmtValues (m.places.frames.place f) index' ss) := by
  induction ss generalizing index index' with
  | nil => exact .pure []
  | cons stmt ss ih =>
    obtain ⟨hstmt, hss⟩ := List.forall_mem_cons.mp hss
    unfold Settings.stmtValues
    refine Mirrors.bind (g := id) (.note hset.traced fun htraces _ _ _ => ?_) fun _ => ?_
    · rw [hindex htraces]
      exact Mirror.texts_refl _
    · refine (Settings.evalStmt_mirrors hset hstmt f).bind fun v => ?_
      refine (ih hss fun htraces => by rw [hindex htraces]).bind fun vs => ?_
      exact .pure (v :: vs)

omit hset in
/-- The last result of images is the image of the last result. -/
theorem lastResult_value (result : Value) (ss : List Stmt) (vs : List Value) :
    lastResult (m.value result) ss (vs.map m.value) = m.value (lastResult result ss vs) := by
  induction ss generalizing result vs with
  | nil => cases vs <;> rfl
  | cons stmt ss ih =>
    cases vs with
    | nil => rfl
    | cons v vs =>
      have hnext : nextResult (m.value result) stmt (m.value v) =
          m.value (nextResult result stmt v) := by
        cases stmt with
        | expr x => rfl
        | assign name x => cases v <;> rfl
      unfold lastResult
      rw [← ih, ← hnext]
      rfl

/-- Statements have a result and its image. -/
theorem Settings.evalStmts_mirrors {ss : List Stmt} (hss : ∀ s ∈ ss, s.WellFormed) (f : FrameId)
    (index : Nat) (result : Value) :
    Mirrors m m.value (set.evalStmts f index result ss)
      (set'.evalStmts (m.places.frames.place f) index (m.value result) ss) := by
  rw [Settings.evalStmts_eq, Settings.evalStmts_eq]
  refine (Settings.stmtValues_mirrors hset hss f fun _ => rfl).bind fun vs => ?_
  rw [lastResult_value]
  exact .pure _

/-- A program has the same result in both runs. -/
theorem Settings.evalProgram_mirrors {p : Program} (hp : p.WellFormed) (f : FrameId) :
    Mirrors m id (set.evalProgram f p) (set'.evalProgram (m.places.frames.place f) p) := by
  unfold Settings.evalProgram
  refine (Settings.evalStmts_mirrors hset hp f 0 (.number 0)).bind fun v => ?_
  cases v with
  | number x => exact .pure x
  | closure c =>
    refine .store_bind fun s t h => .throw ?_
    refine ⟨.eval (.functionAsResult (h.params_eq c)), fun hexact => ?_⟩
    obtain ⟨name, hc, hname⟩ := h.closure_eq c
    rw [hc, hname hexact]
    rfl

end

end Abacus
