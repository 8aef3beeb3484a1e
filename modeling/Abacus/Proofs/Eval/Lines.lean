import Abacus.Proofs.Eval.Formed
import Abacus.Proofs.Program.Lines

/-!
# Lines of a run

A traced run writes lines about itself between the lines that the program prints. Each of them is a
whole line that can be told from what is printed (`Emission.IsLine`), since all that it shows can be
written: the names of functions, of their parameters and in their bodies (`Store.Wordy`). A run that
is not traced writes nothing but what is printed.

* `Run.KeepsLines`: a run that starts where only lines have been written leaves only lines. Names
  that are shown come from the store, so that it also keeps them such that they can be written.
* `Settings.evalProgram_keepsLines`: programs do, by an induction on how deep calls may still be
  nested, and for each depth one on the expression.
* `Store.wordy_of_callClosure`: a call under any name may break its line, but names in the store can
  still be written behind it.
-/

namespace Abacus

/-! ## Names in a store -/

/-- The names of a function, of its parameters and in its body can be written. -/
structure Closure.Wordy (c : Closure) : Prop where
  name : ∀ name, c.name = some name → IsWord name
  params : ∀ p ∈ c.params, IsName p
  body : c.body.WellFormed

namespace Store

/-- The names of all functions can be written. -/
def Wordy (s : Store) : Prop :=
  ∀ (c : ClosureId) (closure : Closure), s.closures[c]? = some closure → closure.Wordy

variable {s t : Store}

theorem wordy_initial : initial.Wordy := fun _ _ hc => by cases hc

/-- The functions of a wordy store are wordy, and so is what stands at a place that was not given
out. -/
theorem Wordy.closure (hs : s.Wordy) (c : ClosureId) : (s.closure c).Wordy :=
  closure_of (P := Closure.Wordy) (hs _ _)
    ⟨fun _ h => (by cases h), fun _ h => (by cases h), (by simp [Expr.WellFormed])⟩ c

theorem Wordy.of_closures (hs : s.Wordy) (h : t.closures = s.closures) : t.Wordy :=
  fun c closure hc => hs c closure (h ▸ hc)

/-- A wordy function may be added. -/
theorem Wordy.addClosure (hs : s.Wordy) {closure : Closure} (h : closure.Wordy) :
    Wordy { s with closures := s.closures.push closure } := by
  intro i closure' hi
  rw [Array.getElem?_push] at hi
  split at hi
  · cases hi
    exact h
  · exact hs _ _ hi

/-- A word may be given as a name to a function without one. -/
theorem Wordy.nameClosure (hs : s.Wordy) (c : ClosureId) {name : String} (hname : IsWord name) :
    (s.nameClosure c name).Wordy := by
  intro i closure' hi
  unfold Store.nameClosure at hi
  rw [Array.getElem?_modify] at hi
  split at hi
  · obtain ⟨closure, hclosure, rfl⟩ := Option.map_eq_some_iff.mp hi
    obtain ⟨hold, hparams, hbody⟩ := hs _ _ hclosure
    refine ⟨fun name' hname' => ?_, hparams, hbody⟩
    cases hnone : closure.name with
    | none =>
      rw [hnone] at hname'
      cases hname'
      exact hname
    | some old =>
      rw [hnone] at hname'
      cases hname'
      exact hold _ hnone
  · exact hs _ _ hi

/-- Names of functions can be written, whatever happens. -/
def wording : Policy where
  holds s := s.store.Wordy
  allows _ _ := True
  refl _ := trivial
  trans _ _ := trivial

/-- Every evaluation of a well-formed program keeps the store wordy. -/
theorem guides_wording : wording.Guides (fun _ _ => True) fun _ _ x => x.WellFormed where
  valid_of_allows _ _ := trivial
  ready_of_allows _ hx := hx
  ready_part := wellFormed_parts
  number _ _ := trivial
  lookup _ _ _ := trivial
  write _ hs := ⟨hs, trivial⟩
  makeClosure hs hx _ := by
    unfold Expr.WellFormed at hx
    exact ⟨Wordy.addClosure hs ⟨fun _ h => (by cases h), hx.1, hx.2⟩, trivial, trivial⟩
  openFrame {s c args} hs _ _ _ :=
    ⟨Wordy.of_closures hs rfl, trivial, (Wordy.closure hs c).body⟩

theorem wordy_of_callClosure (traced : Bool) (limit : Nat) (c : ClosureId) (args : List Value)
    (name : Option String) {s : State} (hs : s.store.Wordy) :
    ((callClosure traced limit c args name).after s).store.Wordy :=
  (callClosure_guided guides_wording traced limit hs trivial fun _ _ => trivial).holds

end Store

/-! ## What is shown of functions -/

/-- A label is free of line breaks if the label of a function without a name is. -/
theorem Closure.unbroken_labelOr {fallback : String} (hfallback : Unbroken fallback)
    {name : Option String} (hname : ∀ n, name = some n → IsWord n) :
    Unbroken (labelOr fallback name) := by
  unfold labelOr
  cases name with
  | none => exact hfallback
  | some n =>
    dsimp only
    split
    · exact hfallback
    · exact (hname n rfl).unbroken

namespace Closure.Wordy

variable {c : Closure}

theorem unbroken_ownLabel (hc : c.Wordy) : Unbroken (labelOr "lambda" c.name) :=
  unbroken_labelOr (by decide) hc.name

theorem unbroken_label (hc : c.Wordy) {name : Option String}
    (hname : ∀ n, name = some n → IsWord n) : Unbroken (c.label name) :=
  unbroken_labelOr hc.unbroken_ownLabel hname

/-- What is shown of a wordy function has no line break. -/
theorem unbroken_shown (hc : c.Wordy) : Unbroken c.shown := by
  have hparams := unbroken_commas fun p hp => (hc.params p hp).1.unbroken
  unfold Closure.shown
  simp only [unbroken_append, hc.unbroken_ownLabel, hparams, and_true]
  decide

end Closure.Wordy

namespace Store.Wordy

variable {s : Store}

/-- What is shown of a value has no line break, since the store is wordy. -/
theorem unbroken_shown (hs : s.Wordy) (v : Value) : Unbroken (s.shown v) := by
  cases v with
  | number x => exact unbroken_text x
  | closure c => exact (hs.closure c).unbroken_shown

theorem unbroken_shownList (hs : s.Wordy) (vs : List Value) : Unbroken (s.shownList vs) := by
  refine unbroken_commas ?_
  rw [List.forall_mem_map]
  exact fun v _ => hs.unbroken_shown v

end Store.Wordy

/-! ## Lines in the log -/

/-- What a run may write: the numbers that it prints, each on a line, and lines of a trace if it is
traced. -/
inductive Emission.IsLine (tracing : Bool) : Emission → Prop
  | printed (x : Float) : IsLine tracing (.printed (Number.plain x ++ "\n"))
  | traced {line : String} (htracing : tracing) (h : TraceLine line) :
      IsLine tracing (.traced line)

/-- The names of functions can be written, and only lines have been written so far. -/
structure State.Lined (tracing : Bool) (s : State) : Prop where
  wordy : s.store.Wordy
  lines : ∀ e ∈ s.log.toList, e.IsLine tracing

/-- One more line may be written. -/
theorem State.Lined.write {tracing : Bool} {s : State} (h : s.Lined tracing) {e : Emission}
    (he : e.IsLine tracing) : (s.write e).Lined tracing where
  wordy := h.wordy
  lines := by
    unfold State.write
    rw [Array.toList_push, List.forall_mem_append]
    exact ⟨h.lines, List.forall_mem_singleton.mpr he⟩

namespace Run

variable {α β : Type} {tracing : Bool}

/-- The run writes only lines. -/
def KeepsLines (tracing : Bool) (run : Run α) : Prop :=
  ∀ s, s.Lined tracing → (run.after s).Lined tracing

namespace KeepsLines

theorem pure (a : α) : KeepsLines tracing (Pure.pure a) := fun _ h => h

theorem throw (e : Fault) : KeepsLines tracing (MonadExcept.throw e : Run α) := fun _ h => h

theorem fail (e : EvalError) : KeepsLines tracing (Run.fail e : Run α) := fun _ h => h

/-- Steps in a row keep the lines if each of them does. -/
theorem bind {x : Run α} {k : α → Run β} (hx : KeepsLines tracing x)
    (hk : ∀ a, KeepsLines tracing (k a)) : KeepsLines tracing (x >>= k) := by
  intro s h
  have hafter := hx s h
  unfold Run.after at hafter ⊢
  rw [on_bind]
  generalize x.on s = ends at hafter
  obtain ⟨r, t⟩ := ends
  cases r with
  | ok a => exact hk a t hafter
  | error e => exact hafter

/-- A step that looks at the store may rely on it being wordy. -/
theorem store_bind {k : Store → Run α} (hk : ∀ s : Store, s.Wordy → KeepsLines tracing (k s)) :
    KeepsLines tracing (Run.store >>= k) := by
  intro s h
  unfold Run.after
  rw [on_store_bind]
  exact hk s.store h.wordy s h

theorem update {f : Store → Store} (hf : ∀ s : Store, s.Wordy → (f s).Wordy) :
    KeepsLines tracing (Run.update f) := fun s h => ⟨hf s.store h.wordy, h.lines⟩

theorem add {f : Store → Nat × Store} (hf : ∀ s : Store, s.Wordy → (f s).2.Wordy) :
    KeepsLines tracing (Run.add f) := fun s h => ⟨hf s.store h.wordy, h.lines⟩

theorem emit {e : Emission} (he : e.IsLine tracing) : KeepsLines tracing (Run.emit e) :=
  fun _ h => h.write he

/-- The mark stands before a text that is not broken. -/
theorem note {line : Store → String} (hline : ∀ s : Store, s.Wordy → Unbroken (line s)) :
    KeepsLines tracing (Run.note tracing line) := by
  unfold Run.note
  split
  · rename_i htracing
    refine .store_bind fun s hs => .emit (.traced htracing ⟨?_, ?_⟩)
    · exact isMarked_append _ (by decide)
    · exact unbroken_append.mpr ⟨by decide, hline s hs⟩
  · exact .pure ()

end KeepsLines

end Run

/-! ## Runs of a few steps -/

section

open Run (KeepsLines)

variable {tracing : Bool}

theorem keepsLines_ensureFree (name : String) : KeepsLines tracing (Run.ensureFree name) := by
  unfold Run.ensureFree
  split
  · exact .fail _
  · exact .pure ()

theorem keepsLines_ensureFree_all (params : List String) :
    KeepsLines tracing (params.forM Run.ensureFree) := by
  induction params with
  | nil => exact .pure ()
  | cons p ps ih => exact (keepsLines_ensureFree p).bind fun _ => ih

theorem keepsLines_toNumber (place : String) (v : Value) :
    KeepsLines tracing (Run.toNumber place v) := by
  cases v with
  | number x => exact .pure x
  | closure c => exact .store_bind fun _ _ => .fail _

theorem keepsLines_ofEval {α : Type} (r : Except EvalError α) :
    KeepsLines tracing (Run.ofEval r) := by
  cases r with
  | ok a => exact .pure a
  | error e => exact .fail e

/-- A number is printed on a line of its own. -/
theorem Builtin.isLine_printed {b : Builtin} {args : List Float} {text : String}
    (h : b.printed? args = some text) : (Emission.printed text).IsLine tracing := by
  unfold printed? at h
  split at h
  · cases h
    exact .printed _
  · cases h

/-- What a built-in function prints is a line of its own. -/
theorem keepsLines_builtin (b : Builtin) (args : List Float) :
    KeepsLines tracing (Run.builtin b args) := by
  unfold Run.builtin
  split
  · exact .throw _
  · dsimp only
    split
    · rename_i text htext
      exact (KeepsLines.emit (b.isLine_printed htext)).bind fun _ => .pure _
    · exact .pure _

theorem keepsLines_evalVariable (f : FrameId) (name : String) :
    KeepsLines tracing (evalVariable f name) := by
  unfold evalVariable
  split
  · exact .pure _
  · refine .store_bind fun s _ => ?_
    split
    · exact .pure _
    · exact .fail _

theorem keepsLines_findFunction (f : FrameId) (name : String) :
    KeepsLines tracing (findFunction f name) := by
  unfold findFunction
  refine .store_bind fun s _ => ?_
  split
  · exact .pure _
  · exact .fail _

/-- A function whose parameters are names and whose body is well-formed is a wordy one. -/
theorem keepsLines_evalLambda (f : FrameId) {params : List String} {body : Expr}
    (hparams : ∀ p ∈ params, IsName p) (hbody : body.WellFormed) :
    KeepsLines tracing (evalLambda f params body) := by
  unfold evalLambda
  refine (keepsLines_ensureFree_all params).bind fun _ => ?_
  refine KeepsLines.bind (.add fun s hs => ?_) fun c => .pure _
  exact hs.addClosure ⟨fun _ h => (by cases h), hparams, hbody⟩

/-! ## Expressions -/

/-- A call by name writes only lines, of whatever closure and with whatever values. -/
def Caller.KeepsLines (tracing : Bool) (call : Caller) : Prop :=
  ∀ (c : ClosureId) (args : List Value) (name : String), IsName name →
    Run.KeepsLines tracing (call c args (some name))

/-- The line of a call of a built-in function has no line break inside. -/
theorem unbroken_builtinLine {name : String} (hname : Unbroken name) (xs : List Float) :
    Unbroken ("  builtin " ++ name ++ "(" ++ ", ".intercalate (xs.map Number.text) ++ ")") := by
  have hargs : Unbroken (", ".intercalate (xs.map Number.text)) := by
    refine unbroken_commas ?_
    rw [List.forall_mem_map]
    exact fun x _ => unbroken_text x
  simp only [unbroken_append, hname, hargs, and_true]
  decide

variable {call : Caller}

mutual

/-- Evaluating a well-formed expression keeps the lines, if calls do. -/
theorem Expr.eval_keepsLines (hcall : Caller.KeepsLines tracing call) : (x : Expr) →
    x.WellFormed → (f : FrameId) → KeepsLines tracing (x.eval call tracing f)
  | .number x, _, _ => by
    unfold eval
    exact .pure _
  | .var name, _, f => by
    unfold eval
    exact keepsLines_evalVariable f name
  | .unary op x, hx, f => by
    unfold eval
    unfold Expr.WellFormed at hx
    refine (Expr.eval_keepsLines hcall x hx f).bind fun v => ?_
    exact (keepsLines_toNumber _ v).bind fun a => .pure _
  | .binary op x y, hx, f => by
    unfold eval
    unfold Expr.WellFormed at hx
    refine (Expr.eval_keepsLines hcall x hx.1 f).bind fun v => ?_
    refine (keepsLines_toNumber _ v).bind fun a => ?_
    -- A second operand that is not needed writes nothing.
    split
    · exact .pure _
    · refine (Expr.eval_keepsLines hcall y hx.2 f).bind fun w => ?_
      refine (keepsLines_toNumber _ w).bind fun b => ?_
      exact (keepsLines_ofEval _).bind fun z => .pure _
  | .conditional c t e, hx, f => by
    unfold eval
    unfold Expr.WellFormed at hx
    refine (Expr.eval_keepsLines hcall c hx.1 f).bind fun v => ?_
    refine (keepsLines_toNumber _ v).bind fun a => ?_
    split
    · exact Expr.eval_keepsLines hcall t hx.2.1 f
    · exact Expr.eval_keepsLines hcall e hx.2.2 f
  | .call name args, hx, f => by
    unfold eval
    unfold Expr.WellFormed at hx
    -- A built-in function writes the line of its call itself; for other functions the call does.
    split
    · refine (Expr.evalNumbers_keepsLines hcall args hx.2 f name).bind fun xs => ?_
      have hnote := fun (s : Store) (_ : s.Wordy) => unbroken_builtinLine hx.1.1.unbroken xs
      exact (KeepsLines.note hnote).bind fun _ =>
        (keepsLines_builtin _ xs).bind fun z => .pure _
    · refine (keepsLines_findFunction f name).bind fun c => ?_
      refine (Expr.evalList_keepsLines hcall args hx.2 f).bind fun vs => ?_
      exact hcall c vs name hx.1
  | .lambda params body, hx, f => by
    unfold eval
    unfold Expr.WellFormed at hx
    exact keepsLines_evalLambda f hx.1 hx.2

theorem Expr.evalList_keepsLines (hcall : Caller.KeepsLines tracing call) : (xs : List Expr) →
    Expr.WellFormedList xs → (f : FrameId) → KeepsLines tracing (Expr.evalList call tracing f xs)
  | [], _, _ => by
    unfold evalList
    exact .pure []
  | x :: xs, hxs, f => by
    unfold evalList
    unfold Expr.WellFormedList at hxs
    refine (Expr.eval_keepsLines hcall x hxs.1 f).bind fun v => ?_
    exact (Expr.evalList_keepsLines hcall xs hxs.2 f).bind fun vs => .pure (v :: vs)

theorem Expr.evalNumbers_keepsLines (hcall : Caller.KeepsLines tracing call) :
    (xs : List Expr) → Expr.WellFormedList xs → (f : FrameId) → (place : String) →
    KeepsLines tracing (Expr.evalNumbers call tracing f place xs)
  | [], _, _, _ => by
    unfold evalNumbers
    exact .pure []
  | x :: xs, hxs, f, place => by
    unfold evalNumbers
    unfold Expr.WellFormedList at hxs
    refine (Expr.eval_keepsLines hcall x hxs.1 f).bind fun v => ?_
    refine (keepsLines_toNumber place v).bind fun a => ?_
    exact (Expr.evalNumbers_keepsLines hcall xs hxs.2 f place).bind fun as => .pure (a :: as)

end

/-! ## Calls -/

/-- A call writes its label and its arguments into one line. -/
theorem keepsLines_openCall (closure : Closure) (args : List Value) {label : String}
    (hlabel : Unbroken label) : KeepsLines tracing (openCall tracing closure args label) := by
  unfold openCall
  refine KeepsLines.bind (.add fun s hs => hs.of_closures rfl) fun g => ?_
  refine KeepsLines.bind (.note fun s hs => ?_) fun _ => .pure g
  simp only [unbroken_append, hlabel, hs.unbroken_shownList args, unbroken_nat, and_true]
  decide

/-- A call of any depth writes only lines: the names in the body of a function can be written. -/
theorem callClosure_keepsLines (limit : Nat) :
    Caller.KeepsLines tracing (callClosure tracing limit) := by
  induction limit with
  | zero =>
    intro c args name _ s h
    unfold Run.after
    by_cases harity : args.length = (s.store.closure c).arity
    · rwa [on_callClosure_zero harity]
    · rwa [on_callClosure_arity harity]
  | succ limit ih =>
    intro c args name hname s h
    by_cases harity : args.length = (s.store.closure c).arity
    · have hc := h.wordy.closure c
      have hlabel : Unbroken ((s.store.closure c).label (some name)) :=
        hc.unbroken_label fun n hn => by cases hn; exact hname.1
      unfold Run.after
      rw [on_callClosure_succ harity]
      exact (keepsLines_openCall _ args hlabel).bind
        (fun g => Expr.eval_keepsLines ih _ hc.body g) s h
    · unfold Run.after
      rwa [on_callClosure_arity harity]

/-! ## Statements and programs -/

variable {set : Settings}

/-- The same with the calls as they are. -/
theorem Settings.eval_keepsLines {x : Expr} (hx : x.WellFormed) (f : FrameId) :
    KeepsLines set.traceRun (set.eval f x) :=
  Expr.eval_keepsLines (callClosure_keepsLines set.limit) x hx f

theorem Settings.evalNumber_keepsLines {x : Expr} (hx : x.WellFormed) (f : FrameId) :
    KeepsLines set.traceRun (set.evalNumber f x) :=
  (Settings.eval_keepsLines hx f).bind fun v => keepsLines_toNumber _ v

/-- A word as a name keeps the store wordy, whatever function it is given to. -/
theorem keepsLines_nameValue {name : String} (hname : IsWord name) (v : Value) :
    KeepsLines tracing (nameValue name v) := by
  cases v with
  | number x => exact .pure ()
  | closure c => exact .update fun s hs => hs.nameClosure c hname

/-- Running a well-formed statement keeps the lines. -/
theorem Settings.evalStmt_keepsLines {stmt : Stmt} (hstmt : stmt.WellFormed) (f : FrameId) :
    KeepsLines set.traceRun (set.evalStmt f stmt) := by
  cases stmt with
  | expr x => exact Settings.eval_keepsLines hstmt f
  | assign name x =>
    unfold Settings.evalStmt
    refine (Settings.eval_keepsLines hstmt.2.2 f).bind fun v => ?_
    refine (keepsLines_ensureFree name).bind fun _ => ?_
    refine (keepsLines_nameValue hstmt.1 v).bind fun _ => ?_
    refine KeepsLines.bind (.note fun s hs => ?_) fun _ => ?_
    · simp only [unbroken_append, hstmt.1.unbroken, hs.unbroken_shown v, unbroken_nat, and_true]
      decide
    · exact KeepsLines.bind (.update fun s hs => hs.of_closures rfl) fun _ => .pure v

/-- Running well-formed statements keeps the lines. -/
theorem Settings.evalStmts_keepsLines {ss : List Stmt} (hss : ∀ s ∈ ss, s.WellFormed) (f : FrameId)
    (index : Nat) (result : Value) :
    KeepsLines set.traceRun (set.evalStmts f index result ss) := by
  induction ss generalizing index result with
  | nil => exact .pure result
  | cons stmt ss ih =>
    obtain ⟨hstmt, hss⟩ := List.forall_mem_cons.mp hss
    unfold Settings.evalStmts
    refine KeepsLines.bind (.note fun s _ => ?_) fun _ => ?_
    · simp only [unbroken_append, unbroken_nat, Stmt.unbroken_outline hstmt, and_true]
      decide
    · exact (Settings.evalStmt_keepsLines hstmt f).bind fun v => ih hss _ _

/-- A program writes only the numbers that it prints and, if it is traced, lines of the trace. -/
theorem Settings.evalProgram_keepsLines {p : Program} (hp : p.WellFormed) (f : FrameId) :
    KeepsLines set.traceRun (set.evalProgram f p) := by
  unfold Settings.evalProgram
  refine (Settings.evalStmts_keepsLines hp f 0 (.number 0)).bind fun v => ?_
  cases v with
  | number x => exact .pure x
  | closure c => exact .store_bind fun s _ => .fail _

end

end Abacus
