import Abacus.Proofs.Eval.Correspondence

/-!
# Simulations

Two runs that open their frames and make their closures at the same places have the same values, and
it is what stands at those places that may differ. A `Simulation` says how: which frames, closures,
names and expressions of a second run correspond to those of a first one. It may depend on what is
known of the frames opened so far, which is called a world here and only grows.

* `Simulation.Lawful`: what must hold of the correspondence. The laws are about one frame, one
  closure or one node of an expression.
* `Simulation.Lawful.correspondence`: from them follow the laws of the `Correspondence` of the runs.
* `Settings.evalProgram_simulates` and `Run.Simulates.start`: programs whose statements correspond
  end with the same result or with faults that correspond, and print the same.
-/

namespace Abacus

/-! ## Correspondence -/

/-- How a second run corresponds to a first one. -/
structure Simulation (World : Type) where
  /-- The second world is the first one, or what it has become. -/
  later : World → World → Prop
  /-- The world knows of so many frames. -/
  sized : World → Nat → Prop
  frames : World → FrameId → Frame → Frame → Prop
  closures : World → Closure → Closure → Prop
  /-- Names that are looked up in the frame. -/
  names : World → FrameId → String → String → Prop
  /-- Expressions that are evaluated in the frame. -/
  exprs : World → FrameId → Expr → Expr → Prop
  faults : Fault → Fault → Prop
  /-- Both programs may assign to the name. -/
  target : String → Prop

namespace Simulation

variable {World : Type} (σ : Simulation World)

/-- At each place of the stores stands what corresponds. -/
structure Stores (w : World) (s t : Store) : Prop where
  sized : σ.sized w s.frames.size
  frames_size : t.frames.size = s.frames.size
  frame : ∀ {g : FrameId} {frame frame' : Frame}, s.frames[g]? = some frame →
    t.frames[g]? = some frame' → σ.frames w g frame frame'
  closures_size : t.closures.size = s.closures.size
  closure : ∀ {c : ClosureId} {closure closure' : Closure}, s.closures[c]? = some closure →
    t.closures[c]? = some closure' → σ.closures w closure closure'

/-- The statements are both assignments to one name or both expressions, for values that
correspond. -/
inductive Stmts (w : World) (f : FrameId) : Stmt → Stmt → Prop
  | assign {name : String} {x x' : Expr} (hname : σ.target name) (hx : σ.exprs w f x x') :
      Stmts w f (.assign name x) (.assign name x')
  | expr {x x' : Expr} (hx : σ.exprs w f x x') : Stmts w f (.expr x) (.expr x')

/-- What must hold of a correspondence. -/
structure Lawful : Prop where
  refl : ∀ w, σ.later w w
  trans : ∀ {w w' w''}, σ.later w w' → σ.later w' w'' → σ.later w w''
  frames_later : ∀ {w w' g frame frame'}, σ.later w w' → σ.frames w g frame frame' →
    σ.frames w' g frame frame'
  closures_later : ∀ {w w' c c'}, σ.later w w' → σ.closures w c c' → σ.closures w' c c'
  names_later : ∀ {w w' f n n'}, σ.later w w' → σ.names w f n n' → σ.names w' f n n'
  exprs_later : ∀ {w w' f x x'}, σ.later w w' → σ.exprs w f x x' → σ.exprs w' f x x'
  /-- A place that was not given out holds the same function in both runs. -/
  missing : ∀ {w n}, σ.sized w n → σ.closures w ⟨[], .number 0, 0, none⟩ ⟨[], .number 0, 0, none⟩
  expr : ∀ {w f x x'}, σ.exprs w f x x' → Expr.Matches (σ.names w f) (σ.exprs w f)
    (fun params body params' body' =>
      σ.closures w ⟨params, body, f, none⟩ ⟨params', body', f, none⟩) x x'
  free : ∀ {w f n n'}, σ.names w f n n' → SameOrFree n n'
  get? : ∀ {w g frame frame' n n'}, σ.frames w g frame frame' → σ.names w g n n' →
    frame'.bindings.get? n' = frame.bindings.get? n
  parent : ∀ {w g frame frame'}, σ.frames w g frame frame' → frame'.parent = frame.parent
  /-- Names that a frame does not bind are looked up in the frame above it. -/
  above : ∀ {w g frame frame' p n n'}, σ.frames w g frame frame' → frame.parent = some p →
    frame.bindings.get? n = none → σ.names w g n n' → σ.names w p n n'
  params : ∀ {w c c'}, σ.closures w c c' → List.Forall₂ SameOrFree c.params c'.params
  closure_name : ∀ {w c c'}, σ.closures w c c' → c'.name = c.name
  named : ∀ {w c c'} name, σ.closures w c c' → σ.closures w { c with name } { c' with name }
  /-- A call opens frames in which the bodies correspond. -/
  opened : ∀ {w c c' n} {args : List Value}, σ.closures w c c' → args.length = c.arity →
    σ.sized w n → ∃ w', σ.later w w' ∧ σ.sized w' (n + 1) ∧
      σ.frames w' n ⟨.ofList (c.params.zip args), some c.frame⟩
        ⟨.ofList (c'.params.zip args), some c'.frame⟩ ∧ σ.exprs w' n c.body c'.body
  bind : ∀ {w n frame frame'} v, σ.target n → σ.frames w Store.root frame frame' →
    σ.frames w Store.root { frame with bindings := frame.bindings.set n v }
      { frame' with bindings := frame'.bindings.set n v }
  faults_refl : ∀ e, σ.faults e e
  undefinedVariable : ∀ {w f n n'}, σ.names w f n n' →
    σ.faults (.eval (.undefinedVariable n)) (.eval (.undefinedVariable n'))
  unknownFunction : ∀ {w f n n'}, σ.names w f n n' →
    σ.faults (.eval (.unknownFunction n)) (.eval (.unknownFunction n'))
  arityMismatch : ∀ {w f c c' n n'} expected got, σ.closures w c c' → σ.names w f n n' →
    σ.faults (.eval (.arityMismatch (c.label (some n)) expected got false))
      (.eval (.arityMismatch (c'.label (some n')) expected got false))
  notNumber : ∀ {w c c'} place, σ.closures w c c' →
    σ.faults (Run.notNumber place c) (Run.notNumber place c')
  asResult : ∀ {w c c'}, σ.closures w c c' →
    σ.faults (.eval (.functionAsResult c.shown c.name))
      (.eval (.functionAsResult c'.shown c'.name))

variable {σ} (hσ : σ.Lawful) {w w' : World} {s t : Store}
include hσ

/-! ## Looking at stores that correspond -/

omit hσ in
theorem Stores.frame_at (h : σ.Stores w s t) {f : FrameId} (hf : f < s.frames.size) :
    σ.frames w f (s.frame f) (t.frame f) := by
  have hs := Array.getElem?_eq_getElem hf
  have ht := Array.getElem?_eq_getElem (h.frames_size ▸ hf : f < t.frames.size)
  rw [Store.frame_eq hs, Store.frame_eq ht]
  exact h.frame hs ht

/-- The searches take the same way: what the frames on it bind are names that correspond. -/
theorem Stores.lookup_eq (h : σ.Stores w s t) {f : FrameId} {n n' : String}
    (hn : σ.names w f n n') : t.lookup f n' = s.lookup f n := by
  rw [Store.lookup, Store.lookup]
  by_cases hf : f < s.frames.size
  · have hframe := h.frame_at hf
    rw [hσ.get? hframe hn, hσ.parent hframe]
    cases hget : (s.frame f).bindings.get? n with
    | some v => rfl
    | none =>
      cases hp : (s.frame f).parent with
      | none => rfl
      | some p =>
        dsimp only
        by_cases hlt : p < f
        · rw [if_pos hlt, if_pos hlt]
          exact h.lookup_eq (hσ.above hframe hp hget hn)
        · rw [if_neg hlt, if_neg hlt]
  · have hf' : ¬ f < t.frames.size := by rwa [h.frames_size]
    rw [Store.frame_missing (Array.getElem?_eq_none (Nat.le_of_not_lt hf)),
      Store.frame_missing (Array.getElem?_eq_none (Nat.le_of_not_lt hf'))]
    rfl
termination_by f

theorem Stores.closure_at (h : σ.Stores w s t) (c : ClosureId) :
    σ.closures w (s.closure c) (t.closure c) := by
  by_cases hc : c < s.closures.size
  · have hc' : c < t.closures.size := by rwa [h.closures_size]
    have hs := Array.getElem?_eq_getElem hc
    have ht := Array.getElem?_eq_getElem hc'
    rw [Store.closure_eq hs, Store.closure_eq ht]
    exact h.closure hs ht
  · have hc' : ¬ c < t.closures.size := by rwa [h.closures_size]
    rw [Store.closure_missing (Array.getElem?_eq_none (Nat.le_of_not_lt hc)),
      Store.closure_missing (Array.getElem?_eq_none (Nat.le_of_not_lt hc'))]
    exact hσ.missing h.sized

theorem Stores.arity_eq (h : σ.Stores w s t) (c : ClosureId) :
    (t.closure c).arity = (s.closure c).arity :=
  (hσ.params (h.closure_at hσ c)).length_eq.symm

/-! ## What becomes of stores that correspond -/

omit hσ in
/-- A closure added on both sides keeps the stores in step. -/
theorem Stores.push_closure (h : σ.Stores w s t) {c c' : Closure} (hc : σ.closures w c c') :
    σ.Stores w { s with closures := s.closures.push c }
      { t with closures := t.closures.push c' } where
  sized := h.sized
  frames_size := h.frames_size
  frame := h.frame
  closures_size := by rw [Array.size_push, Array.size_push, h.closures_size]
  closure {i closure closure'} hi hi' := by
    rw [Array.getElem?_push] at hi hi'
    rw [h.closures_size] at hi'
    split at hi
    · rename_i hnew
      rw [if_pos hnew] at hi'
      cases hi
      cases hi'
      exact hc
    · rename_i hold
      rw [if_neg hold] at hi'
      exact h.closure hi hi'

/-- So does a frame, in the world that knows it. -/
theorem Stores.push_frame (h : σ.Stores w s t) (hw : σ.later w w') {frame frame' : Frame}
    (hsized : σ.sized w' (s.frames.size + 1)) (hf : σ.frames w' s.frames.size frame frame') :
    σ.Stores w' { s with frames := s.frames.push frame }
      { t with frames := t.frames.push frame' } where
  sized := by rwa [Array.size_push]
  frames_size := by rw [Array.size_push, Array.size_push, h.frames_size]
  frame {g frame₁ frame₁'} hg hg' := by
    rw [Array.getElem?_push] at hg hg'
    rw [h.frames_size] at hg'
    split at hg
    · rename_i hnew
      rw [if_pos hnew] at hg'
      cases hg
      cases hg'
      rw [hnew]
      exact hf
    · rename_i hold
      rw [if_neg hold] at hg'
      exact hσ.frames_later hw (h.frame hg hg')
  closures_size := h.closures_size
  closure hc hc' := hσ.closures_later hw (h.closure hc hc')

theorem Stores.nameClosure (h : σ.Stores w s t) (c : ClosureId) (name : String) :
    σ.Stores w (s.nameClosure c name) (t.nameClosure c name) where
  sized := h.sized
  frames_size := h.frames_size
  frame := h.frame
  closures_size := by
    unfold Store.nameClosure
    rw [Array.size_modify, Array.size_modify, h.closures_size]
  closure {i closure closure'} hi hi' := by
    unfold Store.nameClosure at hi hi'
    rw [Array.getElem?_modify] at hi hi'
    split at hi
    · rename_i heq
      rw [if_pos heq] at hi'
      obtain ⟨c₁, hc₁, rfl⟩ := Option.map_eq_some_iff.mp hi
      obtain ⟨c₂, hc₂, rfl⟩ := Option.map_eq_some_iff.mp hi'
      have hc := h.closure hc₁ hc₂
      rw [hσ.closure_name hc]
      exact hσ.named _ hc
    · rename_i hne
      rw [if_neg hne] at hi'
      exact h.closure hi hi'

theorem Stores.bind (h : σ.Stores w s t) {name : String} (hname : σ.target name) (v : Value) :
    σ.Stores w (s.bind Store.root name v) (t.bind Store.root name v) where
  sized := by
    unfold Store.bind
    rw [Array.size_modify]
    exact h.sized
  frames_size := by
    unfold Store.bind
    rw [Array.size_modify, Array.size_modify, h.frames_size]
  frame {g frame frame'} hg hg' := by
    unfold Store.bind at hg hg'
    rw [Array.getElem?_modify] at hg hg'
    split at hg
    · rename_i heq
      rw [if_pos heq] at hg'
      obtain ⟨frame₁, hframe₁, rfl⟩ := Option.map_eq_some_iff.mp hg
      obtain ⟨frame₂, hframe₂, rfl⟩ := Option.map_eq_some_iff.mp hg'
      subst heq
      exact hσ.bind v hname (h.frame hframe₁ hframe₂)
    · rename_i hne
      rw [if_neg hne] at hg'
      exact h.frame hg hg'
  closures_size := h.closures_size
  closure := h.closure


end Simulation

/-! ## The runs -/

namespace Simulation

variable {World : Type} (σ : Simulation World)

/-- Frames and closures are at the same places. -/
def correspondence : Correspondence World where
  later := σ.later
  stores := σ.Stores
  closures _ c c' := c' = c
  names w f f' n n' := f' = f ∧ σ.names w f n n'
  exprs w f f' x x' := f' = f ∧ σ.exprs w f x x'
  faults := σ.faults

variable {σ} {w : World}

/-- A lawful simulation of stores is a lawful correspondence of runs. -/
theorem Lawful.correspondence (hσ : σ.Lawful) : σ.correspondence.Lawful where
  refl := hσ.refl
  trans := hσ.trans
  closures_later _ h := h
  names_later hw h := ⟨h.1, hσ.names_later hw h.2⟩
  exprs_later hw h := ⟨h.1, hσ.exprs_later hw h.2⟩
  -- The frames of the two runs correspond by being the same, so every law is the one of the
  -- frame-preserving simulation with that equation substituted.
  expr := fun ⟨hf, h⟩ => by
    subst hf
    refine .inr ?_
    cases hσ.expr h with
    | number v => exact .number v
    | var hn => exact .var ⟨rfl, hn⟩
    | unary hx => exact .unary ⟨rfl, hx⟩
    | binary hx hy => exact .binary ⟨rfl, hx⟩ ⟨rfl, hy⟩
    | conditional hc ht he => exact .conditional ⟨rfl, hc⟩ ⟨rfl, ht⟩ ⟨rfl, he⟩
    | call hn hargs => exact .call ⟨rfl, hn⟩ (hargs.imp fun _ _ hx => ⟨rfl, hx⟩)
    | lambda hc => exact .lambda (hσ.params hc)
  free h := hσ.free h.2
  lookup := fun {w s t f f' n n'} h ⟨hf, hn⟩ => by
    subst hf
    rw [h.lookup_eq hσ hn]
    cases s.lookup f' n with
    | none => exact .none
    | some v => exact .some (Correspondence.values_refl (fun _ => rfl) v)
  made := fun {w s t f f' params params' body body'} h ⟨hf, hx⟩ => by
    subst hf
    cases hσ.expr hx with
    | lambda hc => exact ⟨w, hσ.refl w, h.push_closure hc, h.closures_size⟩
  arity := fun {w s t c c'} h hc => by
    subst hc
    exact h.arity_eq hσ c'
  opened := fun {w s t c c' args args'} h hc hargs harity => by
    subst hc
    -- The opened frame stands behind all others in both stores.
    rw [Correspondence.eq_of_forall₂_values id hargs, h.frames_size]
    obtain ⟨w', hw, hsized, hframe, hbody⟩ := hσ.opened (h.closure_at hσ c') harity h.sized
    exact ⟨w', hw, h.push_frame hσ hw hsized hframe, rfl, hbody⟩
  faults_refl := hσ.faults_refl
  undefinedVariable h := hσ.undefinedVariable h.2
  unknownFunction h := hσ.unknownFunction h.2
  arityMismatch := fun {w s t c c' f f' n n'} expected got h hc hn => by
    subst hc
    exact hσ.arityMismatch expected got (h.closure_at hσ c') hn.2
  notNumber := fun {w s t c c'} place h hc => by
    subst hc
    exact hσ.notNumber place (h.closure_at hσ c')

theorem Lawful.assigns (hσ : σ.Lawful) : σ.correspondence.Assigns σ.target where
  nameClosure name h hc := by
    subst hc
    exact h.nameClosure hσ _ name
  bind hname h hv := by
    rw [Correspondence.eq_of_values id hv]
    exact h.bind hσ hname _
  asResult := fun {w s t c c'} h hc => by
    subst hc
    exact hσ.asResult (h.closure_at hσ c')

end Simulation

/-- From states that correspond, the second run does what the first one does. -/
def Run.Simulates {World α : Type} (σ : Simulation World) (w : World) (run run' : Run α) : Prop :=
  Run.Corresponds σ.correspondence w (fun _ a b => a = b) run run'

section

variable {World α : Type} {σ : Simulation World} {w : World}

/-- What two runs come to that are started on stores that correspond. -/
theorem Run.Simulates.start {run run' : Run α} (h : Simulates σ w run run') {s t : Store}
    (hst : σ.Stores w s t) :
    ∃ w', σ.Stores w' (run.start s).store (run'.start t).store ∧
      printedTexts (run'.start t).log = printedTexts (run.start s).log ∧
      ((∃ a, (run.start s).result = .ok a ∧ (run'.start t).result = .ok a) ∨
        ∃ e e', σ.faults e e' ∧ (run.start s).result = .error e ∧
          (run'.start t).result = .error e') := by
  obtain ⟨w', -, hstores, hprinted, hresult⟩ := Run.Corresponds.start h hst
  refine ⟨w', hstores, hprinted, hresult.imp_left ?_⟩
  rintro ⟨a, b, ha, hb, rfl⟩
  exact ⟨a, ha, hb⟩

/-- Programs whose statements correspond do the same. -/
theorem Settings.evalProgram_simulates (hσ : σ.Lawful) (set : Settings) {p p' : Program}
    (h : List.Forall₂ (σ.Stmts w Store.root) p.statements p'.statements) :
    Run.Simulates σ w (set.evalProgram Store.root p) (set.evalProgram Store.root p') := by
  refine Settings.evalProgram_corresponds hσ.correspondence hσ.assigns set (h.imp fun _ _ hs => ?_)
  cases hs with
  | assign hname hx => exact .assign hname ⟨rfl, hx⟩
  | expr hx => exact .expr ⟨rfl, hx⟩

end

end Abacus
