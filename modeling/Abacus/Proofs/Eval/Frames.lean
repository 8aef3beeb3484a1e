import Abacus.Proofs.Eval.Evaluation
import Mathlib.Data.List.Chain

/-!
# What a run changes

Evaluating an expression only adds: frames, closures and lines of the log (`State.Extends`). A
program changes what was there before in two ways, both by its assignments: it binds their targets
in the frame in which it runs, and gives a closure that has no name the name of a target
(`State.Preserved`). `State.changes_of_eval` states both, for a program along all the single steps
of its run.
-/

namespace Abacus

/-- What stands in a list stays at its place when something is put behind. -/
theorem getElem?_later {α : Type} {xs ys : List α} (h : xs <+: ys) {i : Nat} {x : α}
    (hx : xs[i]? = some x) : ys[i]? = some x := by
  obtain ⟨hi, rfl⟩ := List.getElem?_eq_some_iff.mp hx
  exact List.prefix_iff_getElem?.mp h i hi

namespace Store

variable {s : Store}

theorem frame_eq {f : FrameId} {frame : Frame} (h : s.frames[f]? = some frame) :
    s.frame f = frame := by
  rw [Store.frame, Array.getD_eq_getD_getElem?, h, Option.getD_some]

theorem frame_missing {f : FrameId} (h : s.frames[f]? = none) : s.frame f = ⟨.empty, none⟩ := by
  rw [Store.frame, Array.getD_eq_getD_getElem?, h, Option.getD_none]

theorem closure_eq {c : ClosureId} {closure : Closure} (h : s.closures[c]? = some closure) :
    s.closure c = closure := by
  rw [Store.closure, Array.getD_eq_getD_getElem?, h, Option.getD_some]

theorem closure_missing {c : ClosureId} (h : s.closures[c]? = none) :
    s.closure c = ⟨[], .number 0, 0, none⟩ := by
  rw [Store.closure, Array.getD_eq_getD_getElem?, h, Option.getD_none]

end Store

namespace State

/-- Nothing is changed, only added. -/
structure Extends (s s' : State) : Prop where
  frames : s.store.frames.toList <+: s'.store.frames.toList
  closures : s.store.closures.toList <+: s'.store.closures.toList
  log : s.log.toList <+: s'.log.toList

theorem Extends.refl (s : State) : s.Extends s :=
  ⟨List.prefix_rfl, List.prefix_rfl, List.prefix_rfl⟩

/-- Extensions of a store can be chained. -/
theorem Extends.trans {s t u : State} (h : s.Extends t) (h' : t.Extends u) : s.Extends u :=
  ⟨h.frames.trans h'.frames, h.closures.trans h'.closures, h.log.trans h'.log⟩

/-- A step that only adds. -/
inductive Grows (s : State) : State → Prop
  | write (e : Emission) : Grows s (s.write e)
  | openFrame (frame : Frame) : Grows s (s.openFrame frame)
  | makeClosure (c : Closure) : Grows s (s.makeClosure c)

theorem Grows.extends {s s' : State} (h : Grows s s') : s.Extends s' := by
  cases h with
  | write e =>
    refine ⟨List.prefix_rfl, List.prefix_rfl, ?_⟩
    unfold State.write
    rw [Array.toList_push]
    exact List.prefix_append _ _
  | openFrame frame =>
    refine ⟨?_, List.prefix_rfl, List.prefix_rfl⟩
    unfold State.openFrame
    rw [Array.toList_push]
    exact List.prefix_append _ _
  | makeClosure c =>
    refine ⟨List.prefix_rfl, ?_, List.prefix_rfl⟩
    unfold State.makeClosure
    rw [Array.toList_push]
    exact List.prefix_append _ _

/-- A single step of a program that assigns to `names` in the frame `f`. -/
inductive Change (f : FrameId) (names : List String) (s : State) : State → Prop
  | grows {s' : State} (h : s.Grows s') : Change f names s s'
  | nameClosure {c : ClosureId} {closure : Closure} {name : String} (hname : name ∈ names)
      (hc : s.store.closures[c]? = some closure) (hnone : closure.name = none) :
      Change f names s (s.nameClosure c name)
  | bind {name : String} (v : Value) (hname : name ∈ names) :
      Change f names s (s.bind f name v)

/-- What a program that assigns to `names` in the frame `f` leaves as it is: all other frames; of
`f` its parent and the values of other names; of a closure all but its name, and the name too,
unless there was none and it is now one of `names`; and what was written. -/
structure Preserved (f : FrameId) (names : List String) (s s' : State) : Prop where
  other : ∀ {g : FrameId} {frame : Frame}, s.store.frames[g]? = some frame → g ≠ f →
    s'.store.frames[g]? = some frame
  own : ∀ {frame : Frame}, s.store.frames[f]? = some frame →
    ∃ frame', s'.store.frames[f]? = some frame' ∧ frame'.parent = frame.parent ∧
    ∀ name, name ∉ names → frame'.bindings.get? name = frame.bindings.get? name
  closure : ∀ {c : ClosureId} {closure : Closure}, s.store.closures[c]? = some closure →
    s'.store.closures[c]? = some closure ∨ closure.name = none ∧
      ∃ name ∈ names, s'.store.closures[c]? = some { closure with name := some name }
  log : s.log.toList <+: s'.log.toList

section Preserved

variable {f : FrameId} {names : List String} {s t u : State}

theorem Preserved.refl (s : State) : Preserved f names s s :=
  ⟨fun h _ => h, fun h => ⟨_, h, rfl, fun _ _ => rfl⟩, fun h => .inl h, List.prefix_rfl⟩

/-- Preservation is transitive, since names once given stay. -/
theorem Preserved.trans (h : Preserved f names s t) (h' : Preserved f names t u) :
    Preserved f names s u where
  other hg hne := h'.other (h.other hg hne) hne
  own hf := by
    obtain ⟨frame₁, hf₁, hparent₁, hnames₁⟩ := h.own hf
    obtain ⟨frame₂, hf₂, hparent₂, hnames₂⟩ := h'.own hf₁
    exact ⟨frame₂, hf₂, hparent₂.trans hparent₁,
      fun name hname => (hnames₂ name hname).trans (hnames₁ name hname)⟩
  closure hc := by
    rcases h.closure hc with hc₁ | ⟨hnone, name, hname, hc₁⟩
    · exact h'.closure hc₁
    · -- A closure that has been named keeps the name.
      rcases h'.closure hc₁ with hc₂ | ⟨hsome, -⟩
      · exact .inr ⟨hnone, name, hname, hc₂⟩
      · cases hsome
  log := h.log.trans h'.log

instance : Trans (Preserved f names) (Preserved f names) (Preserved f names) := ⟨Preserved.trans⟩

theorem getElem?_mono {α : Type} {xs ys : Array α} (h : xs.toList <+: ys.toList) {i : Nat}
    {x : α} (hx : xs[i]? = some x) : ys[i]? = some x := by
  rw [← Array.getElem?_toList] at hx ⊢
  exact getElem?_later h hx

theorem Extends.preserved (h : s.Extends t) : Preserved f names s t where
  other hg _ := getElem?_mono h.frames hg
  own hf := ⟨_, getElem?_mono h.frames hf, rfl, fun _ _ => rfl⟩
  closure hc := .inl (getElem?_mono h.closures hc)
  log := h.log

/-- To name a closure that had no name preserves everything else. -/
theorem preserved_nameClosure {c : ClosureId} {closure : Closure} {name : String}
    (hname : name ∈ names) (hc : s.store.closures[c]? = some closure)
    (hnone : closure.name = none) : Preserved f names s (s.nameClosure c name) where
  other hg _ := hg
  own hf := ⟨_, hf, rfl, fun _ _ => rfl⟩
  closure {c' closure'} hc' := by
    unfold State.nameClosure Store.nameClosure
    rw [Array.getElem?_modify]
    by_cases h : c = c'
    · subst h
      rw [hc] at hc'
      cases hc'
      exact .inr ⟨hnone, name, hname, by simp [hc, hnone]⟩
    · exact .inl (by rw [if_neg h, hc'])
  log := List.prefix_rfl

/-- To bind a target preserves all other frames and all closures. -/
theorem preserved_bind {name : String} (v : Value) (hname : name ∈ names) :
    Preserved f names s (s.bind f name v) where
  other hg hne := by
    unfold State.bind Store.bind
    rw [Array.getElem?_modify, if_neg (Ne.symm hne), hg]
  own {frame} hf := by
    refine ⟨{ frame with bindings := frame.bindings.set name v }, ?_, rfl, fun name' hname' => ?_⟩
    · unfold State.bind Store.bind
      rw [Array.getElem?_modify, if_pos rfl, hf]
      rfl
    · have hne : name' ≠ name := fun h => hname' (h ▸ hname)
      rw [Bindings.get?_set, if_neg hne]
  closure hc := .inl hc
  log := List.prefix_rfl

theorem Change.preserved (h : Change f names s t) : Preserved f names s t := by
  cases h with
  | grows h => exact h.extends.preserved
  | nameClosure hname hc hnone => exact preserved_nameClosure hname hc hnone
  | bind v hname => exact preserved_bind v hname

end Preserved

/-! ## Policies -/

open Relation (ReflTransGen)

/-- Every step is one of `step`, and nothing is asked of the states. -/
def steps (step : State → State → Prop) : Policy where
  holds _ := True
  allows := ReflTransGen step
  refl _ := .refl
  trans := ReflTransGen.trans

theorem evaluates_steps {step : State → State → Prop} (h : ∀ {s s'}, Grows s s' → step s s') :
    (steps step).Evaluates (fun _ _ => True) (fun _ _ => True) where
  valid_of_allows _ _ := trivial
  current_of_allows _ _ := trivial
  number _ _ := trivial
  lookup _ _ _ := trivial
  write e _ := ⟨trivial, .single (h (.write e))⟩
  makeClosure _ _ _ _ := ⟨trivial, .single (h (.makeClosure _)), trivial⟩
  openFrame _ _ _ := ⟨trivial, .single (h (.openFrame _)), trivial⟩

/-- Naming a closure that has a name, or that is not there, changes nothing. -/
theorem nameClosure_eq_self {s : State} {c : ClosureId} {name : String}
    (h : ∀ closure, s.store.closures[c]? = some closure → closure.name ≠ none) :
    s.nameClosure c name = s := by
  have hclosures : s.store.closures.modify c
      (fun closure => { closure with name := closure.name.or (some name) }) = s.store.closures := by
    apply Array.ext_getElem?
    intro i
    rw [Array.getElem?_modify]
    by_cases hi : c = i
    · subst hi
      rw [if_pos rfl]
      cases hc : s.store.closures[c]? with
      | none => rfl
      | some closure =>
        obtain ⟨n, hn⟩ := Option.ne_none_iff_exists'.mp (h closure hc)
        obtain ⟨params, body, frame, name⟩ := closure
        cases hn
        rfl
    · rw [if_neg hi]
  unfold State.nameClosure Store.nameClosure
  rw [hclosures]

/-- Naming a closure is a step, or nothing happens. -/
theorem nameClosure_eq_or_change {f : FrameId} {names : List String} {name : String}
    (hname : name ∈ names) (s : State) (c : ClosureId) :
    s.nameClosure c name = s ∨ Change f names s (s.nameClosure c name) := by
  by_cases h : ∃ closure, s.store.closures[c]? = some closure ∧ closure.name = none
  · obtain ⟨closure, hc, hnone⟩ := h
    exact .inr (.nameClosure hname hc hnone)
  · exact .inl (nameClosure_eq_self fun closure hc hnone => h ⟨closure, hc, hnone⟩)

theorem assigns_steps (f : FrameId) (names : List String) :
    (steps (Change f names)).Assigns (fun _ _ => True) (fun _ _ => True) f names where
  bindable_of_allows _ _ := trivial
  number _ _ := trivial
  nameClosure {s c name} _ _ hname _ := by
    refine ⟨trivial, ?_, trivial⟩
    rcases nameClosure_eq_or_change (f := f) hname s c with h | h
    · rw [h]
      exact .refl
    · exact .single h
  bind _ _ hname _ := ⟨trivial, .single (.bind _ hname)⟩

/-! ## What runs change -/

theorem extends_of_grows {s s' : State} (h : ReflTransGen Grows s s') : s.Extends s' := by
  induction h with
  | refl => exact .refl s
  | tail _ hstep ih => exact ih.trans hstep.extends

theorem extends_of_eval (set : Settings) (f : FrameId) (x : Expr) (s : State) :
    s.Extends ((set.eval f x).after s) :=
  extends_of_grows (Settings.eval_obeys (evaluates_steps id) set x trivial trivial).allows

/-- A program run is a chain of single changes, each to a target of its own. -/
theorem changes_of_evalProgram (set : Settings) (f : FrameId) (p : Program) (s : State) :
    ReflTransGen (Change f (targets p.statements)) s ((set.evalProgram f p).after s) :=
  (Settings.evalProgram_obeys (evaluates_steps .grows) (assigns_steps f _) set p (fun _ h => h)
    trivial trivial).allows

/-- From every state and in every frame, an expression only adds, whether it ends with a value or a
fault. A program passes through `moments`, each a single step behind the one before, and from each
of them to each later one everything is preserved that no assignment of the program may change: a
name that a closure has got stays, and frames other than the one in which the program runs stay as
they were opened. -/
theorem changes_of_eval :
    (∀ (set : Settings) (f : FrameId) (x : Expr) (s : State),
      s.Extends ((set.eval f x).after s)) ∧
    ∀ (set : Settings) (f : FrameId) (p : Program) (s : State), ∃ moments : List State,
      (s :: moments).getLast (List.cons_ne_nil s moments) = (set.evalProgram f p).after s ∧
      (s :: moments).IsChain (Change f (targets p.statements)) ∧
      (s :: moments).Pairwise (Preserved f (targets p.statements)) := by
  refine ⟨extends_of_eval, fun set f p s => ?_⟩
  obtain ⟨moments, hchain, hlast⟩ :=
    List.exists_isChain_cons_of_relationReflTransGen (changes_of_evalProgram set f p s)
  exact ⟨moments, hlast, hchain, (hchain.imp fun _ _ h => h.preserved).pairwise⟩

end State

end Abacus
