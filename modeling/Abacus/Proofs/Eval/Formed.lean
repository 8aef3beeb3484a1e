import Abacus.Eval.Reply
import Abacus.Proofs.Eval.Evaluation
import Abacus.Proofs.Eval.Frames
import Abacus.Proofs.Program.WellFormed

/-!
# Well-formed stores

What runs rely on without looking: a frame hangs off an older one, a closure was made in a frame
that is there, and the names in the body of a function can be written. Every run keeps to that, and
frames are never removed (`Store.formed_of_evalProgram`, `Store.formed_of_callClosure`).
-/

namespace Abacus

namespace Store

/-- Parents are older than their children, closures were made in frames that are there, and the
bodies of functions are well-formed. -/
structure Formed (s : Store) : Prop where
  root_exists : root < s.frames.size
  parent_older : ∀ {g p : FrameId} {frame : Frame}, s.frames[g]? = some frame →
    frame.parent = some p → p < g
  frame_exists : ∀ {c : ClosureId} {closure : Closure}, s.closures[c]? = some closure →
    closure.frame < s.frames.size
  body_wellFormed : ∀ {c : ClosureId} {closure : Closure}, s.closures[c]? = some closure →
    closure.body.WellFormed

theorem formed_initial : initial.Formed where
  root_exists := by decide
  parent_older {g p frame} hg hp := by
    match g, hg with
    | 0, hg =>
      cases hg
      cases hp
    | _ + 1, hg => cases hg
  frame_exists hc := by cases hc
  body_wellFormed hc := by cases hc

variable {s : Store}

/-- What holds of all closures of a store, and of the function that stands for a closure that is not
there, holds of whatever is called. -/
theorem closure_of {P : Closure → Prop}
    (h : ∀ {c : ClosureId} {closure : Closure}, s.closures[c]? = some closure → P closure)
    (hnone : P ⟨[], .number 0, 0, none⟩) (c : ClosureId) : P (s.closure c) := by
  cases hc : s.closures[c]? with
  | some closure =>
    rw [closure_eq hc]
    exact h hc
  | none =>
    rw [closure_missing hc]
    exact hnone

theorem Formed.closure_frame (hs : s.Formed) (c : ClosureId) :
    (s.closure c).frame < s.frames.size :=
  closure_of (P := fun closure => closure.frame < s.frames.size) hs.frame_exists hs.root_exists c

theorem closure_body
    (h : ∀ {c : ClosureId} {closure : Closure}, s.closures[c]? = some closure →
      closure.body.WellFormed) (c : ClosureId) : (s.closure c).body.WellFormed :=
  closure_of (P := fun closure => closure.body.WellFormed) h (by simp [Expr.WellFormed]) c

/-- A new frame may have any frame that exists above it. -/
theorem Formed.addFrame (hs : s.Formed) {frame : Frame}
    (hparent : ∀ p, frame.parent = some p → p < s.frames.size) :
    Formed { s with frames := s.frames.push frame } where
  root_exists := by
    rw [Array.size_push]
    exact Nat.lt_succ_of_lt hs.root_exists
  parent_older {g p frame'} hg hp := by
    rw [Array.getElem?_push] at hg
    split at hg
    · rename_i hnew
      cases hg
      rw [hnew]
      exact hparent p hp
    · exact hs.parent_older hg hp
  frame_exists hc := by
    rw [Array.size_push]
    exact Nat.lt_succ_of_lt (hs.frame_exists hc)
  body_wellFormed := hs.body_wellFormed

/-- A function may be added if its frame exists and its body is well formed. -/
theorem Formed.addClosure (hs : s.Formed) {c : Closure} (hframe : c.frame < s.frames.size)
    (hbody : c.body.WellFormed) : Formed { s with closures := s.closures.push c } where
  root_exists := hs.root_exists
  parent_older := hs.parent_older
  frame_exists {i closure} hi := by
    rw [Array.getElem?_push] at hi
    split at hi
    · cases hi
      exact hframe
    · exact hs.frame_exists hi
  body_wellFormed {i closure} hi := by
    rw [Array.getElem?_push] at hi
    split at hi
    · cases hi
      exact hbody
    · exact hs.body_wellFormed hi

/-- What a frame binds does not matter. -/
theorem Formed.modifyFrame (hs : s.Formed) {k : Frame → Frame}
    (hk : ∀ frame, (k frame).parent = frame.parent) (f : FrameId) :
    Formed { s with frames := s.frames.modify f k } where
  root_exists := by
    rw [Array.size_modify]
    exact hs.root_exists
  parent_older {g p frame'} hg hp := by
    rw [Array.getElem?_modify] at hg
    split at hg
    · obtain ⟨frame, hframe, rfl⟩ := Option.map_eq_some_iff.mp hg
      rw [hk] at hp
      exact hs.parent_older hframe hp
    · exact hs.parent_older hg hp
  frame_exists hc := by
    rw [Array.size_modify]
    exact hs.frame_exists hc
  body_wellFormed := hs.body_wellFormed

theorem Formed.bind (hs : s.Formed) (f : FrameId) (name : String) (v : Value) :
    (s.bind f name v).Formed := by
  refine hs.modifyFrame (fun frame => ?_) f
  rfl

theorem Formed.setBindings (hs : s.Formed) (f : FrameId) (b : Bindings Value) :
    (s.setBindings f b).Formed := by
  refine hs.modifyFrame (fun frame => ?_) f
  rfl

theorem Formed.nameClosure (hs : s.Formed) (c : ClosureId) (name : String) :
    (s.nameClosure c name).Formed := by
  have hclosures : ∀ {i : ClosureId} {closure' : Closure},
      (s.nameClosure c name).closures[i]? = some closure' →
      ∃ closure, s.closures[i]? = some closure ∧ closure'.frame = closure.frame ∧
        closure'.body = closure.body := by
    intro i closure' hi
    unfold Store.nameClosure at hi
    rw [Array.getElem?_modify] at hi
    split at hi
    · obtain ⟨closure, hclosure, rfl⟩ := Option.map_eq_some_iff.mp hi
      exact ⟨closure, hclosure, rfl, rfl⟩
    · exact ⟨closure', hi, rfl, rfl⟩
  refine ⟨hs.root_exists, hs.parent_older, fun hi => ?_, fun hi => ?_⟩
  · obtain ⟨closure, hclosure, hframe, -⟩ := hclosures hi
    rw [hframe]
    exact hs.frame_exists hclosure
  · obtain ⟨closure, hclosure, -, hbody⟩ := hclosures hi
    rw [hbody]
    exact hs.body_wellFormed hclosure

/-! ## Runs -/

/-- Keeping the store well-formed, without removing frames. -/
def formation : Policy where
  holds s := s.store.Formed
  allows s s' := s.store.frames.size ≤ s'.store.frames.size
  refl _ := Nat.le_refl _
  trans := Nat.le_trans

/-- The frame is there and the names of the expression can be written. -/
def Evaluable (s : State) (f : FrameId) (x : Expr) : Prop :=
  f < s.store.frames.size ∧ x.WellFormed

theorem wellFormed_of_mem {xs : List Expr} (h : Expr.WellFormedList xs) :
    ∀ x ∈ xs, x.WellFormed := by
  induction xs with
  | nil => exact fun x hx => by cases hx
  | cons x xs ih =>
    unfold Expr.WellFormedList at h
    exact List.forall_mem_cons.mpr ⟨h.1, ih h.2⟩

/-- A part of a well-formed expression is well formed. -/
theorem wellFormed_parts {x y : Expr} (hx : x.WellFormed) (hy : y ∈ x.parts) : y.WellFormed := by
  cases x with
  | number | var | lambda => cases hy
  | unary op x =>
    unfold Expr.WellFormed at hx
    rw [List.mem_singleton.mp hy]
    exact hx
  | binary op x₁ x₂ =>
    unfold Expr.WellFormed at hx
    simp only [Expr.parts, List.mem_cons, List.not_mem_nil, or_false] at hy
    rcases hy with rfl | rfl
    · exact hx.1
    · exact hx.2
  | conditional c t e =>
    unfold Expr.WellFormed at hx
    simp only [Expr.parts, List.mem_cons, List.not_mem_nil, or_false] at hy
    rcases hy with rfl | rfl | rfl
    · exact hx.1
    · exact hx.2.1
    · exact hx.2.2
  | call name args =>
    unfold Expr.WellFormed at hx
    exact wellFormed_of_mem hx.2 y hy

theorem guides_formation : formation.Guides (fun _ _ => True) Evaluable where
  valid_of_allows _ _ := trivial
  ready_of_allows h hx := ⟨Nat.lt_of_lt_of_le hx.1 h, hx.2⟩
  ready_part hx hy := ⟨hx.1, wellFormed_parts hx.2 hy⟩
  number _ _ := trivial
  lookup _ _ _ := trivial
  write _ hs := ⟨hs, Nat.le_refl _⟩
  makeClosure {s f params body} hs hx _ := by
    obtain ⟨hf, hbody⟩ := hx
    unfold Expr.WellFormed at hbody
    exact ⟨hs.addClosure hf hbody.2, Nat.le_refl _, trivial⟩
  openFrame {s c args} hs _ _ _ := by
    intro frame
    have hsize : s.store.frames.size < (s.openFrame frame).store.frames.size := by
      unfold State.openFrame
      rw [Array.size_push]
      omega
    refine ⟨hs.addFrame fun p hp => ?_, Nat.le_of_lt hsize, hsize,
      closure_body hs.body_wellFormed c⟩
    cases hp
    exact hs.closure_frame c

theorem assigns_formation (f : FrameId) (names : List String) :
    formation.Assigns (fun _ _ => True) (fun _ _ => True) f names where
  bindable_of_allows _ _ := trivial
  number _ _ := trivial
  nameClosure hs _ _ _ := ⟨hs.nameClosure _ _, Nat.le_refl _, trivial⟩
  bind {s name v} hs _ _ _ := by
    refine ⟨hs.bind f name v, ?_⟩
    show s.store.frames.size ≤ (s.store.bind f name v).frames.size
    unfold Store.bind
    rw [Array.size_modify]

/-- What a well-formed program leaves behind is a well-formed store. -/
theorem formed_of_evalProgram (set : Settings) {p : Program} (hp : p.WellFormed) {s : State}
    (hs : s.store.Formed) : ((set.evalProgram root p).after s).store.Formed := by
  have hready : ∀ stmt ∈ p.statements, Evaluable s root stmt.value := by
    intro stmt hmem
    have hstmt := hp stmt hmem
    refine ⟨hs.root_exists, ?_⟩
    cases stmt with
    | expr x => exact hstmt
    | assign name x => exact hstmt.2.2
  exact (Settings.evalProgram_guided guides_formation (assigns_formation root _) set p
    (fun _ h => h) hs hready).holds

theorem formed_of_callClosure (traced : Bool) (limit : Nat) (c : ClosureId) (args : List Value)
    (name : Option String) {s : State} (hs : s.store.Formed) :
    ((callClosure traced limit c args name).after s).store.Formed :=
  (callClosure_guided guides_formation traced limit hs trivial fun _ _ => trivial).holds

end Store

end Abacus
