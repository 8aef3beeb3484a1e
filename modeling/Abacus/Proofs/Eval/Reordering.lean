import Abacus.Proofs.Eval.Correspondence
import Abacus.Proofs.Eval.Heap
import Mathlib.Logic.Equiv.Basic

/-!
# Closures at other places

Where two runs make the same functions in another order, the closures get other places, and names
may come up in another order. Nothing else is different: `Store.Reordered π s t` says that `t` holds
the closures of `s` at the places to which the permutation `π` moves them, and that all frames bind
the same names to the same numbers or to the closures moved.

* `Store.Reordered.lookup_eq` and `depth_eq`: what is found is the same, moved.
* `Store.Reordered.addClosure`, `addFrame`, `nameClosure`, `bind`, `setBindings`: changes of both
  stores. What is new gets the same place in both.
* `reordering_lawful`: runs on reordered stores correspond.
-/

namespace Abacus

theorem Bindings.names_map {α β : Type} (g : α → β) (b : Bindings α) :
    (b.map g).names = b.names := by
  unfold Bindings.names Bindings.map
  rw [List.map_map]
  rfl

/-- The value with its closure at another place. -/
def Value.move (π : Equiv.Perm ClosureId) : Value → Value
  | .number x => .number x
  | .closure c => .closure (π c)

/-- The second store has the closures of the first one at other places, and binds names, also in
another order, to the values moved. -/
structure Store.Reordered (π : Equiv.Perm ClosureId) (s t : Store) : Prop where
  frames_size : t.frames.size = s.frames.size
  parent : ∀ f, (t.frame f).parent = (s.frame f).parent
  get? : ∀ f n, (t.bindings f).get? n = ((s.bindings f).get? n).map (Value.move π)
  names : ∀ f, (t.bindings f).names.Perm (s.bindings f).names
  closures_size : t.closures.size = s.closures.size
  closure : ∀ c, t.closure (π c) = s.closure c
  /-- Places that have not been given out are not moved. -/
  unmoved : ∀ {c : Nat}, s.closures.size ≤ c → π c = c

namespace Store.Reordered

variable {π : Equiv.Perm ClosureId} {s t : Store}

theorem refl (s : Store) : s.Reordered (Equiv.refl ClosureId) s where
  frames_size := rfl
  parent _ := rfl
  get? f n := by
    cases (s.bindings f).get? n with
    | none => rfl
    | some v => cases v <;> rfl
  names _ := .refl _
  closures_size := rfl
  closure _ := rfl
  unmoved _ := rfl

/-! ### Looking -/

/-- Lookup walks the same frames in both stores, and finds the moved closure. -/
theorem lookup_eq (h : s.Reordered π t) (f : FrameId) (n : String) :
    t.lookup f n = (s.lookup f n).map (Value.move π) := by
  have hget := h.get? f n
  unfold Store.bindings at hget
  rw [Store.lookup, Store.lookup, hget, h.parent f]
  cases (s.frame f).bindings.get? n with
  | some v => rfl
  | none =>
    cases (s.frame f).parent with
    | none => rfl
    | some p =>
      simp only [Option.map_none]
      by_cases hp : p < f
      · rw [if_pos hp, if_pos hp]
        exact h.lookup_eq p n
      · rw [if_neg hp, if_neg hp]
        rfl
termination_by f

/-- A permutation of the closures does not change how deep a frame lies. -/
theorem depth_eq (h : s.Reordered π t) (f : FrameId) : t.depth f = s.depth f := by
  rw [Store.depth, Store.depth, h.parent f]
  cases (s.frame f).parent with
  | none => rfl
  | some p =>
    by_cases hp : p < f
    · simp only [if_pos hp, h.depth_eq p]
    · simp only [if_neg hp]
termination_by f

/-! ### Changing -/

theorem move_lt_size (h : s.Reordered π t) {c : Nat} :
    π c < s.closures.size ↔ c < s.closures.size := by
  constructor
  · intro hc
    by_contra hout
    rw [h.unmoved (Nat.not_lt.mp hout)] at hc
    exact hout hc
  · intro hc
    by_contra hout
    have hfix : π c = c := π.injective (h.unmoved (Nat.not_lt.mp hout))
    rw [hfix] at hout
    exact hout hc

/-- A closure made in both stores gets the same place, which the permutation leaves alone. -/
theorem addClosure (h : s.Reordered π t) (c : Closure) :
    (s.addClosure c).2.Reordered π (t.addClosure c).2 where
  frames_size := h.frames_size
  parent := h.parent
  get? := h.get?
  names := h.names
  closures_size := by
    simp only [Store.addClosure, Array.size_push, h.closures_size]
  closure i := by
    have hnew : π i = s.closures.size ↔ i = s.closures.size := by
      rw [← π.injective.eq_iff (a := i), h.unmoved (Nat.le_refl _)]
    rw [closure_addClosure, closure_addClosure, h.closures_size]
    by_cases hi : i = s.closures.size
    · rw [if_pos hi, if_pos (hnew.mpr hi)]
    · rw [if_neg hi, if_neg (mt hnew.mp hi), h.closure i]
  unmoved {i} hi := by
    rw [Store.addClosure, Array.size_push] at hi
    exact h.unmoved (Nat.le_of_succ_le hi)

theorem addFrame (h : s.Reordered π t) (b : Bindings Value) (parent : Option FrameId) :
    (s.addFrame b parent).2.Reordered π (t.addFrame (b.map (Value.move π)) parent).2 where
  frames_size := by
    simp only [Store.addFrame, Array.size_push, h.frames_size]
  parent f := by
    rw [frame_addFrame, frame_addFrame, h.frames_size]
    split
    · rfl
    · exact h.parent f
  get? f n := by
    unfold Store.bindings
    rw [frame_addFrame, frame_addFrame, h.frames_size]
    split
    · exact Bindings.get?_map b n
    · exact h.get? f n
  names f := by
    unfold Store.bindings
    rw [frame_addFrame, frame_addFrame, h.frames_size]
    split
    · rw [Bindings.names_map]
    · exact h.names f
  closures_size := h.closures_size
  closure := h.closure
  unmoved := h.unmoved

theorem nameClosure (h : s.Reordered π t) (c : ClosureId) (name : String) :
    (s.nameClosure c name).Reordered π (t.nameClosure (π c) name) where
  frames_size := h.frames_size
  parent := h.parent
  get? := h.get?
  names := h.names
  closures_size := by
    simp only [Store.nameClosure, Array.size_modify, h.closures_size]
  closure i := by
    rw [closure_nameClosure, closure_nameClosure, h.closures_size]
    simp only [h.move_lt_size, π.injective.eq_iff, h.closure i]
  unmoved {i} hi := by
    rw [Store.nameClosure, Array.size_modify] at hi
    exact h.unmoved hi

/-- A change of what one frame binds. -/
theorem modifyFrame (h : s.Reordered π t) (f : FrameId) (k k' : Bindings Value → Bindings Value)
    (hget : ∀ n, (k' (t.bindings f)).get? n = ((k (s.bindings f)).get? n).map (Value.move π))
    (hnames : (k' (t.bindings f)).names.Perm (k (s.bindings f)).names) :
    Reordered π
      { s with
        frames := s.frames.modify f fun frame => { frame with bindings := k frame.bindings } }
      { t with
        frames := t.frames.modify f fun frame => { frame with bindings := k' frame.bindings } }
    where
  frames_size := by
    rw [Array.size_modify, Array.size_modify, h.frames_size]
  parent g := by
    rw [frame_modify, frame_modify, h.frames_size]
    split
    · exact h.parent g
    · exact h.parent g
  -- A frame other than the one rebound is as it was on both sides.
  get? g n := by
    unfold Store.bindings
    rw [frame_modify, frame_modify, h.frames_size]
    split
    · rename_i hg
      obtain ⟨rfl, -⟩ := hg
      exact hget n
    · exact h.get? g n
  names g := by
    unfold Store.bindings
    rw [frame_modify, frame_modify, h.frames_size]
    split
    · rename_i hg
      obtain ⟨rfl, -⟩ := hg
      exact hnames
    · exact h.names g
  closures_size := h.closures_size
  closure := h.closure
  unmoved := h.unmoved

/-- To bind a name on the one side is to bind it to the moved value on the other. -/
theorem bind (h : s.Reordered π t) (f : FrameId) (name : String) (v : Value) :
    (s.bind f name v).Reordered π (t.bind f name (v.move π)) := by
  refine h.modifyFrame f (·.set name v) (·.set name (v.move π)) (fun n => ?_) ?_
  · rw [Bindings.get?_set, Bindings.get?_set, h.get? f n]
    split
    · rfl
    · rfl
  · have hperm := h.names f
    rw [Bindings.names_set, Bindings.names_set]
    by_cases hname : name ∈ (s.bindings f).names
    · rwa [if_pos hname, if_pos (hperm.mem_iff.mpr hname)]
    · rw [if_neg hname, if_neg (mt hperm.mem_iff.mp hname)]
      exact hperm.append_right [name]

theorem setBindings (h : s.Reordered π t) (f : FrameId) (b : Bindings Value) :
    (s.setBindings f b).Reordered π (t.setBindings f (b.map (Value.move π))) := by
  refine h.modifyFrame f (fun _ => b) (fun _ => b.map (Value.move π)) (Bindings.get?_map b) ?_
  rw [Bindings.names_map]

end Store.Reordered

/-! ## The correspondence -/

/-- The run on a store with the closures at other places. -/
def reordering (π : Equiv.Perm ClosureId) : Correspondence Unit where
  later _ _ := True
  stores _ := Store.Reordered π
  closures _ c c' := c' = π c
  names _ f f' n n' := f' = f ∧ n' = n
  exprs _ f f' x x' := f' = f ∧ x' = x
  faults e e' := e' = e

section Reordering

variable {π : Equiv.Perm ClosureId}

/-- Two values correspond where the one is the other with its closure moved. -/
theorem values_reordering {v v' : Value} :
    (reordering π).Values () v v' ↔ v' = v.move π := by
  constructor
  · rintro (x | hc)
    · rfl
    · exact congrArg Value.closure hc
  · rintro rfl
    cases v with
    | number x => exact .number x
    | closure c => exact .closure rfl

theorem forall₂_values_reordering {vs vs' : List Value}
    (h : List.Forall₂ ((reordering π).Values ()) vs vs') : vs' = vs.map (Value.move π) := by
  induction h with
  | nil => rfl
  | cons hv _ ih => rw [values_reordering.mp hv, ih, List.map_cons]

/-- Evaluation does not look at the places of closures: reordering them passes through every step.
-/
theorem reordering_lawful (π : Equiv.Perm ClosureId) : (reordering π).Lawful where
  refl _ := trivial
  trans _ _ := trivial
  closures_later _ h := h
  names_later _ h := h
  exprs_later _ h := h
  -- Closures are exchanged and nothing else: frames, names and expressions correspond by equality.
  expr := fun ⟨hf, hx⟩ => by
    subst hf hx
    exact .inr (.refl (fun _ => ⟨rfl, rfl⟩) (fun _ => ⟨rfl, rfl⟩)
      (fun _ _ => List.forall₂_same.mpr fun _ _ => .inl rfl) _)
  free h := .inl h.2
  lookup := fun {w s t f f' n n'} hst ⟨hf, hn⟩ => by
    subst hf hn
    rw [hst.lookup_eq]
    cases s.lookup f' n' with
    | none => exact .none
    | some v => exact .some (values_reordering.mpr rfl)
  made := fun {w s t f f' params params' body body'} hst ⟨hf, hx⟩ => by
    subst hf
    cases hx
    -- A new closure lies past all places the permutation moves.
    refine ⟨(), trivial, hst.addClosure _, ?_⟩
    exact hst.closures_size.trans (hst.unmoved (Nat.le_refl _)).symm
  arity := fun {w s t c c'} hst hc => by
    subst hc
    rw [hst.closure]
  opened := fun {w s t c c' args args'} hst hc hargs _ => by
    subst hc
    refine ⟨(), trivial, ?_, hst.frames_size, by rw [hst.closure]⟩
    have hopened :=
      hst.addFrame (.ofList ((s.closure c).params.zip args)) (some (s.closure c).frame)
    rw [Bindings.map_ofList] at hopened
    rw [hst.closure, forall₂_values_reordering hargs, List.zip_map_right]
    exact hopened
  faults_refl _ := rfl
  undefinedVariable h := by rw [h.2]; rfl
  unknownFunction h := by rw [h.2]; rfl
  arityMismatch := fun {w s t c c' f f' n n'} expected got hst hc hn => by
    subst hc
    rw [hst.closure, hn.2]
    rfl
  notNumber := fun {w s t c c'} place hst hc => by
    subst hc
    rw [hst.closure]
    rfl

theorem reordering_assigns (π : Equiv.Perm ClosureId) :
    (reordering π).Assigns fun _ => True where
  nameClosure := fun {w s t c c'} name hst hc => by
    subst hc
    exact hst.nameClosure c name
  bind := fun {w s t name v v'} _ hst hv => by
    rw [values_reordering.mp hv]
    exact hst.bind Store.root name v
  asResult := fun {w s t c c'} hst hc => by
    subst hc
    rw [hst.closure]
    rfl

theorem stmts_reordering (ss : List Stmt) :
    List.Forall₂ ((reordering π).Stmts (fun _ => True) ()) ss ss := by
  refine List.forall₂_same.mpr fun stmt _ => ?_
  cases stmt with
  | assign name x => exact .assign trivial ⟨rfl, rfl⟩
  | expr x => exact .expr ⟨rfl, rfl⟩

end Reordering

end Abacus
