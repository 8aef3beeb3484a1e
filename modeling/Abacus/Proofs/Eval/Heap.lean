import Abacus.Proofs.Eval.Scope
import Abacus.Proofs.Eval.Stores

/-!
# The heap of frames and closures

A frame refers to its parent, a closure to the frame in which it was made, and a frame to the
closures that it binds, so that frames and closures refer to each other in circles. Parents alone do
not: a frame hangs off an older one. `Store.Linked` says this of a store, and that all that is
referred to is there; every operation keeps it, from whatever frame it works and however it ends
(`Store.linked_perform`).

So the way from a frame over its parents comes to the root frame (`Store.Linked.chain`), and this
way is what names are looked up along and what the depth of the frame counts (`Store.Path`).
-/

namespace Abacus

namespace Store

/-! ## What changes leave -/

/-- A new frame stands behind the others, which stay as they are. -/
theorem frame_addFrame (s : Store) (b : Bindings Value) (parent : Option FrameId) (g : FrameId) :
    (s.addFrame b parent).2.frame g = if g = s.frames.size then ⟨b, parent⟩ else s.frame g := by
  unfold Store.addFrame Store.frame
  rw [Array.getD_eq_getD_getElem?, Array.getD_eq_getD_getElem?, Array.getElem?_push]
  split <;> rfl

/-- A new function stands behind the others, which stay as they are. -/
theorem closure_addClosure (s : Store) (c : Closure) (i : ClosureId) :
    (s.addClosure c).2.closure i = if i = s.closures.size then c else s.closure i := by
  unfold Store.addClosure Store.closure
  rw [Array.getD_eq_getD_getElem?, Array.getD_eq_getD_getElem?, Array.getElem?_push]
  split <;> rfl

theorem frame_modify (s : Store) (f : FrameId) (k : Frame → Frame) (g : FrameId) :
    Store.frame { s with frames := s.frames.modify f k } g =
      if f = g ∧ f < s.frames.size then k (s.frame g) else s.frame g := by
  unfold Store.frame
  rw [Array.getD_eq_getD_getElem?, Array.getD_eq_getD_getElem?, Array.getElem?_modify]
  by_cases hfg : f = g
  · subst hfg
    by_cases hf : f < s.frames.size
    · rw [if_pos rfl, if_pos ⟨rfl, hf⟩, Array.getElem?_eq_getElem hf]
      rfl
    · rw [if_pos rfl, if_neg fun h => hf h.2, Array.getElem?_eq_none (Nat.not_lt.mp hf)]
      rfl
  · rw [if_neg hfg, if_neg fun h => hfg h.1]

/-- Naming a function changes at most the name of this one. -/
theorem closure_nameClosure (s : Store) (c : ClosureId) (name : String) (i : ClosureId) :
    (s.nameClosure c name).closure i = if c = i ∧ c < s.closures.size then
      { s.closure i with name := (s.closure i).name.or (some name) } else s.closure i := by
  unfold Store.nameClosure Store.closure
  rw [Array.getD_eq_getD_getElem?, Array.getD_eq_getD_getElem?, Array.getElem?_modify]
  by_cases hci : c = i
  · subst hci
    by_cases hc : c < s.closures.size
    · rw [if_pos rfl, if_pos ⟨rfl, hc⟩, Array.getElem?_eq_getElem hc]
      rfl
    · rw [if_pos rfl, if_neg fun h => hc h.2, Array.getElem?_eq_none (Nat.not_lt.mp hc)]
      rfl
  · rw [if_neg hci, if_neg fun h => hci h.1]

/-! ## Operations -/

/-- What can be done with a store from one of its frames. -/
inductive Operation where
  /-- Opens a frame that hangs off the given one. -/
  | child (f : FrameId) (entries : List (String × Value))
  | bind (f : FrameId) (name : String) (v : Value)
  | run (f : FrameId) (set : Settings) (p : Program)
  | eval (f : FrameId) (set : Settings) (x : Expr)

namespace Operation

/-- The frame from which the operation works. -/
def frame : Operation → FrameId
  | child f _ => f
  | bind f _ _ => f
  | run f _ _ => f
  | eval f _ _ => f

/-- The values that the operation is given. -/
def values : Operation → List Value
  | child _ entries => entries.map Prod.snd
  | bind _ _ v => [v]
  | run .. => []
  | eval .. => []

/-- What the operation is given is in the store. -/
structure Admissible (s : Store) (op : Operation) : Prop where
  frame_exists : op.frame < s.frames.size
  values_exist : ∀ v ∈ op.values, v.Exists s

end Operation

/-- The store that an operation leaves, also when it fails. -/
def perform (s : Store) : Operation → Store
  | .child f entries => (s.addFrame (.ofList entries) (some f)).2
  | .bind f name v => s.bind f name v
  | .run f set p => ((set.evalProgram f p).start s).store
  | .eval f set x => ((set.eval f x).start s).store

/-- One operation. -/
def Step (s t : Store) : Prop := ∃ op : Operation, op.Admissible s ∧ t = s.perform op

/-! ## What stays -/

/-- Frames stay with their parents, and closures with the frames in which they were made. -/
structure Evolves (s t : Store) : Prop extends s.Keeps t where
  closure : ∀ {c : ClosureId} {closure : Closure}, s.closures[c]? = some closure →
    ∃ closure', t.closures[c]? = some closure' ∧ closure'.frame = closure.frame

variable {s t u : Store} {f : FrameId}

/-- A store evolves to itself. -/
theorem Evolves.refl (s : Store) : s.Evolves s where
  toKeeps := .refl s
  closure hc := ⟨_, hc, rfl⟩

theorem Evolves.trans (h : s.Evolves t) (h' : t.Evolves u) : s.Evolves u where
  toKeeps := h.toKeeps.trans h'.toKeeps
  closure hc := by
    obtain ⟨closure₁, hc₁, hframe₁⟩ := h.closure hc
    obtain ⟨closure₂, hc₂, hframe₂⟩ := h'.closure hc₁
    exact ⟨closure₂, hc₂, hframe₂.trans hframe₁⟩

/-- A frame that was there is there later. -/
theorem Evolves.lt_size (h : s.Evolves t) (hf : f < s.frames.size) : f < t.frames.size := by
  obtain ⟨frame, hframe, -⟩ := h.frame (Array.getElem?_eq_getElem hf)
  exact (Array.getElem?_eq_some_iff.mp hframe).1

/-- A value that stood for something stands for something later. -/
theorem Evolves.exists {v : Value} (h : s.Evolves t) (hv : v.Exists s) : v.Exists t := by
  cases v with
  | number x => trivial
  | closure c =>
    obtain ⟨closure, hc⟩ := hv
    obtain ⟨closure', hc', -⟩ := h.closure hc
    exact ⟨closure', hc'⟩

theorem evolves_of_closures (h : s.Keeps t) (hc : t.closures = s.closures) : s.Evolves t where
  toKeeps := h
  closure hi := ⟨_, by rw [hc, hi], rfl⟩

theorem evolves_addFrame (b : Bindings Value) (parent : Option FrameId) :
    s.Evolves (s.addFrame b parent).2 :=
  evolves_of_closures (keeps_addFrame b parent) rfl

theorem evolves_bind (f : FrameId) (name : String) (v : Value) : s.Evolves (s.bind f name v) :=
  evolves_of_closures (keeps_bind f name v) rfl

/-- A store evolves by one more function. -/
theorem evolves_addClosure (c : Closure) : s.Evolves (s.addClosure c).2 where
  toKeeps := keeps_of_frames rfl
  closure {i closure} hi := by
    have hlt := (Array.getElem?_eq_some_iff.mp hi).1
    refine ⟨closure, ?_, rfl⟩
    rw [addClosure, Array.getElem?_push, if_neg (Nat.ne_of_lt hlt), hi]

/-- A store evolves by the name of a function. -/
theorem evolves_nameClosure (c : ClosureId) (name : String) :
    s.Evolves (s.nameClosure c name) where
  toKeeps := keeps_of_frames rfl
  closure {i closure} hi := by
    rw [nameClosure, Array.getElem?_modify, hi]
    split
    · exact ⟨_, rfl, rfl⟩
    · exact ⟨_, rfl, rfl⟩

/-! ## The invariant -/

/-- A frame at the place `g` hangs off an older one, unless it is the root frame, and what it binds
exists. -/
structure Fits (s : Store) (g : FrameId) (frame : Frame) : Prop where
  parent_older : ∀ {p : FrameId}, frame.parent = some p → p < g
  parentless : frame.parent = none → g = root
  bound_exists : frame.bindings.All (Value.Exists s)

/-- A frame that fits a store fits it later, since all that it refers to is still there. -/
theorem Fits.evolve {g : FrameId} {frame : Frame} (hg : s.Fits g frame) (h : s.Evolves t) :
    t.Fits g frame :=
  ⟨hg.parent_older, hg.parentless, hg.bound_exists.imp fun _ hv => h.exists hv⟩

/-- Parents are older than their children, only the root frame has none, and the closures that
frames bind and the frames in which closures were made are there. -/
structure Linked (s : Store) : Prop where
  root_exists : root < s.frames.size
  frame_fits : ∀ {g : FrameId} {frame : Frame}, s.frames[g]? = some frame → s.Fits g frame
  closure_frame : ∀ {c : ClosureId} {closure : Closure}, s.closures[c]? = some closure →
    closure.frame < s.frames.size

/-- The store of the start is linked: its one frame is the root frame. -/
theorem linked_initial : initial.Linked where
  root_exists := by decide
  frame_fits {g frame} hg := by
    match g, hg with
    | 0, hg =>
      cases hg
      refine ⟨fun hparent => ?_, fun _ => rfl, Bindings.all_empty⟩
      cases hparent
    | _ + 1, hg => cases hg
  closure_frame hc := by cases hc

/-- The values that a frame binds stand for something. -/
theorem Linked.bound_exists (hs : s.Linked) (g : FrameId) :
    (s.bindings g).All (Value.Exists s) := by
  cases hg : s.frames[g]? with
  | none =>
    rw [Store.bindings, frame_missing hg]
    exact Bindings.all_empty
  | some frame =>
    rw [bindings_of_getElem? hg]
    exact (hs.frame_fits hg).bound_exists

/-- What is found by a name stands for something. -/
theorem Linked.lookup_exists (hs : s.Linked) {name : String} {v : Value}
    (h : s.lookup f name = some v) : v.Exists s := by
  fun_induction Store.lookup s f name with
  | case1 f w hw =>
    cases h
    exact (hs.bound_exists f).get? hw
  | case2 => cases h
  | case3 f _ p _ hlt ih => exact ih h
  | case4 => cases h

/-- Operations may change a store in which everything that is there before stays, if what is new or
changed fits. -/
theorem Linked.evolve (hs : s.Linked) (h : s.Evolves t)
    (hframes : ∀ {g : FrameId} {frame : Frame}, t.frames[g]? = some frame →
      s.frames[g]? = some frame ∨ t.Fits g frame)
    (hclosures : ∀ {c : ClosureId} {closure : Closure}, t.closures[c]? = some closure →
      (∃ old, s.closures[c]? = some old ∧ closure.frame = old.frame) ∨
        closure.frame < t.frames.size) : t.Linked where
  root_exists := h.lt_size hs.root_exists
  frame_fits hg := by
    rcases hframes hg with hold | hnew
    · exact (hs.frame_fits hold).evolve h
    · exact hnew
  closure_frame hc := by
    rcases hclosures hc with ⟨old, hold, hframe⟩ | hnew
    · rw [hframe]
      exact h.lt_size (hs.closure_frame hold)
    · exact hnew

/-- A frame may be opened below one that is there, with values that stand for something. -/
theorem Linked.addFrame (hs : s.Linked) {b : Bindings Value} (hf : f < s.frames.size)
    (hb : b.All (Value.Exists s)) : (s.addFrame b (some f)).2.Linked := by
  have hevolves : s.Evolves (s.addFrame b (some f)).2 := evolves_addFrame b (some f)
  refine hs.evolve hevolves (fun {g frame} hg => ?_) fun hc => .inl ⟨_, hc, rfl⟩
  rw [Store.addFrame, Array.getElem?_push] at hg
  split at hg
  · rename_i hnew
    cases hg
    refine .inr ⟨fun hparent => ?_, fun hnone => ?_, hb.imp fun _ hv => hevolves.exists hv⟩
    · cases hparent
      rwa [hnew]
    · cases hnone
  · exact .inl hg

/-- A function may be made in a frame that is there. -/
theorem Linked.addClosure (hs : s.Linked) {c : Closure} (hframe : c.frame < s.frames.size) :
    (s.addClosure c).2.Linked := by
  refine hs.evolve (evolves_addClosure c) (fun hg => .inl hg) fun {i closure} hi => ?_
  rw [Store.addClosure, Array.getElem?_push] at hi
  split at hi
  · cases hi
    exact .inr hframe
  · exact .inl ⟨closure, hi, rfl⟩

theorem Linked.nameClosure (hs : s.Linked) (c : ClosureId) (name : String) :
    (s.nameClosure c name).Linked := by
  refine hs.evolve (evolves_nameClosure c name) (fun hg => .inl hg) fun {i closure} hi => ?_
  rw [Store.nameClosure, Array.getElem?_modify] at hi
  split at hi
  · obtain ⟨old, hold, rfl⟩ := Option.map_eq_some_iff.mp hi
    exact .inl ⟨old, hold, rfl⟩
  · exact .inl ⟨closure, hi, rfl⟩

/-- A value that stands for something may be bound. -/
theorem Linked.bind (hs : s.Linked) (f : FrameId) (name : String) {v : Value} (hv : v.Exists s) :
    (s.bind f name v).Linked := by
  have hevolves : s.Evolves (s.bind f name v) := evolves_bind f name v
  refine hs.evolve hevolves (fun {g frame} hg => ?_) fun hc => .inl ⟨_, hc, rfl⟩
  rw [Store.bind, Array.getElem?_modify] at hg
  split at hg
  · obtain ⟨old, hold, rfl⟩ := Option.map_eq_some_iff.mp hg
    have hfits := hs.frame_fits hold
    have hbound := hfits.bound_exists.imp fun _ hw => hevolves.exists hw
    exact .inr ⟨hfits.parent_older, hfits.parentless, hbound.set (hevolves.exists hv)⟩
  · exact .inl hg

/-! ## Operations keep the invariant -/

/-- Keeping the links of a store, of which none goes away. -/
def linkage : Policy where
  holds s := s.store.Linked
  allows s s' := s.store.Evolves s'.store
  refl s := .refl s.store
  trans := Evolves.trans

/-- Evaluating keeps a store linked, and its values stand for something. -/
theorem evaluates_linkage :
    linkage.Evaluates (fun s v => v.Exists s.store) fun s f => f < s.store.frames.size where
  valid_of_allows h hv := h.exists hv
  current_of_allows h hf := h.lt_size hf
  number _ _ := trivial
  lookup hs _ hv := hs.lookup_exists hv
  write _ hs := ⟨hs, .refl _⟩
  makeClosure _ hs hf _ :=
    ⟨hs.addClosure hf, evolves_addClosure _, _, Array.getElem?_push_size⟩
  openFrame {s c args} hs hc hargs := by
    intro frame
    obtain ⟨closure, hc⟩ := hc
    have hframe : (s.store.closure c).frame < s.store.frames.size := by
      rw [closure_eq hc]
      exact hs.closure_frame hc
    have hbound : frame.bindings.All (Value.Exists s.store) :=
      Bindings.all_ofList fun e he => hargs e.2 (List.of_mem_zip he).2
    refine ⟨hs.addFrame hframe hbound, evolves_addFrame _ _, ?_⟩
    unfold State.openFrame
    rw [Array.size_push]
    exact Nat.lt_succ_self _

theorem assigns_linkage (f : FrameId) (names : List String) :
    linkage.Assigns (fun s v => v.Exists s.store) (fun s v => v.Exists s.store) f names where
  bindable_of_allows h hv := h.exists hv
  number _ _ := trivial
  nameClosure hs hc _ _ :=
    ⟨hs.nameClosure _ _, evolves_nameClosure _ _, (evolves_nameClosure _ _).exists hc⟩
  bind hs hv _ _ := ⟨hs.bind _ _ hv, evolves_bind _ _ _⟩

/-- Whatever is done with the store, and whether it succeeds or fails. -/
theorem linked_perform (hs : s.Linked) {op : Operation} (hop : op.Admissible s) :
    (s.perform op).Linked ∧ s.Evolves (s.perform op) := by
  obtain ⟨hf, hvalues⟩ := hop
  cases op with
  | child f entries =>
    have hbound : (Bindings.ofList entries).All (Value.Exists s) :=
      Bindings.all_ofList fun e he => hvalues e.2 (List.mem_map_of_mem he)
    exact ⟨hs.addFrame hf hbound, evolves_addFrame _ _⟩
  | bind f name v => exact ⟨hs.bind f name (hvalues v List.mem_cons_self), evolves_bind f name v⟩
  | run f set p =>
    have hrun := Settings.evalProgram_obeys evaluates_linkage (assigns_linkage f _) set p
      (fun _ h => h) (s := ⟨s, #[]⟩) hs hf
    exact ⟨hrun.holds, hrun.allows⟩
  | eval f set x =>
    have hrun := Settings.eval_obeys evaluates_linkage set x (s := ⟨s, #[]⟩) hs hf
    exact ⟨hrun.holds, hrun.allows⟩

open Relation (ReflTransGen)

/-- A linked store stays linked, and evolves, through any number of steps. -/
theorem linked_of_steps (hs : s.Linked) (h : ReflTransGen Step s t) : t.Linked ∧ s.Evolves t := by
  induction h with
  | refl => exact ⟨hs, .refl s⟩
  | tail _ hstep ih =>
    obtain ⟨op, hop, rfl⟩ := hstep
    obtain ⟨hlinked, hevolves⟩ := linked_perform ih.1 hop
    exact ⟨hlinked, ih.2.trans hevolves⟩

/-! ## Chains of parents -/

/-- The frames that following the parents comes to from a frame, itself first and one without a
parent last. -/
inductive Chain (s : Store) : FrameId → List FrameId → Prop
  | last {f : FrameId} {frame : Frame} (hf : s.frames[f]? = some frame)
      (hparent : frame.parent = none) : Chain s f [f]
  | link {f p : FrameId} {frame : Frame} {fs : List FrameId} (hf : s.frames[f]? = some frame)
      (hparent : frame.parent = some p) (h : Chain s p fs) : Chain s f (f :: fs)

/-- There is only one way up from a frame. -/
theorem Chain.unique {fs gs : List FrameId} (h : s.Chain f fs) (h' : s.Chain f gs) : gs = fs := by
  induction h generalizing gs with
  | last hf hparent =>
    cases h' with
    | last => rfl
    | link hf' hparent' =>
      rw [hf] at hf'
      cases hf'
      rw [hparent] at hparent'
      cases hparent'
  | link hf hparent h ih =>
    cases h' with
    | last hf' hparent' =>
      rw [hf] at hf'
      cases hf'
      rw [hparent] at hparent'
      cases hparent'
    | link hf' hparent' h' =>
      rw [hf] at hf'
      cases hf'
      rw [hparent] at hparent'
      cases hparent'
      rw [ih h']

/-- From every frame there is a chain, since each parent is older than the frame before. -/
theorem Linked.chain (hs : s.Linked) (hf : f < s.frames.size) : ∃ fs, s.Chain f fs := by
  induction f using Nat.strongRecOn with
  | ind f ih =>
    have hframe := Array.getElem?_eq_getElem hf
    cases hparent : s.frames[f].parent with
    | none => exact ⟨[f], .last hframe hparent⟩
    | some p =>
      have hlt := (hs.frame_fits hframe).parent_older hparent
      obtain ⟨fs, hfs⟩ := ih p hlt (Nat.lt_trans hlt hf)
      exact ⟨f :: fs, .link hframe hparent hfs⟩

/-- No frame on the way up is younger than the first one. -/
theorem Chain.le (hs : s.Linked) {fs : List FrameId} (h : s.Chain f fs) : ∀ g ∈ fs, g ≤ f := by
  induction h with
  | last => exact fun g hg => Nat.le_of_eq (List.mem_singleton.mp hg)
  | link hf hparent _ ih =>
    have hlt := (hs.frame_fits hf).parent_older hparent
    refine List.forall_mem_cons.mpr ⟨Nat.le_refl _, fun g hg => ?_⟩
    exact Nat.le_of_lt (Nat.lt_of_le_of_lt (ih g hg) hlt)

/-- No frame comes twice on the way up. -/
theorem Chain.nodup (hs : s.Linked) {fs : List FrameId} (h : s.Chain f fs) : fs.Nodup := by
  induction h with
  | last => exact List.pairwise_singleton _ _
  | link hf hparent h ih =>
    have hlt := (hs.frame_fits hf).parent_older hparent
    refine List.nodup_cons.mpr ⟨fun hmem => ?_, ih⟩
    exact Nat.not_le_of_lt hlt (h.le hs _ hmem)

/-- The way up ends at the root frame. -/
theorem Chain.getLast? (hs : s.Linked) {fs : List FrameId} (h : s.Chain f fs) :
    fs.getLast? = some root := by
  induction h with
  | last hf hparent => rw [(hs.frame_fits hf).parentless hparent, List.getLast?_singleton]
  | link _ _ h ih => rw [List.getLast?_cons, ih, Option.getD_some]

/-- A frame is one deeper than its parent. -/
theorem Linked.depth_eq (hs : s.Linked) {p : FrameId} {frame : Frame}
    (hf : s.frames[f]? = some frame) (hparent : frame.parent = some p) :
    s.depth f = s.depth p + 1 := by
  have hlt := (hs.frame_fits hf).parent_older hparent
  rw [depth, frame_eq hf, hparent]
  exact if_pos hlt

/-- The depth of a frame is the number of frames behind it in its chain. -/
theorem Chain.depth (hs : s.Linked) {fs : List FrameId} (h : s.Chain f fs) :
    s.depth f + 1 = fs.length := by
  induction h with
  | last hf hparent => rw [Store.depth, frame_eq hf, hparent, List.length_singleton]
  | link hf hparent _ ih => rw [hs.depth_eq hf hparent, ih, List.length_cons]

/-- The nearest frame that binds a name is the first one in the chain that does. -/
theorem Chain.lookup (hs : s.Linked) {fs : List FrameId} (h : s.Chain f fs) (name : String) :
    s.lookup f name = fs.findSome? fun g => (s.bindings g).get? name := by
  induction h with
  | @last f frame hf hparent =>
    rw [Store.lookup, List.findSome?_cons, bindings_of_getElem? hf, frame_eq hf, hparent]
    cases frame.bindings.get? name <;> rfl
  | @link f p frame fs hf hparent _ ih =>
    have hlt := (hs.frame_fits hf).parent_older hparent
    rw [Store.lookup, List.findSome?_cons, bindings_of_getElem? hf, frame_eq hf, hparent, ← ih]
    cases frame.bindings.get? name with
    | some v => rfl
    | none => exact if_pos hlt

/-- The chain `fs` of the frame `f` is the only one, comes to no frame twice and ends at the root
frame; the depth of `f` is the number of frames behind it, and the value of a name is that in the
first frame that binds it. -/
structure Path (s : Store) (f : FrameId) (fs : List FrameId) : Prop where
  chain : s.Chain f fs
  unique : ∀ gs, s.Chain f gs → gs = fs
  nodup : fs.Nodup
  getLast? : fs.getLast? = some root
  depth : s.depth f + 1 = fs.length
  lookup : ∀ name, s.lookup f name = fs.findSome? fun g => (s.bindings g).get? name
  lookup_eq_none : ∀ name, s.lookup f name = none ↔ ∀ g ∈ fs, name ∉ (s.bindings g).names

/-- From every frame there is a way up to the root frame. -/
theorem Linked.path (hs : s.Linked) (hf : f < s.frames.size) : ∃ fs, s.Path f fs := by
  obtain ⟨fs, h⟩ := hs.chain hf
  refine ⟨fs, h, fun gs h' => h.unique h', h.nodup hs, h.getLast? hs, h.depth hs, h.lookup hs,
    fun name => ?_⟩
  simp only [h.lookup hs, List.findSome?_eq_none_iff, Bindings.get?_eq_none_iff]

/-- A function that an expression evaluates to is there after the evaluation, and so is its frame.
-/
theorem Linked.result_exists (hs : s.Linked) (hf : f < s.frames.size) {set : Settings} {x : Expr}
    {c : ClosureId} (h : ((set.eval f x).start s).result = .ok (.closure c)) :
    ∃ closure, (s.perform (.eval f set x)).closures[c]? = some closure ∧
      closure.frame < (s.perform (.eval f set x)).frames.size := by
  have hrun := Settings.eval_obeys evaluates_linkage set x (s := ⟨s, #[]⟩) hs hf
  obtain ⟨closure, hc⟩ := hrun.result (.closure c) h
  exact ⟨closure, hc, hrun.holds.closure_frame hc⟩

/-- Whatever is done from frames that are there, beginning with an initial store: each frame has its
path to the root frame; what frames bind exists, and so do the frames in which closures were made,
also the one in which the closure was made that an evaluation gives. A frame with a parent is one
deeper than this, and has the same parent in all stores to come. -/
theorem path_of_steps (hs : ReflTransGen Step initial s) :
    (∀ f < s.frames.size, ∃ fs, s.Path f fs) ∧
    (∀ f name v, (s.bindings f).get? name = some v → v.Exists s) ∧
    (∀ (c : ClosureId) (closure : Closure), s.closures[c]? = some closure →
      closure.frame < s.frames.size) ∧
    (∀ f < s.frames.size, ∀ set x c, ((set.eval f x).start s).result = .ok (.closure c) →
      ∃ closure, (s.perform (.eval f set x)).closures[c]? = some closure ∧
        closure.frame < (s.perform (.eval f set x)).frames.size) ∧
    ∀ (f : FrameId) (frame : Frame), s.frames[f]? = some frame →
      (∀ p, frame.parent = some p → p < s.frames.size ∧ s.depth f = s.depth p + 1) ∧
      ∀ t, ReflTransGen Step s t →
        ∃ frame', t.frames[f]? = some frame' ∧ frame'.parent = frame.parent := by
  have hlinked := (linked_of_steps linked_initial hs).1
  refine ⟨fun f hf => hlinked.path hf, fun f name v hv => (hlinked.bound_exists f).get? hv,
    fun c closure hc => hlinked.closure_frame hc,
    fun f hf set x c h => hlinked.result_exists hf h, fun f frame hf => ⟨fun p hp => ?_, ?_⟩⟩
  · have hlt := (hlinked.frame_fits hf).parent_older hp
    exact ⟨Nat.lt_trans hlt (Array.getElem?_eq_some_iff.mp hf).1, hlinked.depth_eq hf hp⟩
  · intro t ht
    obtain ⟨frame', hf', hparent, -⟩ := (linked_of_steps hlinked ht).2.frame hf
    exact ⟨frame', hf', hparent⟩

/-- A frame below the root frame, and in it a program that makes a function and then fails. -/
theorem path_of_steps_child :
    let s := (initial.perform (.child root [("a", .number 1)])).perform (.bind root "b" (.number 2))
    let t := s.perform (.run 1 ⟨false, false, 100⟩
      ⟨[.assign "f" (.lambda ["x"] (.var "b")), .expr (.call "g" [])]⟩)
    ReflTransGen Step initial s ∧ (∃ fs, s.Path 1 fs) ∧
      ∃ frame, t.frames[1]? = some frame ∧ frame.parent = some root := by
  intro s t
  have hchild : Operation.Admissible initial (.child root [("a", .number 1)]) :=
    ⟨by decide, List.forall_mem_singleton.mpr trivial⟩
  have hbind : Operation.Admissible (initial.perform (.child root [("a", .number 1)]))
      (.bind root "b" (.number 2)) := ⟨by decide, List.forall_mem_singleton.mpr trivial⟩
  have hs : ReflTransGen Step initial s :=
    (ReflTransGen.single ⟨_, hchild, rfl⟩).tail ⟨_, hbind, rfl⟩
  have hsize : 1 < s.frames.size := by decide
  have ht : ReflTransGen Step s t :=
    .single ⟨.run 1 _ _, ⟨hsize, fun v hv => by cases hv⟩, rfl⟩
  obtain ⟨hpath, -, -, -, hparent⟩ := path_of_steps hs
  obtain ⟨frame, hframe, hroot⟩ := (hparent 1 _ (Array.getElem?_eq_getElem hsize)).2 t ht
  exact ⟨hs, hpath 1 hsize, frame, hframe, hroot⟩

end Store

end Abacus
