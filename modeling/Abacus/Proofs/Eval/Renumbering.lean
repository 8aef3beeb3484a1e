import Abacus.Proofs.Eval.Alike
import Abacus.Proofs.Eval.Formed
import Abacus.Proofs.Eval.Stores

/-!
# Renumbered stores

Frames and closures are known by their places in a store, and a store that has seen more gives out
other places. `Store.Renumbers r exact s t`: the store `t` holds what `s` holds, at the places that
the renumbering `r` moves them to; closures may have other names, unless `exact` holds. A value of
`s` is then the renumbered value in `t`, and whatever is done to both stores alike leaves them
renumbered alike: `lookup_eq` and `depth_eq` are about looking, `addFrame`, `addClosure`, `bind`,
`setBindings` and `nameClosure` about changes.

Two renumberings come up: `Renumbering.behind` makes room for what a later store has got since, and
`Renumbering.same` moves nothing, so that the two stores are one (`Store.Renumbers.eq_of_same`).
-/

namespace Abacus

/-! ## Places -/

/-- Moves places: those before `start` stay, and the others go up by `added`. -/
structure Shift where
  start : Nat
  added : Nat

namespace Shift

variable {m : Shift} {i j : Nat}

/-- The place that a place is moved to. -/
def place (m : Shift) (i : Nat) : Nat := if i < m.start then i else i + m.added

theorem place_of_lt (h : i < m.start) : m.place i = i := if_pos h

theorem place_of_le (h : m.start ≤ i) : m.place i = i + m.added := if_neg (Nat.not_lt.mpr h)

/-- Places keep their order. -/
theorem place_lt_place : m.place i < m.place j ↔ i < j := by
  unfold place
  split <;> split <;> omega

theorem place_inj : m.place i = m.place j ↔ i = j := by
  unfold place
  split <;> split <;> omega

/-- Behind what was there at first the sizes move like the places. -/
theorem place_eq_size {n k : Nat} (hstart : m.start ≤ n) (hk : k = n + m.added) :
    m.place n = k := by
  rw [place_of_le hstart, hk]

/-- A place of the first store is one of the second, and no others are. -/
theorem place_lt_size {n k : Nat} (hstart : m.start ≤ n) (hk : k = n + m.added) :
    m.place i < k ↔ i < n := by
  rw [← place_eq_size hstart hk, place_lt_place]

end Shift

/-- A renumbering of frames and closures. -/
structure Renumbering where
  frames : Shift
  closures : Shift

/-! ## Bindings -/

namespace Bindings

variable {α β : Type} {g : α → β}

/-- The bindings with other values. -/
def map (g : α → β) (b : Bindings α) : Bindings β := ⟨b.entries.map fun e => (e.1, g e.2)⟩

/-- Values that a function leaves alone are left alone in bindings. -/
theorem map_id_of_all {g : α → α} {b : Bindings α} (h : b.All fun v => g v = v) : b.map g = b := by
  obtain ⟨entries⟩ := b
  unfold map
  congr 1
  refine (List.map_congr_left fun e he => ?_).trans (List.map_id entries)
  rw [h e he]
  rfl

/-- A name stands for the image of what it stood for. -/
theorem get?_map (b : Bindings α) (name : String) : (b.map g).get? name = (b.get? name).map g := by
  obtain ⟨entries⟩ := b
  unfold get? map
  induction entries with
  | nil => rfl
  | cons e rest ih =>
    simp only [List.map_cons, findEntry]
    split
    · rfl
    · exact ih

theorem map_set (b : Bindings α) (name : String) (v : α) :
    (b.set name v).map g = (b.map g).set name (g v) := by
  obtain ⟨entries⟩ := b
  simp only [set, map, mk.injEq]
  induction entries with
  | nil => rfl
  | cons e rest ih =>
    simp only [List.map_cons, setEntry]
    split
    · rfl
    · rw [List.map_cons, ih]

/-- Bindings of images are images of bindings. -/
theorem map_ofList (entries : List (String × α)) :
    (ofList entries).map g = ofList (entries.map fun e => (e.1, g e.2)) := by
  have hfold : ∀ b : Bindings α, (entries.foldl (fun b e => b.set e.1 e.2) b).map g =
      (entries.map fun e => (e.1, g e.2)).foldl (fun b e => b.set e.1 e.2) (b.map g) := by
    induction entries with
    | nil => exact fun b => rfl
    | cons e rest ih =>
      intro b
      rw [List.foldl_cons, ih, map_set]
      rfl
  exact hfold empty

end Bindings

/-! ## Values, frames and closures -/

section

variable (r : Renumbering)

/-- The value at its new place. -/
def Value.renumber : Value → Value
  | .number x => .number x
  | .closure c => .closure (r.closures.place c)

/-- The frame with what it refers to at the new places. -/
def Frame.renumber (frame : Frame) : Frame :=
  ⟨frame.bindings.map (Value.renumber r), frame.parent.map r.frames.place⟩

/-- The closure with the frame that it was made in at its new place. -/
def Closure.renumber (c : Closure) : Closure := { c with frame := r.frames.place c.frame }

end

/-! ## Stores -/

/-- What `s` holds stands in `t` at the places that `r` gives, closures under any name and, where
`exact` holds, under their own. -/
structure Store.Renumbers (r : Renumbering) (exact : Prop) (s t : Store) : Prop where
  root : r.frames.place Store.root = Store.root
  frames_start : r.frames.start ≤ s.frames.size
  frames_size : t.frames.size = s.frames.size + r.frames.added
  closures_start : r.closures.start ≤ s.closures.size
  closures_size : t.closures.size = s.closures.size + r.closures.added
  frame : ∀ {f : FrameId} {frame : Frame}, s.frames[f]? = some frame →
    t.frames[r.frames.place f]? = some (frame.renumber r)
  closure : ∀ {c : ClosureId} {closure : Closure}, s.closures[c]? = some closure →
    ∃ name, t.closures[r.closures.place c]? = some { closure.renumber r with name } ∧
      (exact → name = closure.name)
  /-- The names in the bodies of functions can be written. -/
  wellFormed : ∀ {c : ClosureId} {closure : Closure}, s.closures[c]? = some closure →
    closure.body.WellFormed

namespace Store.Renumbers

variable {r : Renumbering} {exact : Prop} {s t : Store}

/-! ### Looking -/

/-- A frame of the first store stands in the second one, renumbered. -/
theorem frame_eq (h : Renumbers r exact s t) (f : FrameId) :
    t.frame (r.frames.place f) = (s.frame f).renumber r := by
  cases hf : s.frames[f]? with
  | some frame => rw [Store.frame_eq (h.frame hf), Store.frame_eq hf]
  | none =>
    have hsize : t.frames.size ≤ r.frames.place f := by
      have hout := Array.getElem?_eq_none_iff.mp hf
      rwa [← Nat.not_lt, Shift.place_lt_size h.frames_start h.frames_size, Nat.not_lt]
    rw [Store.frame_missing (Array.getElem?_eq_none_iff.mpr hsize), Store.frame_missing hf]
    rfl

/-- A function of the first store stands in the second one, renumbered, and perhaps under another
name. -/
theorem closure_eq (h : Renumbers r exact s t) (c : ClosureId) :
    ∃ name, t.closure (r.closures.place c) = { (s.closure c).renumber r with name } ∧
      (exact → name = (s.closure c).name) := by
  cases hc : s.closures[c]? with
  | some closure =>
    obtain ⟨name, hc', hname⟩ := h.closure hc
    rw [Store.closure_eq hc', Store.closure_eq hc]
    exact ⟨name, rfl, hname⟩
  | none =>
    have hsize : t.closures.size ≤ r.closures.place c := by
      have hout := Array.getElem?_eq_none_iff.mp hc
      rwa [← Nat.not_lt, Shift.place_lt_size h.closures_start h.closures_size, Nat.not_lt]
    rw [Store.closure_missing (Array.getElem?_eq_none_iff.mpr hsize), Store.closure_missing hc]
    have hroot : r.frames.place 0 = 0 := h.root
    exact ⟨none, by simp [Closure.renumber, hroot], fun _ => rfl⟩

theorem params_eq (h : Renumbers r exact s t) (c : ClosureId) :
    (t.closure (r.closures.place c)).params = (s.closure c).params := by
  obtain ⟨name, hc, -⟩ := h.closure_eq c
  rw [hc]
  rfl

theorem arity_eq (h : Renumbers r exact s t) (c : ClosureId) :
    (t.closure (r.closures.place c)).arity = (s.closure c).arity :=
  congrArg List.length (h.params_eq c)

theorem bindings_eq (h : Renumbers r exact s t) (f : FrameId) :
    t.bindings (r.frames.place f) = (s.bindings f).map (Value.renumber r) := by
  unfold Store.bindings
  rw [h.frame_eq f]
  rfl

/-- Parents are older in both stores, so that both searches take the same way. -/
theorem lookup_eq (h : Renumbers r exact s t) (f : FrameId) (name : String) :
    t.lookup (r.frames.place f) name = (s.lookup f name).map (Value.renumber r) := by
  have hframe := h.frame_eq f
  rw [Store.lookup, Store.lookup, hframe]
  unfold Frame.renumber
  dsimp only
  rw [Bindings.get?_map]
  cases (s.frame f).bindings.get? name with
  | some v => rfl
  | none =>
    cases (s.frame f).parent with
    | none => rfl
    | some p =>
      simp only [Option.map_none, Option.map_some, Shift.place_lt_place]
      by_cases hp : p < f
      · rw [if_pos hp, if_pos hp]
        exact h.lookup_eq p name
      · rw [if_neg hp, if_neg hp]
        rfl
termination_by f

/-- Frames keep their depth. -/
theorem depth_eq (h : Renumbers r exact s t) (f : FrameId) :
    t.depth (r.frames.place f) = s.depth f := by
  have hframe := h.frame_eq f
  rw [Store.depth, Store.depth, hframe]
  unfold Frame.renumber
  cases (s.frame f).parent with
  | none => rfl
  | some p =>
    simp only [Option.map_some, Shift.place_lt_place]
    by_cases hp : p < f
    · rw [if_pos hp, if_pos hp, h.depth_eq p]
    · rw [if_neg hp, if_neg hp]
termination_by f

/-- A value and its image are shown alike: functions differ in their name at most. -/
theorem shown_alike (h : Renumbers r exact s t) (v : Value) :
    TextAlike (s.shown v) (t.shown (v.renumber r)) ∧
      (exact → t.shown (v.renumber r) = s.shown v) := by
  cases v with
  | number x => exact ⟨.refl _, fun _ => rfl⟩
  | closure c =>
    obtain ⟨name, hc, hname⟩ := h.closure_eq c
    unfold Value.renumber Store.shown
    dsimp only
    rw [hc]
    refine ⟨.shown rfl, fun hexact => ?_⟩
    rw [hname hexact]
    rfl

theorem shownList_alike (h : Renumbers r exact s t) (vs : List Value) :
    TextAlike (s.shownList vs) (t.shownList (vs.map (Value.renumber r))) ∧
      (exact → t.shownList (vs.map (Value.renumber r)) = s.shownList vs) := by
  unfold Store.shownList
  rw [List.map_map]
  constructor
  · apply TextAlike.intercalate
    rw [List.forall₂_map_left_iff, List.forall₂_map_right_iff]
    exact List.forall₂_same.mpr fun v _ => (h.shown_alike v).1
  · intro hexact
    congr 1
    exact List.map_congr_left fun v _ => (h.shown_alike v).2 hexact

/-! ### Changing -/

/-- A new frame in both stores. -/
theorem addFrame (h : Renumbers r exact s t) (frame : Frame) :
    Renumbers r exact { s with frames := s.frames.push frame }
      { t with frames := t.frames.push (frame.renumber r) } where
  root := h.root
  frames_start := by
    rw [Array.size_push]
    exact h.frames_start.trans (Nat.le_succ _)
  frames_size := by
    rw [Array.size_push, Array.size_push, h.frames_size]
    omega
  closures_start := h.closures_start
  closures_size := h.closures_size
  frame {f frame'} hf := by
    have hplace : r.frames.place f = t.frames.size ↔ f = s.frames.size := by
      rw [← Shift.place_eq_size h.frames_start h.frames_size, Shift.place_inj]
    rw [Array.getElem?_push] at hf ⊢
    by_cases hnew : f = s.frames.size
    · rw [if_pos hnew] at hf
      cases hf
      rw [if_pos (hplace.mpr hnew)]
    · rw [if_neg hnew] at hf
      rw [if_neg (mt hplace.mp hnew)]
      exact h.frame hf
  closure := h.closure
  wellFormed := h.wellFormed

/-- A new closure in both stores. -/
theorem addClosure (h : Renumbers r exact s t) {c : Closure} (hbody : c.body.WellFormed) :
    Renumbers r exact { s with closures := s.closures.push c }
      { t with closures := t.closures.push (c.renumber r) } where
  root := h.root
  frames_start := h.frames_start
  frames_size := h.frames_size
  closures_start := by
    rw [Array.size_push]
    exact h.closures_start.trans (Nat.le_succ _)
  closures_size := by
    rw [Array.size_push, Array.size_push, h.closures_size]
    omega
  frame := h.frame
  closure {i closure'} hi := by
    have hplace : r.closures.place i = t.closures.size ↔ i = s.closures.size := by
      rw [← Shift.place_eq_size h.closures_start h.closures_size, Shift.place_inj]
    rw [Array.getElem?_push] at hi ⊢
    by_cases hnew : i = s.closures.size
    · rw [if_pos hnew] at hi
      cases hi
      rw [if_pos (hplace.mpr hnew)]
      exact ⟨c.name, rfl, fun _ => rfl⟩
    · rw [if_neg hnew] at hi
      rw [if_neg (mt hplace.mp hnew)]
      exact h.closure hi
  wellFormed {i closure'} hi := by
    rw [Array.getElem?_push] at hi
    split at hi
    · cases hi
      exact hbody
    · exact h.wellFormed hi

/-- The same change of a frame in both stores. -/
theorem modifyFrame {k k' : Frame → Frame} (h : Renumbers r exact s t)
    (hk : ∀ frame, k' (frame.renumber r) = (k frame).renumber r) (f : FrameId) :
    Renumbers r exact { s with frames := s.frames.modify f k }
      { t with frames := t.frames.modify (r.frames.place f) k' } where
  root := h.root
  frames_start := by
    rw [Array.size_modify]
    exact h.frames_start
  frames_size := by
    rw [Array.size_modify, Array.size_modify, h.frames_size]
  closures_start := h.closures_start
  closures_size := h.closures_size
  frame {g frame'} hg := by
    rw [Array.getElem?_modify] at hg ⊢
    by_cases hfg : f = g
    · rw [if_pos hfg] at hg
      rw [if_pos (congrArg r.frames.place hfg)]
      obtain ⟨frame, hframe, rfl⟩ := Option.map_eq_some_iff.mp hg
      rw [h.frame hframe, Option.map_some, hk]
    · rw [if_neg hfg] at hg
      rw [if_neg (mt Shift.place_inj.mp hfg)]
      exact h.frame hg
  closure := h.closure
  wellFormed := h.wellFormed

/-- Binding a value in a frame, and its image in the image of the frame, keeps the stores
renumbered. -/
theorem bind (h : Renumbers r exact s t) (f : FrameId) (name : String) (v : Value) :
    Renumbers r exact (s.bind f name v) (t.bind (r.frames.place f) name (v.renumber r)) := by
  refine h.modifyFrame (fun frame => ?_) f
  simp only [Frame.renumber, Bindings.map_set]

theorem setBindings (h : Renumbers r exact s t) (f : FrameId) (b : Bindings Value) :
    Renumbers r exact (s.setBindings f b)
      (t.setBindings (r.frames.place f) (b.map (Value.renumber r))) := by
  refine h.modifyFrame (fun frame => ?_) f
  rfl

/-- Naming a function and its image keeps the stores renumbered. -/
theorem nameClosure (h : Renumbers r exact s t) (c : ClosureId) (name : String) :
    Renumbers r exact (s.nameClosure c name) (t.nameClosure (r.closures.place c) name) where
  root := h.root
  frames_start := h.frames_start
  frames_size := h.frames_size
  closures_start := by
    unfold Store.nameClosure
    rw [Array.size_modify]
    exact h.closures_start
  closures_size := by
    unfold Store.nameClosure
    rw [Array.size_modify, Array.size_modify, h.closures_size]
  frame := h.frame
  closure {i closure'} hi := by
    unfold Store.nameClosure at hi ⊢
    rw [Array.getElem?_modify] at hi ⊢
    -- The named function corresponds to the named one, and a place that is not named is not its
    -- image.
    by_cases hci : c = i
    · rw [if_pos hci] at hi
      rw [if_pos (congrArg r.closures.place hci)]
      obtain ⟨closure, hclosure, rfl⟩ := Option.map_eq_some_iff.mp hi
      obtain ⟨name', hc', hname'⟩ := h.closure hclosure
      rw [hc', Option.map_some]
      refine ⟨name'.or (some name), rfl, fun hexact => ?_⟩
      rw [hname' hexact]
    · rw [if_neg hci] at hi
      rw [if_neg (mt Shift.place_inj.mp hci)]
      exact h.closure hi
  wellFormed {i closure'} hi := by
    unfold Store.nameClosure at hi
    rw [Array.getElem?_modify] at hi
    split at hi
    · obtain ⟨closure, hclosure, rfl⟩ := Option.map_eq_some_iff.mp hi
      have hbody : closure.body.WellFormed := h.wellFormed hclosure
      exact hbody
    · exact h.wellFormed hi

end Store.Renumbers

/-! ## Later stores -/

namespace Renumbering

/-- Moves what `t` does not have behind all that `u` has. -/
def behind (t u : Store) : Renumbering :=
  ⟨⟨t.frames.size, u.frames.size - t.frames.size⟩,
    ⟨t.closures.size, u.closures.size - t.closures.size⟩⟩

section Behind

variable {t u : Store}

/-- A value of the first store stays as it is where places are added behind. -/
theorem behind_value {v : Value} (hv : v.Exists t) : v.renumber (behind t u) = v := by
  cases v with
  | number x => rfl
  | closure c =>
    obtain ⟨closure, hc⟩ := hv
    exact congrArg Value.closure (Shift.place_of_lt (Array.getElem?_eq_some_iff.mp hc).1)

/-- A frame of the first store stays as it is where places are added behind. -/
theorem behind_frame (ht : t.Sound) (hformed : t.Formed) {f : FrameId} {frame : Frame}
    (hf : t.frames[f]? = some frame) : frame.renumber (behind t u) = frame := by
  have hlt : f < t.frames.size := (Array.getElem?_eq_some_iff.mp hf).1
  have hbindings : frame.bindings.map (Value.renumber (behind t u)) = frame.bindings :=
    Bindings.map_id_of_all ((ht.bound_exists hf).imp fun _ => behind_value)
  have hparent : frame.parent.map (behind t u).frames.place = frame.parent := by
    cases hp : frame.parent with
    | none => rfl
    | some p =>
      have holder := hformed.parent_older hf hp
      exact congrArg some (Shift.place_of_lt (Nat.lt_trans holder hlt))
  unfold Frame.renumber
  rw [hbindings, hparent]

/-- A function of the first store stays as it is where places are added behind. -/
theorem behind_closure (hformed : t.Formed) {c : ClosureId} {closure : Closure}
    (hc : t.closures[c]? = some closure) : closure.renumber (behind t u) = closure := by
  have hframe : (behind t u).frames.place closure.frame = closure.frame :=
    Shift.place_of_lt (hformed.frame_exists hc)
  unfold Closure.renumber
  rw [hframe]

end Behind

end Renumbering

/-! ## Nothing moved -/

namespace Renumbering

/-- The renumbering that leaves everything where it is. -/
def same : Renumbering := ⟨⟨0, 0⟩, ⟨0, 0⟩⟩

@[simp] theorem same_frames (f : FrameId) : same.frames.place f = f := rfl

@[simp] theorem same_value (v : Value) : v.renumber same = v := by
  cases v with
  | number x => rfl
  | closure c => rfl

@[simp] theorem same_values (vs : List Value) : vs.map (Value.renumber same) = vs :=
  (List.map_congr_left fun v _ => same_value v).trans (List.map_id vs)

@[simp] theorem same_frame (frame : Frame) : frame.renumber same = frame := by
  obtain ⟨bindings, parent⟩ := frame
  unfold Frame.renumber
  congr 1
  · exact Bindings.map_id_of_all fun e _ => same_value e.2
  · cases parent with
    | none => rfl
    | some p => rfl

end Renumbering

/-- A store renumbers itself. -/
theorem Store.Formed.renumbers_same {s : Store} (h : s.Formed) :
    s.Renumbers .same True s where
  root := rfl
  frames_start := Nat.zero_le _
  frames_size := rfl
  closures_start := Nat.zero_le _
  closures_size := rfl
  frame {f frame} hf := by rwa [Renumbering.same_frames, Renumbering.same_frame]
  closure {c closure} hc := ⟨closure.name, hc, fun _ => rfl⟩
  wellFormed := h.body_wellFormed

/-- Stores that hold the same at the same places, with the same names, are the same. -/
theorem Store.Renumbers.eq_of_same {s t : Store} (h : s.Renumbers .same True t) : t = s := by
  obtain ⟨frames, closures⟩ := s
  obtain ⟨frames', closures'⟩ := t
  congr 1
  · refine Array.ext h.frames_size fun f _ hf => ?_
    have hframe := h.frame (Array.getElem?_eq_getElem hf)
    rw [Renumbering.same_frame] at hframe
    exact (Array.getElem?_eq_some_iff.mp hframe).2
  · refine Array.ext h.closures_size fun c _ hc => ?_
    obtain ⟨name, hclosure, hname⟩ := h.closure (Array.getElem?_eq_getElem hc)
    rw [hname trivial] at hclosure
    exact (Array.getElem?_eq_some_iff.mp hclosure).2

end Abacus
