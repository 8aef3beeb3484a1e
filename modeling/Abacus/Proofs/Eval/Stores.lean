import Abacus.Eval.Reply
import Abacus.Proofs.Eval.Frames

/-!
# Sound stores

A value `Value.Exists` in a store when it is a number or the store holds its closure, and it is
`Value.Named` when moreover the closure has a name. A store is `Store.Sound` when all that its
frames bind exists, and all that its root frame binds is named.

Whatever a program in the root frame does leaves the store sound, of whatever depth its calls are
and however it ends (`Store.sound_of_evalProgram`), and so does a call of a closure
(`Store.sound_of_callClosure`). No value ceases to exist or to be named on the way.
-/

namespace Abacus

/-! ## All values of bindings -/

namespace Bindings

variable {α : Type} {p q : α → Prop} {b : Bindings α}

/-- Every value, under whatever name, has the property. -/
def All (p : α → Prop) (b : Bindings α) : Prop := ∀ e ∈ b.entries, p e.2

theorem All.imp (hb : b.All p) (h : ∀ v, p v → q v) : b.All q := fun e he => h e.2 (hb e he)

theorem all_empty : (empty : Bindings α).All p := fun _ he => by cases he

theorem All.get? {name : String} {v : α} (hb : b.All p) (hv : b.get? name = some v) : p v := by
  obtain ⟨entries⟩ := b
  unfold Bindings.get? at hv
  induction entries with
  | nil => cases hv
  | cons e rest ih =>
    unfold findEntry at hv
    split at hv
    · cases hv
      exact hb e List.mem_cons_self
    · exact ih (fun e he => hb e (List.mem_cons_of_mem _ he)) hv

/-- Rebinding a name keeps what holds of all bindings, if it holds of the value. -/
theorem All.set {name : String} {v : α} (hb : b.All p) (hv : p v) : (b.set name v).All p := by
  obtain ⟨entries⟩ := b
  unfold Bindings.set
  induction entries with
  | nil => exact List.forall_mem_cons.mpr ⟨hv, fun _ he => by cases he⟩
  | cons e rest ih =>
    have hrest : All p ⟨rest⟩ := fun e he => hb e (List.mem_cons_of_mem _ he)
    unfold setEntry
    split
    · exact List.forall_mem_cons.mpr ⟨hv, hrest⟩
    · exact List.forall_mem_cons.mpr ⟨hb e List.mem_cons_self, ih hrest⟩

theorem all_ofList {entries : List (String × α)} (h : ∀ e ∈ entries, p e.2) :
    (ofList entries).All p := by
  have hfold : ∀ b : Bindings α, b.All p → (entries.foldl (fun b e => b.set e.1 e.2) b).All p := by
    induction entries with
    | nil => exact fun b hb => hb
    | cons e rest ih =>
      intro b hb
      exact ih (fun e he => h e (List.mem_cons_of_mem _ he)) _ (hb.set (h e List.mem_cons_self))
  exact hfold empty all_empty

end Bindings

/-! ## Values in a store -/

namespace Value

/-- The value is a number or a closure that the store holds. -/
def Exists (s : Store) : Value → Prop
  | .number _ => True
  | .closure c => ∃ closure, s.closures[c]? = some closure

/-- The value is a number or a closure that the store holds with a name. -/
def Named (s : Store) : Value → Prop
  | .number _ => True
  | .closure c => ∃ closure, s.closures[c]? = some closure ∧ closure.name ≠ none

variable {s : Store} {v : Value}

/-- A value with a name is a value that exists. -/
theorem Named.exists (h : v.Named s) : v.Exists s := by
  cases v with
  | number x => trivial
  | closure c =>
    obtain ⟨closure, hc, -⟩ := h
    exact ⟨closure, hc⟩

/-- Whether a value exists or is named is up to the closures. -/
theorem exists_setBindings {f : FrameId} {b : Bindings Value} :
    v.Exists (s.setBindings f b) ↔ v.Exists s := by
  cases v <;> rfl

theorem named_setBindings {f : FrameId} {b : Bindings Value} :
    v.Named (s.setBindings f b) ↔ v.Named s := by
  cases v <;> rfl

section Preserved

open State (Preserved)

variable {f : FrameId} {names : List String} {s t : State} {v : Value}

/-- A step that preserves a store loses none of its closures. -/
theorem Exists.of_preserved (h : Preserved f names s t) (hv : v.Exists s.store) :
    v.Exists t.store := by
  cases v with
  | number x => trivial
  | closure c =>
    obtain ⟨closure, hc⟩ := hv
    rcases h.closure hc with hc' | ⟨-, name, -, hc'⟩
    · exact ⟨closure, hc'⟩
    · exact ⟨_, hc'⟩

theorem Named.of_preserved (h : Preserved f names s t) (hv : v.Named s.store) :
    v.Named t.store := by
  cases v with
  | number x => trivial
  | closure c =>
    obtain ⟨closure, hc, hname⟩ := hv
    rcases h.closure hc with hc' | ⟨hnone, -⟩
    · exact ⟨closure, hc', hname⟩
    · exact absurd hnone hname

end Preserved

end Value

/-! ## The invariant -/

namespace Store

/-- There is a root frame, what frames bind exists, and what the root frame binds is named. -/
structure Sound (s : Store) : Prop where
  root_exists : ∃ frame, s.frames[root]? = some frame
  bound_exists : ∀ {g : FrameId} {frame : Frame}, s.frames[g]? = some frame →
    frame.bindings.All (Value.Exists s)
  root_named : ∀ {frame : Frame}, s.frames[root]? = some frame →
    frame.bindings.All (Value.Named s)

theorem sound_initial : initial.Sound := by
  have hframes : ∀ {g : FrameId} {frame : Frame}, initial.frames[g]? = some frame →
      frame.bindings = .empty := by
    intro g frame hg
    match g, hg with
    | 0, hg => cases hg; rfl
    | _ + 1, hg => cases hg
  refine ⟨⟨_, rfl⟩, fun hg => ?_, fun hg => ?_⟩
  · rw [hframes hg]
    exact Bindings.all_empty
  · rw [hframes hg]
    exact Bindings.all_empty

variable {s : Store}

theorem bindings_of_getElem? {g : FrameId} {frame : Frame} (h : s.frames[g]? = some frame) :
    s.bindings g = frame.bindings := by
  rw [Store.bindings, frame_eq h]

theorem Sound.bindings_exist (hs : s.Sound) (g : FrameId) :
    (s.bindings g).All (Value.Exists s) := by
  cases hg : s.frames[g]? with
  | none =>
    rw [Store.bindings, frame_missing hg]
    exact Bindings.all_empty
  | some frame =>
    rw [bindings_of_getElem? hg]
    exact hs.bound_exists hg

theorem Sound.bindings_named (hs : s.Sound) : (s.bindings root).All (Value.Named s) := by
  obtain ⟨frame, hroot⟩ := hs.root_exists
  rw [bindings_of_getElem? hroot]
  exact hs.root_named hroot

/-- A name never leads to a closure that is not in the store. -/
theorem Sound.lookup_exists (hs : s.Sound) {f : FrameId} {name : String} {v : Value}
    (h : s.lookup f name = some v) : v.Exists s := by
  fun_induction Store.lookup s f name with
  | case1 f w hw =>
    cases h
    exact (hs.bindings_exist f).get? hw
  | case2 => cases h
  | case3 f _ p _ hlt ih => exact ih h
  | case4 => cases h

theorem frames_setBindings {b : Bindings Value} {g : FrameId} {frame : Frame}
    (h : (s.setBindings root b).frames[g]? = some frame) :
    s.frames[g]? = some frame ∧ g ≠ root ∨ frame.bindings = b := by
  unfold Store.setBindings at h
  rw [Array.getElem?_modify] at h
  split at h
  · obtain ⟨_, _, hset⟩ := Option.map_eq_some_iff.mp h
    exact .inr (by rw [← hset])
  · rename_i hne
    exact .inl ⟨h, Ne.symm hne⟩

/-- The root frame may be given any bindings of named values. -/
theorem Sound.setBindings {b : Bindings Value} (hs : s.Sound) (hb : b.All (Value.Named s)) :
    (s.setBindings root b).Sound where
  root_exists := by
    obtain ⟨frame, hroot⟩ := hs.root_exists
    refine ⟨{ frame with bindings := b }, ?_⟩
    unfold Store.setBindings
    rw [Array.getElem?_modify, if_pos rfl, hroot]
    rfl
  bound_exists hg := by
    rcases frames_setBindings hg with ⟨hold, -⟩ | hnew
    · exact (hs.bound_exists hold).imp fun _ => Value.exists_setBindings.mpr
    · rw [hnew]
      exact hb.imp fun _ hv => Value.exists_setBindings.mpr hv.exists
  root_named hroot := by
    rcases frames_setBindings hroot with ⟨-, hne⟩ | hnew
    · exact absurd rfl hne
    · rw [hnew]
      exact hb.imp fun _ => Value.named_setBindings.mpr

open State (Preserved)

/-- A store stays sound when it was preserved and each frame is an old one or binds what may be
bound there. -/
theorem Sound.of_preserved {names : List String} {s t : State} (hs : s.store.Sound)
    (h : Preserved root names s t)
    (hframes : ∀ {g : FrameId} {frame : Frame}, t.store.frames[g]? = some frame →
      s.store.frames[g]? = some frame ∨ frame.bindings.All (Value.Exists t.store) ∧
        (g = root → frame.bindings.All (Value.Named t.store))) : t.store.Sound where
  root_exists := by
    obtain ⟨frame, hroot⟩ := hs.root_exists
    obtain ⟨frame', hroot', -⟩ := h.own hroot
    exact ⟨frame', hroot'⟩
  bound_exists hg := by
    rcases hframes hg with hold | ⟨hnew, -⟩
    · exact (hs.bound_exists hold).imp fun v hv => hv.of_preserved h
    · exact hnew
  root_named hroot := by
    rcases hframes hroot with hold | ⟨-, hnew⟩
    · exact (hs.root_named hold).imp fun v hv => hv.of_preserved h
    · exact hnew rfl

/-- Keeping the store sound, while what was there before is preserved. -/
def soundness (names : List String) : Policy where
  holds s := s.store.Sound
  allows := Preserved root names
  refl := Preserved.refl
  trans := Preserved.trans

theorem evaluates_soundness (names : List String) :
    (soundness names).Evaluates (fun s v => v.Exists s.store) (fun _ _ => True) where
  valid_of_allows h hv := hv.of_preserved h
  current_of_allows _ _ := trivial
  number _ _ := trivial
  lookup hs _ hv := hs.lookup_exists hv
  write e hs := ⟨hs, (State.Grows.write e).extends.preserved⟩
  makeClosure {s f params} body hs _ _ := by
    have hpreserved : Preserved root names s (s.makeClosure ⟨params, body, f, none⟩) :=
      (State.Grows.makeClosure _).extends.preserved
    have hsound := Sound.of_preserved hs hpreserved fun hg => .inl hg
    exact ⟨hsound, hpreserved, _, Array.getElem?_push_size⟩
  openFrame {s c args} hs _ hargs := by
    intro frame
    have hpreserved : Preserved root names s (s.openFrame frame) :=
      (State.Grows.openFrame frame).extends.preserved
    have hbound : frame.bindings.All (Value.Exists s.store) :=
      Bindings.all_ofList fun e he => hargs e.2 (List.of_mem_zip he).2
    refine ⟨Sound.of_preserved hs hpreserved fun {g frame'} hg => ?_, hpreserved, trivial⟩
    -- The root frame was there before, so that the new frame is another one.
    obtain ⟨_, hroot⟩ := hs.root_exists
    have hpos : root < s.store.frames.size := (Array.getElem?_eq_some_iff.mp hroot).1
    unfold State.openFrame at hg
    rw [Array.getElem?_push] at hg
    split at hg
    · rename_i hnew
      cases hg
      refine .inr ⟨hbound.imp fun v hv => hv.of_preserved hpreserved, fun hold => ?_⟩
      exact absurd (hnew.symm.trans hold) (Nat.ne_of_gt hpos)
    · exact .inl hg

theorem assigns_soundness (names : List String) :
    (soundness names).Assigns (fun s v => v.Exists s.store) (fun s v => v.Named s.store) root
      names where
  bindable_of_allows h hv := hv.of_preserved h
  number _ _ := trivial
  nameClosure {s c name} hs hc hname _ := by
    obtain ⟨closure, hc⟩ := hc
    -- A closure is named once. One that has a name keeps it, and then the store is unchanged.
    by_cases hnone : closure.name = none
    · have hpreserved : Preserved root names s (s.nameClosure c name) :=
        State.preserved_nameClosure hname hc hnone
      refine ⟨Sound.of_preserved hs hpreserved fun hg => .inl hg, hpreserved, ?_⟩
      refine ⟨{ closure with name := some name }, ?_, by simp⟩
      unfold State.nameClosure Store.nameClosure
      rw [Array.getElem?_modify, if_pos rfl, hc]
      simp [hnone]
    · have hself : s.nameClosure c name = s := State.nameClosure_eq_self fun closure' hc' => by
        rw [hc] at hc'
        cases hc'
        exact hnone
      rw [hself]
      exact ⟨hs, Preserved.refl s, closure, hc, hnone⟩
  bind {s name v} hs hv hname _ := by
    have hpreserved : Preserved root names s (s.bind root name v) :=
      State.preserved_bind v hname
    -- Binding rewrites the root frame alone, so only a bound closure of the root has to be shown
    -- again to exist and to be named.
    refine ⟨Sound.of_preserved hs hpreserved fun {g frame'} hg => ?_, hpreserved⟩
    unfold State.bind Store.bind at hg
    rw [Array.getElem?_modify] at hg
    split at hg
    · rename_i hroot
      subst hroot
      obtain ⟨frame, hframe, hset⟩ := Option.map_eq_some_iff.mp hg
      cases hset
      have hbound := (hs.bound_exists hframe).imp fun v hv => hv.of_preserved hpreserved
      have hnamed := (hs.root_named hframe).imp fun v hv => hv.of_preserved hpreserved
      have hv' : v.Named (s.bind root name v).store := hv.of_preserved hpreserved
      exact .inr ⟨hbound.set hv'.exists, fun _ => hnamed.set hv'⟩
    · exact .inl hg

/-! ## Runs keep a store sound -/

/-- A program keeps the store sound, and changes only the root, at its own targets. -/
theorem sound_of_evalProgram (set : Settings) (p : Program) {s : State} (hs : s.store.Sound) :
    ((set.evalProgram root p).after s).store.Sound ∧
      Preserved root (targets p.statements) s ((set.evalProgram root p).after s) := by
  have hrun := Settings.evalProgram_obeys (evaluates_soundness (targets p.statements))
    (assigns_soundness _) set p (fun _ h => h) hs trivial
  exact ⟨hrun.holds, hrun.allows⟩

theorem sound_of_callClosure (traced : Bool) (limit : Nat) {s : State} {c : ClosureId}
    {args : List Value} (name : Option String) (hs : s.store.Sound)
    (hc : (Value.closure c).Exists s.store) (hargs : ∀ v ∈ args, v.Exists s.store) :
    ((callClosure traced limit c args name).after s).store.Sound ∧
      Preserved root [] s ((callClosure traced limit c args name).after s) := by
  have hrun : (callClosure traced limit c args name).Obeys (soundness []) _ s :=
    callClosure_obeys (evaluates_soundness []) traced limit hs hc hargs
  exact ⟨hrun.holds, hrun.allows⟩

end Store

end Abacus
