import Abacus.Session
import Abacus.Proofs.Eval.Stores

/-!
# Failing sources

A source that fails may have bound names, opened frames and named closures before it failed, and
only the root bindings are set back. That this is enough (`Session.eval_rolls_back`) has two
reasons: a program changes no frame but the root frame, and what the root frame binds has a name
already, so that no assignment gives it another one.

The second one is an invariant of sessions, `Session.Sound`. It takes in the bindings that were
saved for later, since they may be restored at any time.
-/

namespace Abacus

namespace Session

/-! ## Sessions that can come up -/

/-- A session that the empty one becomes, with the root bindings that were saved on the way. -/
inductive Reachable : Session → List (Bindings Value) → Prop
  | empty : Reachable .empty []
  | set {s s' : Session} {saved : List (Bindings Value)} {name : String} {value : Document}
      (h : Reachable s saved) (hset : s.set name value = .ok s') : Reachable s' saved
  | eval {s : Session} {saved : List (Bindings Value)} (set : Settings) (source : String)
      (h : Reachable s saved) : Reachable (s.eval set source).2 saved
  | snapshot {s : Session} {saved : List (Bindings Value)} (h : Reachable s saved) :
      Reachable s (s.bindings :: saved)
  | restore {s : Session} {saved : List (Bindings Value)} {b : Bindings Value}
      (h : Reachable s saved) (hb : b ∈ saved) : Reachable (s.restore b) saved
  | call {s : Session} {saved : List (Bindings Value)} (set : Settings) {c : ClosureId}
      {args : List Value} (name : Option String) (h : Reachable s saved)
      (hc : (Value.closure c).Exists s.store) (hargs : ∀ v ∈ args, v.Exists s.store) :
      Reachable ⟨(s.call set c args name).store⟩ saved

/-- The store is sound, and what saved bindings bind is named. -/
structure Sound (s : Session) (saved : List (Bindings Value)) : Prop where
  store : s.store.Sound
  saved_named : ∀ b ∈ saved, b.All (Value.Named s.store)

variable {s : Session} {saved : List (Bindings Value)}

open State (Preserved)

/-- The session as a state in which nothing has been written. -/
def start (s : Session) : State := ⟨s.store, #[]⟩

theorem start_store (run : Run α) : (run.start s.store).store = (run.after s.start).store := rfl

theorem Sound.of_preserved (h : s.Sound saved) {names : List String} {t : State}
    (ht : t.store.Sound) (hpreserved : Preserved Store.root names s.start t) :
    Sound ⟨t.store⟩ saved :=
  ⟨ht, fun b hb => (h.saved_named b hb).imp fun _ hv => hv.of_preserved hpreserved⟩

theorem Sound.restore {b : Bindings Value} (h : s.Sound saved) (hb : b.All (Value.Named s.store)) :
    (s.restore b).Sound saved :=
  ⟨h.store.setBindings hb, fun b' hb' =>
    (h.saved_named b' hb').imp fun _ => Value.named_setBindings.mpr⟩

/-- A session that a name is set in binds it to a number. -/
theorem bind_of_set {s' : Session} {name : String} {value : Document}
    (hset : s.set name value = .ok s') : reservedKind? name = none ∧
      ∃ x, s' = ⟨s.store.bind Store.root name (.number x)⟩ := by
  unfold Session.set at hset
  split at hset
  · cases hset
  · rename_i hfree
    cases hx : numberOf name value with
    | error e =>
      rw [hx] at hset
      cases hset
    | ok x =>
      rw [hx] at hset
      cases hset
      exact ⟨hfree, x, rfl⟩

theorem Sound.set {s' : Session} {name : String} {value : Document} (h : s.Sound saved)
    (hset : s.set name value = .ok s') : s'.Sound saved := by
  obtain ⟨hfree, x, rfl⟩ := bind_of_set hset
  obtain ⟨hsound, hpreserved⟩ := (Store.assigns_soundness [name]).bind (s := s.start)
    (v := .number x) h.store trivial List.mem_cons_self hfree
  exact h.of_preserved hsound hpreserved

theorem Sound.call (h : s.Sound saved) (set : Settings) {c : ClosureId} {args : List Value}
    (name : Option String) (hc : (Value.closure c).Exists s.store)
    (hargs : ∀ v ∈ args, v.Exists s.store) : Sound ⟨(s.call set c args name).store⟩ saved := by
  obtain ⟨hsound, hpreserved⟩ := Store.sound_of_callClosure set.traceRun set.limit
    (s := s.start) name h.store hc hargs
  unfold Session.call
  rw [start_store]
  exact h.of_preserved hsound hpreserved

/-! ## Evaluating a source -/

/-- The state that the program of a source leaves, before anything is set back. -/
def ran (s : Session) (set : Settings) (source : String) : State :=
  match Program.ofSource source with
  | .error _ => s.start
  | .ok p => (set.evalProgram Store.root p).after s.start

theorem eval_snd (s : Session) (set : Settings) (source : String) :
    (s.eval set source).2 = match (s.eval set source).1.result with
      | .ok _ => ⟨(s.ran set source).store⟩
      | .error _ => (Session.mk (s.ran set source).store).restore s.bindings := by
  have hrun : (s.store.evalProgram set Store.root source).2 = (s.ran set source).store := by
    unfold Store.evalProgram Session.ran
    cases Program.ofSource source with
    | error e => rfl
    | ok p => rfl
  unfold Session.eval
  rw [← hrun]
  cases h : (s.store.evalProgram set Store.root source).1.result with
  | error e => simp only [h]
  | ok x => simp only [h]

theorem sound_ran (hs : s.store.Sound) (set : Settings) (source : String) :
    (s.ran set source).store.Sound ∧
      ∃ names, Preserved Store.root names s.start (s.ran set source) := by
  unfold Session.ran
  cases Program.ofSource source with
  | error e => exact ⟨hs, [], Preserved.refl s.start⟩
  | ok p =>
    obtain ⟨hsound, hpreserved⟩ := Store.sound_of_evalProgram set p (s := s.start) hs
    exact ⟨hsound, _, hpreserved⟩

theorem Sound.eval (h : s.Sound saved) (set : Settings) (source : String) :
    (s.eval set source).2.Sound saved := by
  obtain ⟨hsound, names, hpreserved⟩ := sound_ran h.store set source
  have hran : Sound ⟨(s.ran set source).store⟩ saved := h.of_preserved hsound hpreserved
  rw [eval_snd]
  split
  · exact hran
  · exact hran.restore (h.store.bindings_named.imp fun _ hv => hv.of_preserved hpreserved)

theorem Reachable.sound (h : Reachable s saved) : s.Sound saved := by
  induction h with
  | empty => exact ⟨Store.sound_initial, fun _ hb => by cases hb⟩
  | set _ hset ih => exact ih.set hset
  | eval set source _ ih => exact ih.eval set source
  | snapshot _ ih =>
    have hsaved := List.forall_mem_cons.mpr ⟨ih.store.bindings_named, ih.saved_named⟩
    exact ⟨ih.store, hsaved⟩
  | restore _ hb ih => exact ih.restore (ih.saved_named _ hb)
  | call set name _ hc hargs ih => exact ih.call set name hc hargs

/-! ## Rolling back -/

/-- `s'` is as `s` was: its root bindings, in their order; the closures among them, with their
names; and all frames. A closure that the root frame does not bind may have got a name, if it had
none. -/
structure RolledBack (s s' : Session) : Prop where
  bindings : s'.bindings = s.bindings
  bound : ∀ {name : String} {c : ClosureId}, (name, Value.closure c) ∈ s.bindings.entries →
    ∃ closure, s.store.closures[c]? = some closure ∧ s'.store.closures[c]? = some closure
  frames : ∀ {f : FrameId} {frame : Frame}, s.store.frames[f]? = some frame →
    s'.store.frames[f]? = some frame
  closures : ∀ {c : ClosureId} {closure : Closure}, s.store.closures[c]? = some closure →
    ∃ name, s'.store.closures[c]? = some { closure with name } ∧
      (closure.name ≠ none → name = closure.name)

/-- `s'` has all that `s` has, except that the root frame may bind anything and that a closure may
have got a name, if it had none. -/
structure Keeps (s s' : Session) : Prop where
  other : ∀ {f : FrameId} {frame : Frame}, s.store.frames[f]? = some frame → f ≠ Store.root →
    s'.store.frames[f]? = some frame
  own : ∀ {frame : Frame}, s.store.frames[Store.root]? = some frame →
    ∃ frame', s'.store.frames[Store.root]? = some frame' ∧ frame'.parent = frame.parent
  closures : ∀ {c : ClosureId} {closure : Closure}, s.store.closures[c]? = some closure →
    ∃ name, s'.store.closures[c]? = some { closure with name } ∧
      (closure.name ≠ none → name = closure.name)

theorem keeps_of_preserved {names : List String} {t : State}
    (h : Preserved Store.root names s.start t) : Keeps s ⟨t.store⟩ where
  other := h.other
  own hf := by
    obtain ⟨frame', hf', hparent, -⟩ := h.own hf
    exact ⟨frame', hf', hparent⟩
  closures {c closure} hc := by
    rcases h.closure hc with hc' | ⟨hnone, name, -, hc'⟩
    · exact ⟨closure.name, hc', fun _ => rfl⟩
    · exact ⟨some name, hc', fun hname => absurd hnone hname⟩

/-- What a session keeps is rolled back by restoring the root bindings. -/
theorem rolledBack_of_keeps (hs : s.store.Sound) {s' : Session} (h : Keeps s s') :
    RolledBack s (s'.restore s.bindings) := by
  obtain ⟨root, hroot⟩ := hs.root_exists
  have hbindings : s.bindings = root.bindings := Store.bindings_of_getElem? hroot
  have hframes : ∀ {f : FrameId} {frame : Frame}, s.store.frames[f]? = some frame →
      (s'.restore s.bindings).store.frames[f]? = some frame := by
    intro f frame hf
    unfold Session.restore Store.setBindings
    rw [Array.getElem?_modify]
    by_cases hne : Store.root = f
    · subst hne
      rw [hroot] at hf
      cases hf
      obtain ⟨root', hroot', hparent⟩ := h.own hroot
      rw [if_pos rfl, hroot', Option.map_some, hbindings, hparent]
    · rw [if_neg hne, h.other hf (Ne.symm hne)]
  refine ⟨?_, fun {name c} hbound => ?_, hframes, h.closures⟩
  · have hroot' := Store.bindings_of_getElem? (hframes hroot)
    exact hroot'.trans hbindings.symm
  · obtain ⟨closure, hc, hname⟩ := hs.bindings_named _ hbound
    obtain ⟨name', hc', heq⟩ := h.closures hc
    cases heq hname
    exact ⟨closure, hc, hc'⟩

/-- What a program in the root frame leaves is rolled back by restoring the root bindings. -/
theorem rolledBack_of_preserved (hs : s.store.Sound) {names : List String} {t : State}
    (hpreserved : Preserved Store.root names s.start t) :
    RolledBack s ((Session.mk t.store).restore s.bindings) :=
  rolledBack_of_keeps hs (keeps_of_preserved hpreserved)

/-- A source that fails, in reading or at whatever point of its run, leaves a session as it was. -/
theorem eval_rolls_back {s : Session} {saved : List (Bindings Value)} (h : Reachable s saved)
    (set : Settings) (source : String) {e : Failure}
    (he : (s.eval set source).1.result = .error e) : RolledBack s (s.eval set source).2 := by
  have hs := h.sound.store
  obtain ⟨-, names, hpreserved⟩ := sound_ran hs set source
  rw [eval_snd, he]
  exact rolledBack_of_preserved hs hpreserved

/-- An assignment that overwrites, one that adds and one that gives a function a second name are set
back when the division after them fails. -/
theorem eval_rolls_back_division :
    let set : Settings := ⟨false, false, 8⟩
    let s := (Session.empty.eval set "def f(x) = x + k; k = 1").2
    let source := "k = 99; g = f; fresh = f(1) / 0"
    s.names = ["f", "k"] ∧
      (s.eval set source).1.result = .error (.fault (.eval (.divisionByZero .quotient))) ∧
      RolledBack s (s.eval set source).2 := by
  intro set s source
  have hreachable : Reachable s [] := .eval set _ .empty
  have he : (s.eval set source).1.result = .error (.fault (.eval (.divisionByZero .quotient))) := by
    decide +kernel
  exact ⟨by decide +kernel, he, eval_rolls_back hreachable set source he⟩

end Session

end Abacus
