import Abacus.Proofs.Eval.Formed
import Abacus.Proofs.Session.Agreement
import Abacus.Proofs.Session.Rollback

/-!
# Checkpoints

Restoring a snapshot of the root bindings takes a session back to the moment of the snapshot,
whatever sources were evaluated and whatever numbers were set in between: of all that was there at
that moment only names of functions may have changed. So every source then gives what it gave at
that moment but for such names (`Session.restore_agrees`). A source that fails is a special case,
since a session restores its own snapshot then (`Session.agrees_after_failure`). That a failed
source is not quite without a trace is shown by `Session.trace_of_failed_source`.

The store has grown in between, so that later frames and closures get other places. `Store.Formed`
says that nothing refers to a place that was not there at the snapshot, which makes the store of the
restored session a renumbering of the one at the snapshot.
-/

namespace Abacus.Session

variable {s s' : Session} {saved : List (Bindings Value)}

/-! ## Sessions that come up are well-formed -/

theorem formed_ran (hs : s.store.Formed) (set : Settings) (source : String) :
    (s.ran set source).store.Formed := by
  unfold Session.ran
  cases hp : Program.ofSource source with
  | error e => exact hs
  | ok p =>
    exact Store.formed_of_evalProgram set (Program.wellFormed_of_ofSource hp) (s := s.start) hs

theorem formed_eval (hs : s.store.Formed) (set : Settings) (source : String) :
    (s.eval set source).2.store.Formed := by
  have hran := formed_ran hs set source
  rw [eval_snd]
  split
  · exact hran
  · exact hran.setBindings Store.root s.bindings

theorem formed_set {name : String} {value : Document} (hs : s.store.Formed)
    (hset : s.set name value = .ok s') : s'.store.Formed := by
  obtain ⟨-, x, rfl⟩ := bind_of_set hset
  exact hs.bind Store.root name (.number x)

theorem Reachable.formed (h : Reachable s saved) : s.store.Formed := by
  induction h with
  | empty => exact Store.formed_initial
  | set _ hset ih => exact formed_set ih hset
  | eval set source _ ih => exact formed_eval ih set source
  | snapshot _ ih => exact ih
  | restore _ _ ih => exact ih.setBindings Store.root _
  | call set name _ _ _ ih =>
    exact Store.formed_of_callClosure set.traceRun set.limit _ _ name (s := ⟨_, #[]⟩) ih

/-! ## Sessions that are rolled back -/

/-- Every function of `s` still has the name that it had, or still has none. -/
def NamesKept (s s' : Session) : Prop :=
  ∀ {c : ClosureId} {closure : Closure}, s.store.closures[c]? = some closure →
    s'.store.closures[c]? = some closure

theorem size_le_of_getElem? {α : Type} {xs ys : Array α}
    (h : ∀ (i : Nat) (x : α), xs[i]? = some x → ∃ y, ys[i]? = some y) : xs.size ≤ ys.size := by
  by_cases hlt : ys.size < xs.size
  · obtain ⟨y, hy⟩ := h ys.size xs[ys.size] (Array.getElem?_eq_getElem hlt)
    have hbound := (Array.getElem?_eq_some_iff.mp hy).1
    omega
  · omega

/-- The store of a session that is rolled back has what was there before at the same places, and
gives out later places behind what it has got in between. -/
theorem RolledBack.renumbers (h : RolledBack s s') (hs : s.store.Sound) (hformed : s.store.Formed) :
    s.store.Renumbers (.behind s.store s'.store) (NamesKept s s') s'.store := by
  have hframes : s.store.frames.size ≤ s'.store.frames.size :=
    size_le_of_getElem? fun f frame hf => ⟨frame, h.frames hf⟩
  have hclosures : s.store.closures.size ≤ s'.store.closures.size := by
    refine size_le_of_getElem? fun c closure hc => ?_
    obtain ⟨name, hc', -⟩ := h.closures hc
    exact ⟨_, hc'⟩
  -- What a failed program left behind stands past everything old, so old places keep their numbers
  -- and only the tail is skipped.
  exact {
    root := Shift.place_of_lt hformed.root_exists
    frames_start := Nat.le_refl _
    frames_size := (Nat.add_sub_cancel' hframes).symm
    closures_start := Nat.le_refl _
    closures_size := (Nat.add_sub_cancel' hclosures).symm
    frame := fun {f frame} hf => by
      have hplace : (Renumbering.behind s.store s'.store).frames.place f = f :=
        Shift.place_of_lt (Array.getElem?_eq_some_iff.mp hf).1
      rw [hplace, Renumbering.behind_frame hs hformed hf]
      exact h.frames hf
    closure := fun {c closure} hc => by
      have hplace : (Renumbering.behind s.store s'.store).closures.place c = c :=
        Shift.place_of_lt (Array.getElem?_eq_some_iff.mp hc).1
      obtain ⟨name, hc', -⟩ := h.closures hc
      rw [hplace, Renumbering.behind_closure hformed hc]
      refine ⟨name, hc', fun hkept => ?_⟩
      rw [hkept hc] at hc'
      exact (congrArg Closure.name (Option.some.inj hc')).symm
    wellFormed := hformed.body_wellFormed }

/-- Where a session is rolled back, every source gives what it gave before but for names of
functions, and the same where no function got a name. -/
theorem Reachable.agrees_of_rolledBack (h : Reachable s saved) (hback : RolledBack s s')
    (set : Settings) (source : String) :
    Agrees (NamesKept s s') (s.eval set source) (s'.eval set source) := by
  have hrenumbers := hback.renumbers h.sound.store h.formed
  exact (agrees_of_renumbers hrenumbers set source).1

/-! ## Failing sources -/

/-- After a source that failed, every source gives what it would have given without it, but for
names of functions: the same value, or an error that differs at most in the name of a function that
it shows; the same printed texts; and the same bindings. Where the failed source named no function
that was there before, nothing differs at all. -/
theorem agrees_after_failure (h : Reachable s saved) (set set' : Settings)
    (failed source : String) {e : Failure} (he : (s.eval set failed).1.result = .error e) :
    Agrees (NamesKept s (s.eval set failed).2) (s.eval set' source)
      ((s.eval set failed).2.eval set' source) := by
  obtain ⟨-, names, hpreserved⟩ := sound_ran h.sound.store set failed
  have hback : RolledBack s (s.eval set failed).2 := by
    rw [eval_snd, he]
    exact rolledBack_of_preserved h.sound.store hpreserved
  exact h.agrees_of_rolledBack hback set' source

/-- A failing source names a function that is reached through another one, and nothing but this name
differs afterwards. -/
theorem agrees_after_failure_named :
    let set : Settings := ⟨false, false, 8⟩
    let s := (Session.empty.eval set "def hold(f) = () => f; g = hold(x => x)").2
    let failed := "h = g(); 1 / 0"
    (s.eval set failed).1.result = .error (.fault (.eval (.divisionByZero .quotient))) ∧
      Agrees (NamesKept s (s.eval set failed).2) (s.eval set "g() + 1")
        ((s.eval set failed).2.eval set "g() + 1") := by
  intro set s failed
  have hreachable : Reachable s [] := .eval set _ .empty
  have he : (s.eval set failed).1.result = .error (.fault (.eval (.divisionByZero .quotient))) := by
    decide +kernel
  exact ⟨he, agrees_after_failure hreachable set set failed "g() + 1" he⟩

/-- The name can be seen: an error that shows the function shows it with the name that the failing
source gave it. Only what the root frame binds has a name before it can be named again. -/
theorem trace_of_failed_source :
    let set : Settings := ⟨false, false, 8⟩
    let s := (Session.empty.eval set "def hold(f) = () => f; g = hold(x => x)").2
    let s' := (s.eval set "h = g(); 1 / 0").2
    Reachable s [] ∧
      (s.eval set "h = g(); 1 / 0").1.result =
        .error (.fault (.eval (.divisionByZero .quotient))) ∧
      (s.eval set "g() + 1").1.result =
        .error (.fault (.eval (.functionAsNumber "<lambda(x)>" none "+"))) ∧
      (s'.eval set "g() + 1").1.result =
        .error (.fault (.eval (.functionAsNumber "<h(x)>" (some "h") "+"))) := by
  intro set s s'
  exact ⟨.eval set _ .empty, by decide +kernel, by decide +kernel, by decide +kernel⟩

/-! ## Snapshots -/

/-- What may be done to a session between a snapshot and its restoration. -/
inductive Operation where
  | set (name : String) (value : Document)
  | eval (set : Settings) (source : String)

/-- The session after an operation. One that sets no binding leaves it as it is. -/
def perform (s : Session) : Operation → Session
  | .set name value =>
    match s.set name value with
    | .ok s' => s'
    | .error _ => s
  | .eval set source => (s.eval set source).2

/-- The session after operations, one after the other. -/
def performAll (s : Session) (ops : List Operation) : Session := ops.foldl perform s

theorem Reachable.perform (h : Reachable s saved) (op : Operation) :
    Reachable (s.perform op) saved := by
  cases op with
  | set name value =>
    simp only [Session.perform]
    cases hset : s.set name value with
    | ok s' => exact .set h hset
    | error e => exact h
  | eval set source => exact .eval set source h

theorem Keeps.refl (s : Session) : Keeps s s :=
  ⟨fun h _ => h, fun h => ⟨_, h, rfl⟩, fun h => ⟨_, h, fun _ => rfl⟩⟩

theorem Keeps.trans {s₁ s₂ s₃ : Session} (h : Keeps s₁ s₂) (h' : Keeps s₂ s₃) : Keeps s₁ s₃ where
  other hf hne := h'.other (h.other hf hne) hne
  own hf := by
    obtain ⟨frame₂, hf₂, hparent₂⟩ := h.own hf
    obtain ⟨frame₃, hf₃, hparent₃⟩ := h'.own hf₂
    exact ⟨frame₃, hf₃, hparent₃.trans hparent₂⟩
  closures hc := by
    obtain ⟨name₂, hc₂, hname₂⟩ := h.closures hc
    obtain ⟨name₃, hc₃, hname₃⟩ := h'.closures hc₂
    refine ⟨name₃, hc₃, fun hname => ?_⟩
    have hsame := hname₂ hname
    rw [hname₃ (by rwa [hsame]), hsame]

theorem Keeps.restore (h : Keeps s s') (b : Bindings Value) : Keeps s (s'.restore b) where
  other hf hne := by
    unfold Session.restore Store.setBindings
    rw [Array.getElem?_modify, if_neg (Ne.symm hne)]
    exact h.other hf hne
  own hf := by
    obtain ⟨frame', hf', hparent⟩ := h.own hf
    unfold Session.restore Store.setBindings
    rw [Array.getElem?_modify, if_pos rfl, hf']
    exact ⟨_, rfl, hparent⟩
  closures := h.closures

/-- One operation keeps all but root bindings and missing names. -/
theorem Reachable.keeps_perform (h : Reachable s saved) (op : Operation) :
    Keeps s (s.perform op) := by
  cases op with
  | set name value =>
    simp only [Session.perform]
    cases hset : s.set name value with
    | ok s' =>
      obtain ⟨-, x, rfl⟩ := bind_of_set hset
      exact keeps_of_preserved (State.preserved_bind (.number x) (List.mem_singleton_self name))
    | error e => exact .refl s
  | eval set source =>
    obtain ⟨-, names, hpreserved⟩ := sound_ran h.sound.store set source
    have hran := keeps_of_preserved hpreserved
    simp only [Session.perform]
    rw [eval_snd]
    split
    · exact hran
    · exact hran.restore s.bindings

/-- So do all operations, one after the other. -/
theorem Reachable.keeps_performAll (h : Reachable s saved) (ops : List Operation) :
    Keeps s (s.performAll ops) := by
  induction ops generalizing s with
  | nil => exact .refl s
  | cons op ops ih => exact (h.keeps_perform op).trans (ih (h.perform op))

/-- Restoring the root bindings that were saved at some moment takes a session back to that moment,
whatever was set and evaluated in between: every source gives what it gave then, but for names of
functions in error texts, in traces and in bindings, and the same where functions have the names
that they had. -/
theorem restore_agrees (h : Reachable s saved) (ops : List Operation) (set : Settings)
    (source : String) :
    Agrees (NamesKept s ((s.performAll ops).restore s.bindings)) (s.eval set source)
      (((s.performAll ops).restore s.bindings).eval set source) :=
  h.agrees_of_rolledBack (rolledBack_of_keeps h.sound.store (h.keeps_performAll ops)) set source

/-- Between the snapshot and its restoration a number is set, a function is bound anew, another name
comes up and a source fails. -/
theorem restore_agrees_rebound :
    let set : Settings := ⟨false, false, 8⟩
    let s := (Session.empty.eval set "def f(x) = x + k; k = 1").2
    let ops : List Operation :=
      [.set "k" (.int 5), .eval set "def f(x) = 0; fresh = f", .eval set "k = 7; 1 / 0"]
    s.names = ["f", "k"] ∧ (s.performAll ops).names = ["f", "k", "fresh"] ∧
      Agrees (NamesKept s ((s.performAll ops).restore s.bindings)) (s.eval set "f(2)")
        (((s.performAll ops).restore s.bindings).eval set "f(2)") := by
  intro set s ops
  have hreachable : Reachable s [] := .eval set _ .empty
  exact ⟨by decide +kernel, by decide +kernel, restore_agrees hreachable ops set "f(2)"⟩

end Abacus.Session
