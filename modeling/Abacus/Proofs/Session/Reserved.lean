import Abacus.Proofs.Eval.Formed
import Abacus.Proofs.Eval.Resolution
import Abacus.Proofs.Session.Rollback

/-!
# Reserved names

Names get into frames in three ways: a program assigns to them, a call binds parameters, and a host
sets them. Each way checks that the name is free, the second one long before the call: when the
function is made. So it takes an invariant of frames and functions, `Store.Clean`, to see that no
frame ever binds a reserved name.

That is why it does not matter in which order names are resolved (`Session.never_binds_reserved`):
where constants and built-in functions are looked up, no binding stands in their way.
-/

namespace Abacus

/-! ## Bindings without reserved names -/

namespace Bindings

/-- No bound name is reserved. -/
def Unreserved (b : Bindings Value) : Prop := ∀ name ∈ b.names, reservedKind? name = none

variable {b : Bindings Value} {name : String}

theorem unreserved_empty : (empty : Bindings Value).Unreserved := fun _ h => by cases h

theorem Unreserved.set (hb : b.Unreserved) (hname : reservedKind? name = none) (v : Value) :
    (b.set name v).Unreserved := by
  intro name' h
  rcases mem_names_set.mp h with rfl | h
  · exact hname
  · exact hb name' h

theorem unreserved_ofList {entries : List (String × Value)}
    (h : ∀ e ∈ entries, reservedKind? e.1 = none) : (ofList entries).Unreserved := by
  intro name hname
  obtain ⟨e, he, rfl⟩ := List.mem_map.mp (mem_names_ofList.mp hname)
  exact h e he

/-- A reserved name has no value. -/
theorem Unreserved.get?_eq_none (hb : b.Unreserved) (hname : reservedKind? name ≠ none) :
    b.get? name = none :=
  get?_eq_none_iff.mpr fun hmem => hname (hb name hmem)

end Bindings

/-! ## Stores without reserved names -/

namespace Store

/-- No frame binds a reserved name. -/
def Unreserved (s : Store) : Prop := ∀ f, (s.bindings f).Unreserved

/-- No frame binds a reserved name, and no function has a parameter that is one. -/
structure Clean (s : Store) : Prop where
  bound : ∀ {g : FrameId} {frame : Frame}, s.frames[g]? = some frame → frame.bindings.Unreserved
  params : ∀ {c : ClosureId} {closure : Closure}, s.closures[c]? = some closure →
    ∀ p ∈ closure.params, reservedKind? p = none

variable {s : Store}

theorem Clean.unreserved (hs : s.Clean) : s.Unreserved := by
  intro f
  cases hf : s.frames[f]? with
  | some frame =>
    rw [bindings_of_getElem? hf]
    exact hs.bound hf
  | none =>
    rw [Store.bindings, frame_missing hf]
    exact Bindings.unreserved_empty

theorem clean_initial : initial.Clean where
  bound {g frame} hg := by
    match g, hg with
    | 0, hg =>
      cases hg
      exact Bindings.unreserved_empty
    | _ + 1, hg => cases hg
  params hc := by cases hc

theorem Clean.closure_params (hs : s.Clean) (c : ClosureId) :
    ∀ p ∈ (s.closure c).params, reservedKind? p = none :=
  closure_of (P := fun closure => ∀ p ∈ closure.params, reservedKind? p = none) hs.params
    (fun _ h => by cases h) c

theorem Clean.push_frame (hs : s.Clean) {frame : Frame} (hframe : frame.bindings.Unreserved) :
    Clean { s with frames := s.frames.push frame } where
  bound {g frame'} hg := by
    rw [Array.getElem?_push] at hg
    split at hg
    · cases hg
      exact hframe
    · exact hs.bound hg
  params := hs.params

theorem Clean.push_closure (hs : s.Clean) {c : Closure}
    (hparams : ∀ p ∈ c.params, reservedKind? p = none) :
    Clean { s with closures := s.closures.push c } where
  bound := hs.bound
  params {i closure} hi := by
    rw [Array.getElem?_push] at hi
    split at hi
    · cases hi
      exact hparams
    · exact hs.params hi

theorem Clean.nameClosure (hs : s.Clean) (c : ClosureId) (name : String) :
    (s.nameClosure c name).Clean where
  bound := hs.bound
  params {i closure} hi := by
    unfold Store.nameClosure at hi
    rw [Array.getElem?_modify] at hi
    split at hi
    · obtain ⟨closure', hclosure', rfl⟩ := Option.map_eq_some_iff.mp hi
      have hparams := hs.params hclosure'
      exact hparams
    · exact hs.params hi

/-- A frame may be given any bindings without reserved names. -/
theorem Clean.modify_frame (hs : s.Clean) {k : Frame → Frame} (f : FrameId)
    (hk : ∀ frame, frame.bindings.Unreserved → (k frame).bindings.Unreserved) :
    Clean { s with frames := s.frames.modify f k } where
  bound {g frame} hg := by
    rw [Array.getElem?_modify] at hg
    split at hg
    · obtain ⟨frame', hframe', rfl⟩ := Option.map_eq_some_iff.mp hg
      exact hk frame' (hs.bound hframe')
    · exact hs.bound hg
  params := hs.params

theorem Clean.bind (hs : s.Clean) (f : FrameId) {name : String} (hname : reservedKind? name = none)
    (v : Value) : (s.bind f name v).Clean :=
  hs.modify_frame f fun _ hframe => hframe.set hname v

theorem Clean.setBindings (hs : s.Clean) (f : FrameId) {b : Bindings Value} (hb : b.Unreserved) :
    (s.setBindings f b).Clean :=
  hs.modify_frame f fun _ _ => hb

/-- A reserved name is looked up in vain. -/
theorem Clean.lookup_eq_none (hs : s.Clean) (f : FrameId) {name : String}
    (hname : reservedKind? name ≠ none) : s.lookup f name = none := by
  fun_induction Store.lookup s f name with
  | case1 f v hv =>
    have hnone := (hs.unreserved f).get?_eq_none hname
    unfold Store.bindings at hnone
    rw [hnone] at hv
    cases hv
  | case2 => rfl
  | case3 f _ p _ hlt ih => exact ih
  | case4 => rfl

/-! ## Runs keep stores clean -/

open Relation (ReflTransGen)
open State (Change)

/-- Going on by the single steps of a program, through clean stores only. -/
def cleanliness (names : List String) : Policy where
  holds s := s.store.Clean
  allows := ReflTransGen fun s t => Change root names s t ∧ t.store.Clean
  refl _ := .refl
  trans := ReflTransGen.trans

theorem evaluates_cleanliness (names : List String) :
    (cleanliness names).Evaluates (fun _ _ => True) (fun _ _ => True) where
  valid_of_allows _ _ := trivial
  current_of_allows _ _ := trivial
  number _ _ := trivial
  lookup _ _ _ := trivial
  write e hs := ⟨hs, .single ⟨.grows (.write e), hs⟩⟩
  makeClosure {s f params} body hs _ hparams := by
    have hclean := Clean.push_closure hs (c := ⟨params, body, f, none⟩) hparams
    exact ⟨hclean, .single ⟨.grows (.makeClosure _), hclean⟩, trivial⟩
  openFrame {s c args} hs _ _ := by
    intro frame
    have hbound : frame.bindings.Unreserved := Bindings.unreserved_ofList fun e he =>
      Clean.closure_params hs c e.1 (List.of_mem_zip he).1
    have hclean := Clean.push_frame hs hbound
    exact ⟨hclean, .single ⟨.grows (.openFrame frame), hclean⟩, trivial⟩

theorem assigns_cleanliness (names : List String) :
    (cleanliness names).Assigns (fun _ _ => True) (fun _ _ => True) root names where
  bindable_of_allows _ _ := trivial
  number _ _ := trivial
  nameClosure {s c name} hs _ hname _ := by
    have hclean := Clean.nameClosure hs c name
    refine ⟨hclean, ?_, trivial⟩
    rcases State.nameClosure_eq_or_change (f := root) hname s c with h | h
    · rw [h]
      exact .refl
    · exact .single ⟨h, hclean⟩
  bind {s name v} hs _ hname hfree := by
    have hclean := Clean.bind hs root hfree v
    exact ⟨hclean, .single ⟨.bind v hname, hclean⟩⟩

end Store

/-! ## The order in which names are resolved -/

/-- In clean stores it does not matter that bindings are looked up first. -/
theorem Resolution.framesFirst_agrees (names : List String) :
    framesFirst.Agrees (Store.cleanliness names) where
  value {s f name} hs := by
    unfold framesFirst standard evalVariable
    dsimp only
    rw [Run.on_store_bind]
    cases hc : constant? name with
    | some x =>
      have hreserved : reservedKind? name ≠ none := fun hfree => by
        rw [(reservedKind?_eq_none.mp hfree).1] at hc
        cases hc
      rw [Store.Clean.lookup_eq_none hs f hreserved]
    | none =>
      cases hlookup : s.store.lookup f name with
      | none => rw [Run.on_store_bind, hlookup]
      | some v => rw [Run.on_store_bind, hlookup]
  callee {s f name} hs := by
    unfold framesFirst
    dsimp only
    rw [Run.on_store_bind]
    cases hb : Builtin.ofName? name with
    | some b =>
      have hreserved : reservedKind? name ≠ none := fun hfree => by
        rw [(reservedKind?_eq_none.mp hfree).2.1] at hb
        cases hb
      rw [Store.Clean.lookup_eq_none hs f hreserved, standard_some hb]
    | none =>
      rw [standard_none hb]
      unfold findFunction
      rw [bind_assoc, Run.on_store_bind]
      cases s.store.lookup f name with
      | none => rfl
      | some v => cases v <;> rfl

/-! ## Sessions -/

namespace Session

variable {s : Session} {saved : List (Bindings Value)}

open State (Change)

/-- The store is clean, and so are saved bindings. -/
structure Clean (s : Session) (saved : List (Bindings Value)) : Prop where
  store : s.store.Clean
  saved_unreserved : ∀ b ∈ saved, b.Unreserved

theorem clean_ran (hs : s.store.Clean) (set : Settings) (source : String) :
    (s.ran set source).store.Clean := by
  unfold Session.ran
  cases Program.ofSource source with
  | error e => exact hs
  | ok p =>
    have hrun := Settings.evalProgram_obeys (Store.evaluates_cleanliness _)
      (Store.assigns_cleanliness (targets p.statements)) set p (fun _ h => h) (s := s.start) hs
      trivial
    exact hrun.holds

theorem clean_eval (hs : s.store.Clean) (set : Settings) (source : String) :
    (s.eval set source).2.store.Clean := by
  have hran := clean_ran hs set source
  rw [eval_snd]
  split
  · exact hran
  · exact hran.setBindings Store.root (hs.unreserved Store.root)

theorem clean_call (hs : s.store.Clean) (set : Settings) (c : ClosureId) (args : List Value)
    (name : Option String) : (s.call set c args name).store.Clean := by
  have hrun : (callClosure set.traceRun set.limit c args name).Obeys (Store.cleanliness []) _
      s.start :=
    callClosure_obeys (Store.evaluates_cleanliness []) set.traceRun set.limit hs trivial
      fun _ _ => trivial
  exact hrun.holds

theorem Reachable.clean (h : Reachable s saved) : s.Clean saved := by
  induction h with
  | empty => exact ⟨Store.clean_initial, fun _ hb => by cases hb⟩
  | set _ hset ih =>
    obtain ⟨hfree, x, rfl⟩ := bind_of_set hset
    exact ⟨ih.store.bind Store.root hfree _, ih.saved_unreserved⟩
  | eval set source _ ih => exact ⟨clean_eval ih.store set source, ih.saved_unreserved⟩
  | snapshot _ ih =>
    exact ⟨ih.store, List.forall_mem_cons.mpr ⟨ih.store.unreserved _, ih.saved_unreserved⟩⟩
  | restore _ hb ih =>
    exact ⟨ih.store.setBindings Store.root (ih.saved_unreserved _ hb), ih.saved_unreserved⟩
  | call set name _ _ _ ih => exact ⟨clean_call ih.store set _ _ name, ih.saved_unreserved⟩

/-- In a session that can come up no frame binds a reserved name, and none does at any moment of a
run in it, of whatever program: neither at the `moments` that the run passes through, each a single
step behind the one before, nor where any expression is evaluated. So a run in which bindings come
before constants and built-in functions does the same. -/
theorem never_binds_reserved (h : Reachable s saved) (set : Settings) (p : Program) :
    s.store.Unreserved ∧
    (∃ moments : List State,
      (s.start :: moments).getLast (List.cons_ne_nil _ _) =
        (set.evalProgram Store.root p).after s.start ∧
      (s.start :: moments).IsChain (Change Store.root (targets p.statements)) ∧
      ∀ t ∈ s.start :: moments, t.store.Unreserved) ∧
    (∀ q, p.Reaches set Store.root s.start q → q.state.store.Unreserved) ∧
    (set.evalProgramBy .framesFirst Store.root p).on s.start =
      (set.evalProgram Store.root p).on s.start := by
  have hs : s.start.store.Clean := h.clean.store
  have hguides := (Store.evaluates_cleanliness (targets p.statements)).guides
  have hassigns := Store.assigns_cleanliness (targets p.statements)
  have hrun := Settings.evalProgram_guided hguides hassigns set p (fun _ h => h) hs
    fun _ _ => trivial
  obtain ⟨moments, hchain, hlast⟩ := List.exists_isChain_cons_of_relationReflTransGen hrun.allows
  refine ⟨hs.unreserved, ⟨moments, hlast, hchain.imp fun _ _ h => h.1, ?_⟩, fun q hq => ?_, ?_⟩
  · intro t ht
    have hclean : t.store.Clean := hchain.induction (fun t : State => t.store.Clean) _
      (fun _ _ hstep _ => hstep.2) (fun _ => hs) t ht
    exact hclean.unreserved
  · have hready := Program.ready_of_reaches hguides hassigns (fun _ h => h) hs
      (fun _ _ => trivial) hq
    exact hready.1.unreserved
  · exact Settings.on_evalProgramBy hguides (Resolution.framesFirst_agrees _) hassigns set p
      (fun _ h => h) hs fun _ _ => trivial

/-- A program that calls a function of the session and then assigns to a built-in function. -/
theorem never_binds_reserved_function :
    let set : Settings := ⟨false, false, 8⟩
    let s := (Session.empty.eval set "def f(x) = x * pi").2
    let p : Program := ⟨[.assign "y" (.call "f" [.number 2]), .assign "sin" (.var "f")]⟩
    s.names = ["f"] ∧
      ((set.evalProgram Store.root p).on s.start).1 =
        .error (.eval (.reservedName "sin" .function)) ∧
      ((set.evalProgram Store.root p).after s.start).store.Unreserved ∧
      (set.evalProgramBy .framesFirst Store.root p).on s.start =
        (set.evalProgram Store.root p).on s.start := by
  intro set s p
  have hreachable : Reachable s [] := .eval set _ .empty
  obtain ⟨-, ⟨moments, hlast, -, hmoments⟩, -, hsame⟩ := never_binds_reserved hreachable set p
  refine ⟨by decide +kernel, by decide +kernel, ?_, hsame⟩
  rw [← hlast]
  exact hmoments _ (List.getLast_mem _)

end Session

end Abacus
