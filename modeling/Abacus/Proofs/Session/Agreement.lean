import Abacus.Proofs.Eval.Mirror
import Abacus.Session

/-!
# Sessions that agree

What a session shows is its bound names in order, with numbers and with the names, parameters,
bodies and depths of functions (`Session.view`). Where the store of one session is a renumbering of
the store of another, a source gives the same answer in both and leaves sessions that show the same,
but for names of functions and, where functions have the same names, without exception
(`Session.agrees_of_renumbers`). The sessions that it leaves are renumberings of each other again,
so that this goes on.
-/

namespace Abacus

/-! ## What a session shows -/

/-- What can be seen of a value; `depth` is that of the frame in which a function was made. -/
inductive Value.View where
  | number (x : Float)
  | function (name : Option String) (params : List String) (body : Expr) (depth : Nat)
deriving Repr, DecidableEq

/-- The view of a value but for the name of a function. -/
def Value.View.unnamed : Value.View → Value.View
  | number x => number x
  | function _ params body depth => function none params body depth

/-- What can be seen of a value in a store. -/
def Store.view (s : Store) : Value → Value.View
  | .number x => .number x
  | .closure c =>
    let closure := s.closure c
    .function closure.name closure.params closure.body (s.depth closure.frame)

/-- The bound names in their order, with what can be seen of their values. -/
def Session.view (s : Session) : List (String × Value.View) :=
  s.bindings.entries.map fun e => (e.1, s.store.view e.2)

/-- A view without the names of functions. -/
def unnamedView (view : List (String × Value.View)) : List (String × Value.View) :=
  view.map fun e => (e.1, e.2.unnamed)

section

variable {r : Renumbering} {exact : Prop}

theorem Store.Renumbers.view_eq {s t : Store} (h : s.Renumbers r exact t) (v : Value) :
    (t.view (v.renumber r)).unnamed = (s.view v).unnamed ∧
      (exact → t.view (v.renumber r) = s.view v) := by
  cases v with
  | number x => exact ⟨rfl, fun _ => rfl⟩
  | closure c =>
    obtain ⟨name, hc, hname⟩ := h.closure_eq c
    have hdepth := h.depth_eq (s.closure c).frame
    unfold Value.renumber Store.view
    simp only [hc, Closure.renumber, hdepth]
    exact ⟨rfl, fun hexact => by rw [hname hexact]⟩

theorem Session.bindings_renumbers {s s' : Session} (h : s.store.Renumbers r exact s'.store) :
    s'.bindings = s.bindings.map (Value.renumber r) := by
  have hroot := h.bindings_eq Store.root
  rwa [h.root] at hroot

theorem Session.view_renumbers {s s' : Session} (h : s.store.Renumbers r exact s'.store) :
    unnamedView s'.view = unnamedView s.view ∧ (exact → s'.view = s.view) := by
  unfold unnamedView Session.view
  rw [bindings_renumbers h]
  simp only [Bindings.map, List.map_map]
  constructor
  · refine List.map_congr_left fun e _ => ?_
    simp only [Function.comp, (h.view_eq e.2).1]
  · refine fun hexact => List.map_congr_left fun e _ => ?_
    simp only [Function.comp, (h.view_eq e.2).2 hexact]

end

/-! ## Evaluating in two sessions -/

/-- The lines about the reading of a source print nothing. -/
theorem printedTexts_reading (set : Settings) (readTrace : List Token → List String)
    (source : String) (log : List Emission) :
    printedTexts (set.readingLog readTrace source ++ log) = printedTexts log := by
  have hnone : printedTexts (set.readingLog readTrace source) = [] := by
    unfold Settings.readingLog
    split
    · unfold printedTexts
      rw [List.filterMap_map]
      exact List.filterMap_eq_nil_iff.mpr fun _ _ => rfl
    · rfl
  unfold printedTexts at hnone ⊢
  rw [List.filterMap_append, hnone, List.nil_append]

namespace Session

/-- What evaluating a source comes to. -/
theorem eval_eq (s : Session) (set : Settings) (source : String) :
    s.eval set source =
      let log := set.readingLog Program.readTrace source
      match Program.ofSource source with
      | .error e => (⟨.error (.source e), log⟩, s.restore s.bindings)
      | .ok p =>
        match (set.evalProgram Store.root p).on ⟨s.store, #[]⟩ with
        | (.ok x, t) => (⟨.ok x, log ++ t.log.toList⟩, ⟨t.store⟩)
        | (.error e, t) => (⟨.error (.fault e), log ++ t.log.toList⟩,
            (Session.mk t.store).restore s.bindings) := by
  unfold Session.eval Store.evalProgram
  cases Program.ofSource source with
  | error e => rfl
  | ok p =>
    unfold Run.start Outcome.reply Run.on
    dsimp only
    generalize (ExceptT.run (set.evalProgram Store.root p)).run ⟨s.store, #[]⟩ = outcome
    obtain ⟨result, t⟩ := outcome
    cases result with
    | ok x => rfl
    | error e => rfl

/-- Two answers, each with the session behind it: the same value, or errors that are the same but
for names of functions; the same printed texts, and lines of the trace that are the same but for
names of functions; the same bound names in the same order, with the same numbers and with functions
of the same parameters, bodies and depths. Where `exact` holds, there is no difference at all. -/
structure Agrees (exact : Prop) (r r' : Reply × Session) : Prop where
  result : ResultAlike r.1.result r'.1.result
  printed : printedTexts r'.1.log = printedTexts r.1.log
  log : List.Forall₂ Emission.Alike r.1.log r'.1.log
  view : unnamedView r'.2.view = unnamedView r.2.view
  exact : exact → r'.1 = r.1 ∧ r'.2.view = r.2.view

variable {r : Renumbering} {exact : Prop} {s s' : Session}

theorem restore_renumbers {t t' : Session} (h : s.store.Renumbers r exact s'.store)
    (ht : t.store.Renumbers r exact t'.store) :
    (t.restore s.bindings).store.Renumbers r exact (t'.restore s'.bindings).store := by
  have hbindings : s'.bindings = s.bindings.map (Value.renumber r) := bindings_renumbers h
  have hset := ht.setBindings Store.root s.bindings
  rw [h.root, ← hbindings] at hset
  exact hset

theorem emissions_alike {m : Mirror} {log log' : List Emission}
    (h : List.Forall₂ m.Lines log log') :
    List.Forall₂ Emission.Alike log log' ∧ (m.exact → log' = log) := by
  refine ⟨h.imp fun _ _ he => he.1, fun hexact => ?_⟩
  induction h with
  | nil => rfl
  | cons he _ ih => rw [he.2 hexact, ih]

theorem emissions_refl (log : List Emission) : List.Forall₂ Emission.Alike log log := by
  refine List.forall₂_same.mpr fun e _ => ?_
  cases e with
  | printed text => exact .printed text
  | traced line => exact .traced (.refl line)

/-- After the same lines about the reading, runs that end alike make sessions agree. -/
theorem agrees_of_lines {places : Renumbering} {result result' : Except Failure Float}
    {front log log' : List Emission}
    (hresult : ResultAlike result result' ∧ (exact → result' = result))
    (hlog : List.Forall₂ (Mirror.Lines ⟨places, exact, True, []⟩) log log')
    (h : s.store.Renumbers r exact s'.store) :
    Agrees exact (⟨result, front ++ log⟩, s) (⟨result', front ++ log'⟩, s') := by
  obtain ⟨halike, heq⟩ := emissions_alike hlog
  have hall := List.rel_append (emissions_refl front) halike
  obtain ⟨hview, hsame⟩ := view_renumbers h
  refine ⟨hresult.1, printedTexts_alike hall, hall, hview, fun hexact => ⟨?_, hsame hexact⟩⟩
  rw [hresult.2 hexact, heq hexact]

/-- Where one store is a renumbering of the other, sources give the same in both sessions, and
leave stores that are renumberings again. -/
theorem agrees_of_renumbers (h : s.store.Renumbers r exact s'.store) (set : Settings)
    (source : String) :
    Agrees exact (s.eval set source) (s'.eval set source) ∧
      (s.eval set source).2.store.Renumbers r exact (s'.eval set source).2.store := by
  rw [eval_eq, eval_eq]
  cases hp : Program.ofSource source with
  | error e =>
    have hrestored := restore_renumbers h h
    obtain ⟨hview, hsame⟩ := view_renumbers hrestored
    exact ⟨⟨.error (.refl _), rfl, emissions_refl _, hview, fun hexact => ⟨rfl, hsame hexact⟩⟩,
      hrestored⟩
  | ok p =>
    -- The two sessions are one run seen through the renumbering, with the same settings and all
    -- lines mirrored.
    let m : Mirror := ⟨r, exact, True, []⟩
    have hset : Settings.Matches m set set := ⟨rfl, fun _ => rfl⟩
    have hstates : m.States ⟨s.store, #[]⟩ ⟨s'.store, #[]⟩ := ⟨h, rfl, fun _ => .nil⟩
    have hends := Settings.evalProgram_mirrors hset (Program.wellFormed_of_ofSource hp)
      Store.root _ _ hstates
    rw [show m.places.frames.place Store.root = Store.root from h.root] at hends
    dsimp only
    generalize (set.evalProgram Store.root p).on ⟨s.store, #[]⟩ = end₁ at hends
    generalize (set.evalProgram Store.root p).on ⟨s'.store, #[]⟩ = end₂ at hends
    cases hends with
    | @ok x t t' ht =>
      exact ⟨agrees_of_lines ⟨.ok x, fun _ => rfl⟩ (ht.log trivial) ht.store, ht.store⟩
    | @error e e' t t' he ht =>
      have hrestored : ((Session.mk t.store).restore s.bindings).store.Renumbers r exact
          ((Session.mk t'.store).restore s'.bindings).store := restore_renumbers h ht.store
      refine ⟨agrees_of_lines ⟨.error (.fault he.1), fun hexact => ?_⟩ (ht.log trivial) hrestored,
        hrestored⟩
      rw [he.2 hexact]

end Session

end Abacus
