import Abacus.Eval.Run

/-!
# What runs keep to

`run.on s` is what a run does from the state `s`: its result or fault, and the state it leaves. A
`Policy` says what holds of every state and what may become of a state later. `run.Obeys P Q s`:
from `s` the run leaves a state that the policy holds of and allows, whether it ends with a result
or with a fault, and `Q` holds of a result and the state it comes with.

* `Run.Obeys.bind`: one run after the other.
* The other rules are about runs that only look at the store, or end with a fault.
-/

namespace Abacus

namespace Run

variable {α β : Type}

/-- The result of the run from a state, and the state it leaves. -/
def on (run : Run α) (s : State) : Except Fault α × State := (ExceptT.run run).run s

/-- The state that the run leaves. -/
def after (run : Run α) (s : State) : State := (run.on s).2

theorem on_pure (a : α) (s : State) : on (pure a : Run α) s = (.ok a, s) := rfl

theorem on_bind (x : Run α) (k : α → Run β) (s : State) :
    on (x >>= k) s = match x.on s with
      | (.ok a, s') => (k a).on s'
      | (.error e, s') => (.error e, s') := by
  simp only [on, bind, ExceptT.bind, ExceptT.run, ExceptT.mk, ExceptT.bindCont, StateT.bind,
    StateT.run]
  cases h : x s with | mk r s' =>
  cases r with
  | error e => rfl
  | ok a => rfl

theorem on_bind_ok {x : Run α} {k : α → Run β} {s s' : State} {a : α}
    (h : x.on s = (.ok a, s')) : on (x >>= k) s = (k a).on s' := by
  rw [on_bind, h]

theorem on_bind_error {x : Run α} {k : α → Run β} {s s' : State} {e : Fault}
    (h : x.on s = (.error e, s')) : on (x >>= k) s = (.error e, s') := by
  rw [on_bind, h]

theorem on_throw (e : Fault) (s : State) : on (throw e : Run α) s = (.error e, s) := rfl

theorem on_store (s : State) : on store s = (.ok s.store, s) := rfl

theorem on_update (f : Store → Store) (s : State) :
    on (update f) s = (.ok (), { s with store := f s.store }) := rfl

theorem on_add (f : Store → Nat × Store) (s : State) :
    on (add f) s = (.ok (f s.store).1, { s with store := (f s.store).2 }) := rfl

theorem on_emit (e : Emission) (s : State) :
    on (emit e) s = (.ok (), { s with log := s.log.push e }) := rfl

end Run

/-- What holds of every state, and what may become of a state. -/
structure Policy where
  holds : State → Prop
  allows : State → State → Prop
  refl : ∀ s, allows s s
  trans : ∀ {s t u}, allows s t → allows t u → allows s u

/-- From `s` the run keeps to the policy, and `Q` holds of what it ends with. -/
structure Run.Obeys {α : Type} (run : Run α) (P : Policy) (Q : State → α → Prop) (s : State) :
    Prop where
  holds : P.holds (run.after s)
  allows : P.allows s (run.after s)
  result : ∀ a, (run.on s).1 = .ok a → Q (run.after s) a

namespace Run.Obeys

variable {α β : Type} {P : Policy} {Q Q' : State → α → Prop} {s : State}

/-- What the run does is known. -/
theorem of_on {run : Run α} {r : Except Fault α} {s' : State} (h : run.on s = (r, s'))
    (hs : P.holds s') (hss' : P.allows s s') (hr : ∀ a, r = .ok a → Q s' a) :
    run.Obeys P Q s := by
  have hafter : run.after s = s' := by rw [Run.after, h]
  refine ⟨by rwa [hafter], by rwa [hafter], fun a ha => ?_⟩
  rw [hafter]
  exact hr a (by rwa [h] at ha)

/-- The run changes nothing. -/
theorem of_on_same {run : Run α} {r : Except Fault α} (h : run.on s = (r, s)) (hs : P.holds s)
    (hr : ∀ a, r = .ok a → Q s a) : run.Obeys P Q s :=
  of_on h hs (P.refl s) hr

/-- Another run that does the same. -/
theorem of_on_eq {run run' : Run α} (h : run.on s = run'.on s) (h' : run'.Obeys P Q s) :
    run.Obeys P Q s :=
  of_on h h'.holds h'.allows h'.result

/-- What is known of a run that keeps to a policy, once it is known what the run does. -/
theorem on {run : Run α} {r : Except Fault α} {s' : State} (h : run.Obeys P Q s)
    (hr : run.on s = (r, s')) : P.holds s' ∧ P.allows s s' ∧ ∀ a, r = .ok a → Q s' a := by
  have hafter : run.after s = s' := by rw [Run.after, hr]
  obtain ⟨hholds, hallows, hresult⟩ := h
  rw [hafter, hr] at hresult
  exact ⟨hafter ▸ hholds, hafter ▸ hallows, hresult⟩

theorem pure {a : α} (hs : P.holds s) (ha : Q s a) : (Pure.pure a : Run α).Obeys P Q s :=
  of_on_same (Run.on_pure a s) hs fun b hb => by cases hb; exact ha

theorem throw {e : Fault} (hs : P.holds s) : (MonadExcept.throw e : Run α).Obeys P Q s :=
  of_on_same (Run.on_throw e s) hs fun a ha => by cases ha

theorem fail {e : EvalError} (hs : P.holds s) : (Run.fail e : Run α).Obeys P Q s :=
  throw hs

theorem imp {run : Run α} (h : run.Obeys P Q s)
    (himp : ∀ s' a, P.holds s' → P.allows s s' → Q s' a → Q' s' a) : run.Obeys P Q' s :=
  ⟨h.holds, h.allows, fun a ha => himp _ a h.holds h.allows (h.result a ha)⟩

/-- A second run starts where the first one ended. -/
theorem bind {x : Run α} {k : α → Run β} {R : State → β → Prop} (hx : x.Obeys P Q s)
    (hk : ∀ a s', P.holds s' → P.allows s s' → Q s' a → (k a).Obeys P R s') :
    (x >>= k).Obeys P R s := by
  cases hr : x.on s with | mk r s' =>
  have hafter : x.after s = s' := by rw [Run.after, hr]
  have hs' := hx.holds
  have hss' := hx.allows
  rw [hafter] at hs' hss'
  cases r with
  | error e => exact of_on (Run.on_bind_error hr) hs' hss' fun b hb => by cases hb
  | ok a =>
    have hQ := hx.result a (by rw [hr])
    rw [hafter] at hQ
    obtain ⟨hholds, hallows, hresult⟩ := hk a s' hs' hss' hQ
    have hon := Run.on_bind_ok (k := k) hr
    refine of_on (r := ((k a).on s').1) hon hholds (P.trans hss' hallows) hresult

/-- A run that looks at the store first. -/
theorem store_bind {k : Store → Run β} {R : State → β → Prop} (hk : (k s.store).Obeys P R s) :
    (Run.store >>= k).Obeys P R s := by
  have hon := Run.on_bind_ok (k := k) (Run.on_store s)
  exact of_on (r := ((k s.store).on s).1) hon hk.holds hk.allows hk.result

end Run.Obeys

end Abacus
