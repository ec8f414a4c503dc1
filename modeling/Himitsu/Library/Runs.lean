import Mathlib

/-!
# Runs of a transition function

`step s e` is the state after event `e`, or `none` where `e` is not possible in `s`.

* `run` — the state after a list of events.
* `Guarded` — every event of a run satisfies a guard in the state in which it happens.
* `guarded_congr` — guards that agree under an invariant guard the same runs.
* `run_invariant`, `invariant_of_run` — an invariant kept by (guarded) steps holds after a (guarded)
  run.
-/

set_option autoImplicit false

namespace Runs

variable {σ ε : Type} (step : σ → ε → Option σ) (guard : σ → ε → Prop)

def run : σ → List ε → Option σ
  | s, [] => some s
  | s, e :: events => (step s e).bind (run · events)

/-- The guard holds at every event of the run, in the state before it. -/
def Guarded : σ → List ε → Prop
  | _, [] => True
  | s, e :: events => guard s e ∧ ∀ s', step s e = some s' → Guarded s' events

variable {step guard}

theorem run_cons {s t : σ} {e : ε} {events : List ε} (h : run step s (e :: events) = some t) :
    ∃ s', step s e = some s' ∧ run step s' events = some t :=
  Option.bind_eq_some_iff.mp h

theorem run_append {s : σ} (xs ys : List ε) :
    run step s (xs ++ ys) = (run step s xs).bind (run step · ys) := by
  induction xs generalizing s with
  | nil => rfl
  | cons e xs ih =>
    simp only [List.cons_append, run, ih]
    cases step s e <;> rfl

theorem Guarded.cons {s t : σ} {e : ε} {events : List ε} (hguard : guard s e)
    (h : step s e = some t) (hrest : Guarded step guard t events) :
    Guarded step guard s (e :: events) := by
  refine ⟨hguard, fun s' hs' => ?_⟩
  rw [h] at hs'
  rw [← Option.some.inj hs']
  exact hrest

theorem guarded_append {s : σ} {xs ys : List ε} (hx : Guarded step guard s xs)
    (hy : ∀ t, run step s xs = some t → Guarded step guard t ys) :
    Guarded step guard s (xs ++ ys) := by
  induction xs generalizing s with
  | nil => exact hy s rfl
  | cons e xs ih =>
    refine ⟨hx.1, fun s' hs' => ih (hx.2 s' hs') fun t ht => hy t ?_⟩
    rw [run, hs', Option.bind_some, ht]

/-- Under an invariant, guards that say the same of each event say the same of a run. -/
theorem guarded_congr {Inv : σ → Prop} {guard' : σ → ε → Prop}
    (hstep : ∀ s e s', Inv s → step s e = some s' → Inv s')
    (hguard : ∀ s e, Inv s → (guard s e ↔ guard' s e)) :
    ∀ {events : List ε} {s : σ}, Inv s →
      (Guarded step guard s events ↔ Guarded step guard' s events)
  | [], _, _ => Iff.rfl
  | e :: _, s, hs =>
    and_congr (hguard s e hs) (forall_congr' fun s' => forall_congr' fun hs' =>
      guarded_congr hstep hguard (hstep s e s' hs hs'))

/-- **Invariants of guarded runs.** -/
theorem run_invariant {Inv : σ → Prop}
    (hstep : ∀ s e s', Inv s → guard s e → step s e = some s' → Inv s') :
    ∀ {events : List ε} {s t : σ}, Inv s → Guarded step guard s events →
      run step s events = some t → Inv t
  | [], _, _, hs, _, h => Option.some.inj h ▸ hs
  | e :: _, s, _, hs, hg, h => by
    obtain ⟨s', hs', hrest⟩ := run_cons h
    exact run_invariant hstep (hstep s e s' hs hg.1 hs') (hg.2 s' hs') hrest

/-- Invariants of runs. -/
theorem invariant_of_run {Inv : σ → Prop} (hstep : ∀ s e s', Inv s → step s e = some s' → Inv s') :
    ∀ {events : List ε} {s t : σ}, Inv s → run step s events = some t → Inv t
  | [], _, _, hs, h => Option.some.inj h ▸ hs
  | e :: _, s, _, hs, h => by
    obtain ⟨s', hs', hrest⟩ := run_cons h
    exact invariant_of_run hstep (hstep s e s' hs hs') hrest

/-- A guard that can be decided can be decided along a run. -/
instance Guarded.decidable [∀ s e, Decidable (guard s e)] :
    ∀ (s : σ) (events : List ε), Decidable (Guarded step guard s events)
  | _, [] => isTrue trivial
  | s, e :: events =>
    if hguard : guard s e then
      match hstep : step s e with
      | none =>
        isTrue ⟨hguard, fun s' hs' => absurd (hstep.symm.trans hs') (Option.some_ne_none s').symm⟩
      | some t =>
        match Guarded.decidable t events with
        | isTrue h => isTrue (Guarded.cons hguard hstep h)
        | isFalse h => isFalse fun hall => h (hall.2 t hstep)
    else isFalse fun hall => hguard hall.1

end Runs
