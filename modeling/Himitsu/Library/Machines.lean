import Himitsu.Library.Commits

/-!
# Machines that commits refine

A machine makes one event at a time, each where its state allows it. A part of the database follows
a machine when each commit makes the events that its call and its answer show.

* `Machine`, `Machine.Run` — the machine, and the states between which it makes some events.
* `Machine.Run.keeps` — what every event keeps.
* `run_of_commits` — a part of the databases of a run follows the machine, in the order of the
  commits.
-/

set_option autoImplicit false

namespace Interleaving

/-- `Enabled` is what an event requires of the state, `after` what it makes of it. -/
structure Machine (τ η : Type) where
  Enabled : η → τ → Prop
  after : η → τ → τ

namespace Machine

variable {τ η : Type} {machine : Machine τ η} {t t' t'' : τ} {events more : List η} {event : η}

inductive Run (machine : Machine τ η) : τ → List η → τ → Prop
  | nil (t : τ) : Run machine t [] t
  | concat {t t' : τ} {events : List η} (event : η) (h : Run machine t events t')
    (henabled : machine.Enabled event t') :
    Run machine t (events ++ [event]) (machine.after event t')

theorem Run.one (h : machine.Enabled event t) : machine.Run t [event] (machine.after event t) :=
  .concat event (.nil t) h

theorem Run.append (h : machine.Run t events t') (h' : machine.Run t' more t'') :
    machine.Run t (events ++ more) t'' := by
  induction h' with
  | nil =>
    rw [List.append_nil]
    exact h
  | concat event _ henabled ih =>
    rw [← List.append_assoc]
    exact .concat event ih henabled

/-- **What every event keeps holds after a run**, and its events are some that this allows. -/
theorem Run.keeps {P : τ → Prop} {Q : η → Prop} (h : machine.Run t events t')
    (hstep : ∀ event t, P t → machine.Enabled event t → P (machine.after event t) ∧ Q event)
    (ht : P t) : P t' ∧ ∀ event ∈ events, Q event := by
  induction h with
  | nil => exact ⟨ht, fun event hevent => absurd hevent List.not_mem_nil⟩
  | concat event _ henabled ih =>
    obtain ⟨hstate, hevents⟩ := ih
    obtain ⟨hnext, hevent⟩ := hstep event _ hstate henabled
    refine ⟨hnext, fun other hother => ?_⟩
    rcases List.mem_append.mp hother with hother | hother
    · exact hevents other hother
    · rw [List.mem_singleton.mp hother]
      exact hevent

end Machine

open Transactions

variable {σ κ ω π χ ρ τ η : Type} {store : Store σ κ ω π} {base : σ}

theorem databaseAfter_of_none {log : List (Entry σ κ ω χ ρ)} {n : Nat} (h : log[n]? = none) :
    databaseAfter store base log (n + 1) = databaseAfter store base log n := by
  have hlen := List.getElem?_eq_none_iff.mp h
  rw [databaseAfter, databaseAfter, List.take_of_length_le hlen,
    List.take_of_length_le (Nat.le_succ_of_le hlen)]

/-- The events that a list of commits shows. -/
def eventsOf (event : χ → ρ → List η) (log : List (Entry σ κ ω χ ρ)) : List η :=
  log.flatMap fun e => event e.call e.answer

/-- **A part of the database follows the machine**, when each commit does. -/
theorem run_of_commits {machine : Machine τ η} {f : σ → τ} {event : χ → ρ → List η}
    {log : List (Entry σ κ ω χ ρ)}
    (hcommit : ∀ i e, log[i]? = some e → machine.Run (f (databaseAfter store base log i))
      (event e.call e.answer) (f (databaseAfter store base log (i + 1)))) (m k : Nat) :
    machine.Run (f (databaseAfter store base log m)) (eventsOf event ((log.drop m).take k))
      (f (databaseAfter store base log (m + k))) := by
  induction k with
  | zero => exact .nil _
  | succ k ih =>
    rw [List.take_add_one, List.getElem?_drop, ← Nat.add_assoc]
    cases he : log[m + k]? with
    | none =>
      rw [databaseAfter_of_none he, Option.toList_none, List.append_nil]
      exact ih
    | some e =>
      rw [eventsOf, List.flatMap_append, Option.toList_some, List.flatMap_singleton]
      exact ih.append (hcommit _ e he)

/-- The events of commits are those of the ones among which they are. -/
theorem mem_eventsOf_iff {event : χ → ρ → List η} {log : List (Entry σ κ ω χ ρ)} {m k : Nat}
    {x : η} : x ∈ eventsOf event ((log.drop m).take k) ↔
      ∃ i e, m ≤ i ∧ i < m + k ∧ log[i]? = some e ∧ x ∈ event e.call e.answer := by
  constructor
  · intro h
    obtain ⟨e, he, hx⟩ := List.mem_flatMap.mp h
    obtain ⟨n, hn⟩ := List.mem_iff_getElem?.mp he
    rw [List.getElem?_take] at hn
    split at hn
    · rename_i hlt
      rw [List.getElem?_drop] at hn
      exact ⟨m + n, e, Nat.le_add_right m n, Nat.add_lt_add_left hlt m, hn, hx⟩
    · cases hn
  · rintro ⟨i, e, hm, hk, he, hx⟩
    obtain ⟨n, rfl⟩ := Nat.exists_eq_add_of_le hm
    refine List.mem_flatMap.mpr ⟨e, List.mem_iff_getElem?.mpr ⟨n, ?_⟩, hx⟩
    rw [List.getElem?_take_of_lt (Nat.lt_of_add_lt_add_left hk), List.getElem?_drop]
    exact he

end Interleaving
