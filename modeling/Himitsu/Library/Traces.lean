import Himitsu.Library.Interleaving
import Himitsu.Library.RelatedLists

/-!
# What a transaction can do

A transaction that is interleaved with others finds some database at each of its statements.

* `Does` — the statements of a transaction with what they find, their writes and the result.
* `does_bind` — a program and what follows it.
* `Traces` — every way through a program satisfies a condition on the writes and the result.
* `serial_of_reachable` — every commit of a run is one of the ways through its program. What a
  statement finds is what was committed then, with the writes of its transaction so far; and what has
  been locked until then is still so at the commit.
-/

set_option autoImplicit false

namespace Transactions

variable {σ κ ω ε α β : Type}

/-- A statement: the database that it found, the locks that it took and what it wrote. -/
structure Statement (σ κ ω : Type) where
  view : σ
  locks : List κ
  writes : List ω

/-- A way through a program: its statements, what they write, and the result. -/
inductive Does : Prog σ κ ω ε α → List (Statement σ κ ω) → List ω → α → Prop
  | done (a : α) : Does (.done (.ok a)) [] [] a
  | stmt {locks : σ → List κ} {writes : σ → List ω} {next : σ → Prog σ κ ω ε α}
      {stmts : List (Statement σ κ ω)} {ws : List ω} {a : α} (s : σ)
      (h : Does (next s) stmts ws a) :
      Does (.stmt locks writes next) (⟨s, locks s, writes s⟩ :: stmts) (writes s ++ ws) a

section

variable {stmts : List (Statement σ κ ω)} {ws : List ω} {a b : α}

@[simp] theorem does_ok :
    Does (.done (.ok a) : Prog σ κ ω ε α) stmts ws b ↔ stmts = [] ∧ ws = [] ∧ b = a := by
  constructor
  · intro h
    cases h
    exact ⟨rfl, rfl, rfl⟩
  · rintro ⟨rfl, rfl, rfl⟩
    exact .done _

@[simp] theorem does_error {e : ε} :
    ¬Does (.done (.error e) : Prog σ κ ω ε α) stmts ws a := by
  intro h
  cases h

@[simp] theorem does_fail {e : ε} : ¬Does (Prog.fail e : Prog σ κ ω ε α) stmts ws a :=
  does_error

@[simp] theorem does_ofExcept {result : Except ε α} :
    Does (Prog.ofExcept result : Prog σ κ ω ε α) stmts ws a ↔
      stmts = [] ∧ ws = [] ∧ result = .ok a := by
  cases result with
  | error e => simp [Prog.ofExcept]
  | ok b => simp [Prog.ofExcept, eq_comm]

theorem does_stmt {locks : σ → List κ} {writes : σ → List ω} {next : σ → Prog σ κ ω ε α} :
    Does (.stmt locks writes next) stmts ws a ↔
      ∃ s stmts' ws', Does (next s) stmts' ws' a ∧ stmts = ⟨s, locks s, writes s⟩ :: stmts' ∧
        ws = writes s ++ ws' := by
  constructor
  · intro h
    cases h with
    | stmt s h => exact ⟨s, _, _, h, rfl, rfl⟩
  · rintro ⟨s, stmts', ws', h, rfl, rfl⟩
    exact .stmt s h

@[simp] theorem does_execute {locks : σ → List κ} {writes : σ → List ω}
    {result : σ → Except ε α} :
    Does (Prog.execute locks writes result) stmts ws a ↔
      ∃ s, stmts = [⟨s, locks s, writes s⟩] ∧ ws = writes s ∧ result s = .ok a := by
  unfold Prog.execute
  rw [does_stmt]
  constructor
  · rintro ⟨s, stmts', ws', h, rfl, rfl⟩
    obtain ⟨rfl, rfl, hresult⟩ := does_ofExcept.mp h
    exact ⟨s, rfl, List.append_nil _, hresult⟩
  · rintro ⟨s, rfl, rfl, hresult⟩
    exact ⟨s, [], [], does_ofExcept.mpr ⟨rfl, rfl, hresult⟩, rfl, (List.append_nil _).symm⟩

@[simp] theorem does_select {read : σ → α} :
    Does (Prog.select read : Prog σ κ ω ε α) stmts ws a ↔
      ∃ s, stmts = [⟨s, [], []⟩] ∧ ws = [] ∧ a = read s := by
  unfold Prog.select
  rw [does_stmt]
  constructor
  · rintro ⟨s, stmts', ws', h, rfl, rfl⟩
    obtain ⟨rfl, rfl, rfl⟩ := does_ok.mp h
    exact ⟨s, rfl, rfl, rfl⟩
  · rintro ⟨s, rfl, rfl, rfl⟩
    exact ⟨s, [], [], does_ok.mpr ⟨rfl, rfl, rfl⟩, rfl, rfl⟩

@[simp] theorem does_selectForUpdate {locks : σ → List κ} {read : σ → α} :
    Does (Prog.selectForUpdate locks read : Prog σ κ ω ε α) stmts ws a ↔
      ∃ s, stmts = [⟨s, locks s, []⟩] ∧ ws = [] ∧ a = read s := by
  unfold Prog.selectForUpdate
  rw [does_stmt]
  constructor
  · rintro ⟨s, stmts', ws', h, rfl, rfl⟩
    obtain ⟨rfl, rfl, rfl⟩ := does_ok.mp h
    exact ⟨s, rfl, rfl, rfl⟩
  · rintro ⟨s, rfl, rfl, rfl⟩
    exact ⟨s, [], [], does_ok.mpr ⟨rfl, rfl, rfl⟩, rfl, rfl⟩

end

/-- **The ways through a program and what follows it.** -/
@[simp] theorem does_bind {p : Prog σ κ ω ε α} {f : α → Prog σ κ ω ε β} {stmts : List (Statement σ κ ω)}
    {ws : List ω} {b : β} :
    Does (p >>= f) stmts ws b ↔ ∃ a stmts₁ ws₁ stmts₂ ws₂, Does p stmts₁ ws₁ a ∧
      Does (f a) stmts₂ ws₂ b ∧ stmts = stmts₁ ++ stmts₂ ∧ ws = ws₁ ++ ws₂ := by
  induction p generalizing stmts ws with
  | done result =>
    cases result with
    | error e => simp
    | ok a =>
      simp only [Prog.done_ok_bind, does_ok]
      constructor
      · intro h
        exact ⟨a, [], [], stmts, ws, ⟨rfl, rfl, rfl⟩, h, rfl, rfl⟩
      · rintro ⟨_, _, _, stmts₂, ws₂, ⟨rfl, rfl, rfl⟩, h, rfl, rfl⟩
        exact h
  | stmt locks writes next ih =>
    simp only [Prog.stmt_bind, does_stmt, ih]
    constructor
    · rintro ⟨s, _, _, ⟨a, stmts₁, ws₁, stmts₂, ws₂, hp, hf, rfl, rfl⟩, rfl, rfl⟩
      exact ⟨a, _, _, stmts₂, ws₂, ⟨s, stmts₁, ws₁, hp, rfl, rfl⟩, hf, rfl,
        (List.append_assoc ..).symm⟩
    · rintro ⟨a, _, _, stmts₂, ws₂, ⟨s, stmts₁, ws₁, hp, rfl, rfl⟩, hf, rfl, rfl⟩
      exact ⟨s, _, _, ⟨a, stmts₁, ws₁, stmts₂, ws₂, hp, hf, rfl, rfl⟩, rfl,
        List.append_assoc ..⟩

@[simp] theorem does_mapError {f : ε → ε} {p : Prog σ κ ω ε α} {stmts : List (Statement σ κ ω)} {ws : List ω}
    {a : α} : Does (p.mapError f) stmts ws a ↔ Does p stmts ws a := by
  induction p generalizing stmts ws with
  | done result => cases result <;> simp [Prog.mapError]
  | stmt locks writes next ih => simp only [Prog.mapError, does_stmt, ih]

theorem does_ite {c : Prop} [Decidable c] {p q : Prog σ κ ω ε α} {stmts : List (Statement σ κ ω)} {ws : List ω}
    {a : α} : Does (if c then p else q) stmts ws a ↔
      (c ∧ Does p stmts ws a) ∨ (¬c ∧ Does q stmts ws a) := by
  by_cases hc : c <;> simp [hc]

theorem Emits.does {P : ω → Prop} {p : Prog σ κ ω ε α} (hp : Emits P p) {stmts : List (Statement σ κ ω)}
    {ws : List ω} {a : α} (h : Does p stmts ws a) : ∀ w ∈ ws, P w := by
  induction h with
  | done => exact fun w hw => absurd hw List.not_mem_nil
  | stmt s _ ih =>
    cases hp with
    | stmt hwrites hnext =>
      exact fun w hw => (List.mem_append.mp hw).elim (hwrites s w) (ih (hnext s) w)

theorem Returns.does {R : α → Prop} {p : Prog σ κ ω ε α} (hp : Returns R p) {stmts : List (Statement σ κ ω)}
    {ws : List ω} {a : α} (h : Does p stmts ws a) : R a := by
  induction h with
  | done =>
    cases hp with
    | ok h => exact h
  | stmt s _ ih =>
    cases hp with
    | stmt hnext => exact ih (hnext s)

/-! ## Conditions on the writes -/

/-- Every way through the program satisfies `Q`. -/
def Traces (Q : List ω → α → Prop) (p : Prog σ κ ω ε α) : Prop :=
  ∀ stmts ws a, Does p stmts ws a → Q ws a

theorem Traces.mono {Q Q' : List ω → α → Prop} {p : Prog σ κ ω ε α} (h : Traces Q p)
    (hQ : ∀ ws a, Q ws a → Q' ws a) : Traces Q' p :=
  fun stmts ws a hdoes => hQ ws a (h stmts ws a hdoes)

theorem Traces.bind {Q : List ω → α → Prop} {R : List ω → β → Prop} {p : Prog σ κ ω ε α}
    {f : α → Prog σ κ ω ε β} (hp : Traces Q p)
    (hf : ∀ ws a, Q ws a → Traces (fun ws' b => R (ws ++ ws') b) (f a)) : Traces R (p >>= f) := by
  intro stmts ws b h
  obtain ⟨a, stmts₁, ws₁, stmts₂, ws₂, hdoes, hnext, rfl, rfl⟩ := does_bind.mp h
  exact hf ws₁ a (hp _ _ _ hdoes) _ _ _ hnext

theorem traces_pure {Q : List ω → α → Prop} {a : α} (h : Q [] a) :
    Traces Q (pure a : Prog σ κ ω ε α) := by
  intro stmts ws b hdoes
  obtain ⟨-, rfl, rfl⟩ := does_ok.mp hdoes
  exact h

theorem traces_fail {Q : List ω → α → Prop} {e : ε} : Traces Q (Prog.fail e : Prog σ κ ω ε α) :=
  fun _ _ _ h => absurd h does_fail

theorem Traces.ite {Q : List ω → α → Prop} {c : Prop} [Decidable c] {p q : Prog σ κ ω ε α}
    (hp : c → Traces Q p) (hq : ¬c → Traces Q q) : Traces Q (if c then p else q) := by
  split
  · exact hp ‹_›
  · exact hq ‹_›

theorem Emits.traces {P : ω → Prop} {p : Prog σ κ ω ε α} (h : Emits P p) :
    Traces (fun ws _ => ∀ w ∈ ws, P w) p :=
  fun _ _ _ hdoes => h.does hdoes

theorem Returns.traces {R : α → Prop} {p : Prog σ κ ω ε α} (h : Returns R p) :
    Traces (fun _ a => R a) p :=
  fun _ _ _ hdoes => h.does hdoes

/-- The writes of a loop are those of its turns. -/
theorem does_forEach {f : Nat → β → Prog σ κ ω ε α} {bs : List β} {n : Nat} {stmts : List (Statement σ κ ω)}
    {ws : List ω} {as : List α} (h : Does (Prog.forEach f n bs) stmts ws as) :
    (∀ w ∈ ws, ∃ b ∈ bs, ∃ m stmts' ws' a, Does (f m b) stmts' ws' a ∧ w ∈ ws') ∧
      ∀ b ∈ bs, ∃ m stmts' ws' a, Does (f m b) stmts' ws' a ∧ ∀ w ∈ ws', w ∈ ws := by
  induction bs generalizing n stmts ws as with
  | nil =>
    obtain ⟨-, rfl, -⟩ := does_ok.mp h
    exact ⟨fun w hw => absurd hw List.not_mem_nil, fun b hb => absurd hb List.not_mem_nil⟩
  | cons b bs ih =>
    obtain ⟨a, stmts₁, ws₁, _, _, hstep, h₁, rfl, rfl⟩ := does_bind.mp h
    obtain ⟨as', _, ws₂, _, _, hrest, h₂, rfl, rfl⟩ := does_bind.mp h₁
    obtain ⟨-, rfl, -⟩ := does_ok.mp h₂
    obtain ⟨hwrites, hturns⟩ := ih hrest
    rw [List.append_nil]
    refine ⟨fun w hw => ?_, fun c hc => ?_⟩
    · rcases List.mem_append.mp hw with hw | hw
      · exact ⟨b, List.mem_cons_self .., n, _, _, a, hstep, hw⟩
      · obtain ⟨c, hc, hturn⟩ := hwrites w hw
        exact ⟨c, List.mem_cons_of_mem _ hc, hturn⟩
    · rcases List.mem_cons.mp hc with rfl | hc
      · exact ⟨n, _, _, a, hstep, fun w hw => List.mem_append_left _ hw⟩
      · obtain ⟨m, stmts', ws', a', hturn, hsub⟩ := hturns c hc
        exact ⟨m, stmts', ws', a', hturn, fun w hw => List.mem_append_right _ (hsub w hw)⟩

/-- A condition that composes holds of a loop. -/
theorem Traces.forEach {Q : List ω → Prop} (hnil : Q [])
    (happend : ∀ ws ws', Q ws → Q ws' → Q (ws ++ ws')) {f : Nat → β → Prog σ κ ω ε α}
    {bs : List β} (h : ∀ n, ∀ b ∈ bs, Traces (fun ws _ => Q ws) (f n b)) (n : Nat) :
    Traces (fun ws _ => Q ws) (Prog.forEach f n bs) := by
  induction bs generalizing n with
  | nil => exact traces_pure hnil
  | cons b bs ih =>
    refine Traces.bind (h n b (List.mem_cons_self ..)) fun ws a hws => ?_
    refine Traces.bind (ih (fun n b hb => h n b (List.mem_cons_of_mem _ hb)) (n + 1))
      fun ws' as hws' => traces_pure ?_
    rw [List.append_nil]
    exact happend ws ws' hws hws'

end Transactions

namespace Interleaving

open Transactions

variable {σ κ ω π ε χ ρ : Type}

/-! ## The commits of a run -/

section

variable {store : Store σ κ ω π} {program : χ → Prog σ κ ω ε ρ} {base : σ}
  {s s' : System σ κ ω ε χ ρ}

/-- What a statement found, and what was committed then: some of the writes of its transaction lie
between. -/
def Finds (store : Store σ κ ω π) (pending : List ω) (view moment : σ) : Prop :=
  ∃ ws, ws <+: pending ∧ view = store.applyAll ws moment

theorem Finds.mono {pending more : List ω} {view moment : σ}
    (h : Finds store pending view moment) : Finds store (pending ++ more) view moment := by
  obtain ⟨ws, hws, rfl⟩ := h
  exact ⟨ws, hws.trans (List.prefix_append _ _), rfl⟩

/-- What the writes leave of a database is what was committed. -/
theorem Finds.keeps {τ : Type} {f : σ → τ} {pending : List ω} {view moment : σ}
    (h : Finds store pending view moment)
    (hf : ∀ w ∈ pending, ∀ s, f (store.apply w s) = f s) : f view = f moment := by
  obtain ⟨ws, hws, rfl⟩ := h
  have hsub : ∀ w ∈ ws, ∀ s, f (store.apply w s) = f s := fun w hw => hf w (hws.subset hw)
  clear hws hf
  induction ws generalizing moment with
  | nil => rfl
  | cons w ws ih =>
    rw [Store.applyAll_cons, ih fun w' hw' => hsub w' (List.mem_cons_of_mem _ hw'),
      hsub w (List.mem_cons_self ..)]

/-- The parts that a statement takes: those that it locks and those that its writes touch. -/
def takes (store : Store σ κ ω π) (x : Statement σ κ ω) : List κ :=
  x.locks ++ store.touchesAll x.writes x.view

/-- The parts that the statements up to one of them have taken are, for some later base, as this
statement found them. -/
def Locked (store : Store σ κ ω π) (stmts : List (Statement σ κ ω)) (base : σ) : Prop :=
  ∀ before x after, stmts = before ++ x :: after →
    ∀ l ∈ (before ++ [x]).flatMap (takes store),
      store.part l (store.applyAll (before.flatMap (·.writes)) base) = store.part l x.view

/-- A statement found what was committed, with the writes of the statements before it. -/
def Found (store : Store σ κ ω π) (stmts : List (Statement σ κ ω)) (moments : List σ) : Prop :=
  ∀ before x after, stmts = before ++ x :: after → ∃ m, moments[before.length]? = some m ∧
    x.view = store.applyAll (before.flatMap (·.writes)) m

/-- What an open transaction has done so far. -/
structure Underway (store : Store σ κ ω π) (program : χ → Prog σ κ ω ε ρ) (base : σ)
    (tx : Tx σ κ ω ε χ ρ) (stmts : List (Statement σ κ ω)) : Prop where
  pending : tx.pending = stmts.flatMap (·.writes)
  finds : List.Forall₂ (fun x m => Finds store tx.pending x.view m) stmts tx.moments
  found : Found store stmts tx.moments
  covered : Covered store (tx.world base)
  held : ∀ l ∈ stmts.flatMap (takes store), l ∈ tx.held
  locked : Locked store stmts base
  does : ∀ stmts' ws a, Does tx.prog stmts' ws a →
    Does (program tx.call) (stmts ++ stmts') (tx.pending ++ ws) a

/-- What a commit has done. -/
structure Ran (store : Store σ κ ω π) (program : χ → Prog σ κ ω ε ρ)
    (e : Entry σ κ ω χ ρ) (stmts : List (Statement σ κ ω)) : Prop where
  does : Does (program e.call) stmts e.world.pending e.answer
  finds : List.Forall₂ (fun x m => Finds store e.world.pending x.view m) stmts e.world.moments
  found : Found store stmts e.world.moments
  locked : Locked store stmts e.world.base

theorem Underway.begin {base : σ} (call : χ) (since : Nat) :
    Underway store program base (.begin program call since) [] where
  pending := rfl
  finds := .nil
  found before x after hsplit := by simp at hsplit
  covered l hl := by cases hl
  held l hl := by cases hl
  locked before x after hsplit := by simp at hsplit
  does _ _ _ h := h

theorem Underway.advance {base : σ} {tx : Tx σ κ ω ε χ ρ} {stmts : List (Statement σ κ ω)}
    (h : Underway store program base tx stmts) {locks : σ → List κ} {writes : σ → List ω}
    {next : σ → Prog σ κ ω ε ρ} (hprog : tx.prog = .stmt locks writes next) :
    Underway store program base (tx.advance store base locks writes next)
      (stmts ++ [⟨(tx.world base).view store, locks ((tx.world base).view store),
        writes ((tx.world base).view store)⟩]) where
  pending := by
    rw [List.flatMap_append, ← h.pending, List.flatMap_singleton]
    rfl
  finds := by
    refine List.rel_append (h.finds.imp fun _ _ => Finds.mono) ?_
    exact .cons ⟨tx.pending, List.prefix_append _ _, rfl⟩ .nil
  found before x after hsplit := by
    rcases List.eq_nil_or_concat after with rfl | ⟨after, last, rfl⟩
    · obtain ⟨rfl, hlast⟩ := List.append_inj' hsplit rfl
      cases hlast
      refine ⟨base, ?_, by rw [← h.pending]; rfl⟩
      rw [h.finds.length_eq]
      exact List.getElem?_concat_length
    · rw [List.concat_eq_append, ← List.cons_append, ← List.append_assoc] at hsplit
      obtain ⟨m, hm, hview⟩ := h.found before x after (List.append_inj' hsplit rfl).1
      exact ⟨m, List.getElem?_append_left (List.getElem?_eq_some_iff.mp hm).1 ▸ hm, hview⟩
  covered := h.covered.after locks writes
  held l hl := by
    rw [List.flatMap_append, List.flatMap_singleton] at hl
    rcases List.mem_append.mp hl with hl | hl
    · exact List.mem_append_left _ (h.held l hl)
    · exact List.mem_append_right _ hl
  locked before x after hsplit l hl := by
    rcases List.eq_nil_or_concat after with rfl | ⟨after, last, rfl⟩
    · obtain ⟨rfl, hlast⟩ := List.append_inj' hsplit rfl
      cases hlast
      rw [← h.pending]
      rfl
    · rw [List.concat_eq_append, ← List.cons_append, ← List.append_assoc] at hsplit
      exact h.locked before x after (List.append_inj' hsplit rfl).1 l hl
  does stmts' ws a hnext := by
    have hstmt := h.does _ _ _ (hprog ▸ Does.stmt ((tx.world base).view store) hnext)
    simpa [Tx.advance, World.after, Tx.world] using hstmt

/-- The commits of others leave what a transaction has locked. -/
theorem Underway.moves {base base' : σ} {tx : Tx σ κ ω ε χ ρ} {stmts : List (Statement σ κ ω)}
    (h : Underway store program base tx stmts)
    (hframe : ∀ l ∈ tx.held, store.part l base' = store.part l base) :
    Underway store program base' tx stmts where
  pending := h.pending
  finds := h.finds
  covered l hl := by
    have hsame := (store.applyAll_congr (· ∈ tx.held) h.covered hframe).1
    exact h.covered l (hsame ▸ hl)
  found := h.found
  held := h.held
  locked before x after hsplit l hl := by
    have hbefore : ∀ l ∈ store.touchesAll (before.flatMap (·.writes)) base, l ∈ tx.held := by
      intro l hl
      refine h.covered l ?_
      show l ∈ store.touchesAll tx.pending base
      rw [h.pending, hsplit, List.flatMap_append, store.touchesAll_append]
      exact List.mem_append_left _ hl
    have hheld : l ∈ tx.held := by
      refine h.held l ?_
      rw [hsplit, ← List.singleton_append, ← List.append_assoc, List.flatMap_append]
      exact List.mem_append_left _ hl
    rw [(store.applyAll_congr (· ∈ tx.held) hbefore hframe).2 l hheld]
    exact h.locked before x after hsplit l hl
  does := h.does

theorem Underway.commit {base : σ} {tx : Tx σ κ ω ε χ ρ} {stmts : List (Statement σ κ ω)}
    (h : Underway store program base tx stmts) {answer : ρ}
    (hprog : tx.prog = .done (.ok answer)) :
    Ran store program ⟨tx.call, answer, tx.since, tx.world base⟩ stmts where
  does := by
    have hdone := h.does [] [] answer (hprog ▸ .done answer)
    simpa [Tx.world] using hdone
  finds := h.finds
  found := h.found
  locked := h.locked

/-- What holds of every system that a run reaches. -/
structure Serial (store : Store σ κ ω π) (program : χ → Prog σ κ ω ε ρ)
    (s : System σ κ ω ε χ ρ) : Prop where
  active : ∀ tx ∈ s.active, ∃ stmts, Underway store program s.base tx stmts
  disjoint : s.active.Pairwise fun tx tx' => ∀ l ∈ tx.held, l ∉ tx'.held
  log : ∀ e ∈ s.log, ∃ stmts, Ran store program e stmts

theorem Serial.step (h : Serial store program s) (hstep : Step store program s s') :
    Serial store program s' := by
  cases hstep with
  | start _ call =>
    refine ⟨fun tx htx => ?_, ?_, h.log⟩
    · rcases List.mem_append.mp htx with htx | htx
      · exact h.active tx htx
      · rw [List.mem_singleton.mp htx]
        exact ⟨[], .begin call _⟩
    · refine List.pairwise_append.mpr ⟨h.disjoint, List.pairwise_singleton _ _,
        fun tx _ tx' htx' l _ hl => ?_⟩
      rw [List.mem_singleton.mp htx'] at hl
      cases hl
  | statement base log before after tx locks writes next hprog hfree =>
    refine ⟨fun other hother => ?_, disjoint_advance rfl h.disjoint hfree, h.log⟩
    rcases List.mem_append.mp hother with hother | hother
    · exact h.active other (List.mem_append_left _ hother)
    · rcases List.mem_cons.mp hother with rfl | hother
      · obtain ⟨stmts, hstmts⟩ := h.active tx (List.mem_append_right _ (List.mem_cons_self ..))
        exact ⟨_, hstmts.advance hprog⟩
      · exact h.active other (List.mem_append_right _ (List.mem_cons_of_mem _ hother))
  | commit base log before after tx answer hprog =>
    obtain ⟨stmts, hstmts⟩ := h.active tx (List.mem_append_right _ (List.mem_cons_self ..))
    refine ⟨fun other hother => ?_, ?_, fun e he => ?_⟩
    · have hmem : other ∈ before ++ tx :: after := by
        rw [List.mem_append, List.mem_cons]
        exact (List.mem_append.mp hother).imp_right .inr
      obtain ⟨others, hothers⟩ := h.active other hmem
      refine ⟨others, hothers.moves fun l hl => ?_⟩
      exact hstmts.covered.view_of_not_held (disjoint_of_pairwise h.disjoint hother hl)
    · have hpair := h.disjoint
      rw [List.pairwise_append, List.pairwise_cons] at hpair
      exact List.pairwise_append.mpr ⟨hpair.1, hpair.2.1.2, fun a ha b hb =>
        hpair.2.2 a ha b (List.mem_cons_of_mem _ hb)⟩
    · rcases List.mem_append.mp he with he | he
      · exact h.log e he
      · rw [List.mem_singleton.mp he]
        exact ⟨stmts, hstmts.commit hprog⟩
  | rollback base log before after tx =>
    refine ⟨fun other hother => ?_, ?_, h.log⟩
    · refine h.active other ?_
      rw [List.mem_append, List.mem_cons]
      exact (List.mem_append.mp hother).imp_right .inr
    · have hpair := h.disjoint
      rw [List.pairwise_append, List.pairwise_cons] at hpair
      exact List.pairwise_append.mpr ⟨hpair.1, hpair.2.1.2, fun a ha b hb =>
        hpair.2.2 a ha b (List.mem_cons_of_mem _ hb)⟩

/-- **A commit is one of the ways through its program**, and what its statements locked is at the
commit, after the writes before them, as they found it. -/
theorem serial_of_reachable (hreach : Reachable store program base s) :
    Serial store program s := by
  induction hreach with
  | refl =>
    refine ⟨fun tx htx => ?_, List.Pairwise.nil, fun e he => ?_⟩
    · cases htx
    · cases he
  | tail _ hstep ih => exact ih.step hstep

end

end Interleaving
