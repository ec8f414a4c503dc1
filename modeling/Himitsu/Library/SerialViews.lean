import Himitsu.Library.Commits

/-!
# Transactions as their commit sees them

A transaction commits as if its writes were made one after another on the database at its commit.
What its statements found may be older, but not where the transaction holds a lock.

* `Serially` — a condition on the result of a transaction and on the database after its commit, by a
  calculus whose statements find a view that agrees with the database on what has been locked.
* `serially_bind`, `serially_execute`, `serially_forEach` and the other rules.
* `serially_of_ran` — the condition holds of every commit of a run.
* `serially_of_transact` — the condition holds of a transaction that runs alone.
-/

set_option autoImplicit false

namespace Interleaving

open Transactions

variable {σ κ ω π ε α β : Type}

/-- Every way through a program leads to `Q`. A statement finds some view of the database `s`, which
`rely` relates to it and which agrees with it on what the transaction has taken. -/
def Serially (store : Store σ κ ω π) (rely : σ → σ → Prop) :
    Prog σ κ ω ε α → List κ → σ → (α → List κ → σ → Prop) → Prop
  | .done (.ok a), held, s, Q => Q a held s
  | .done (.error _), _, _, _ => True
  | .stmt locks writes next, held, s, Q => ∀ view, rely view s →
      (∀ l ∈ held ++ takes store ⟨view, locks view, writes view⟩,
        store.part l s = store.part l view) →
      Serially store rely (next view) (held ++ takes store ⟨view, locks view, writes view⟩)
        (store.applyAll (writes view) s) Q

variable {store : Store σ κ ω π} {rely : σ → σ → Prop} {held : List κ} {s : σ}

section

variable {Q : α → List κ → σ → Prop}

theorem serially_ok {a : α} (h : Q a held s) :
    Serially store rely (.done (.ok a) : Prog σ κ ω ε α) held s Q :=
  h

theorem serially_fail {e : ε} : Serially store rely (Prog.fail e : Prog σ κ ω ε α) held s Q :=
  trivial

theorem serially_ofExcept {result : Except ε α} (h : ∀ a, result = .ok a → Q a held s) :
    Serially store rely (Prog.ofExcept result : Prog σ κ ω ε α) held s Q := by
  cases result with
  | error e => exact trivial
  | ok a => exact h a rfl

/-- A statement that writes. -/
theorem serially_execute {locks : σ → List κ} {writes : σ → List ω} {result : σ → Except ε α}
    (h : ∀ view a, rely view s →
      (∀ l ∈ held ++ takes store ⟨view, locks view, writes view⟩,
        store.part l s = store.part l view) →
      result view = .ok a → Q a (held ++ takes store ⟨view, locks view, writes view⟩)
        (store.applyAll (writes view) s)) :
    Serially store rely (Prog.execute locks writes result) held s Q :=
  fun view hview hparts => serially_ofExcept fun a ha => h view a hview hparts ha

/-- A statement that reads and locks. -/
theorem serially_selectForUpdate {locks : σ → List κ} {read : σ → α}
    (h : ∀ view, rely view s →
      (∀ l ∈ held ++ locks view, store.part l s = store.part l view) →
      Q (read view) (held ++ locks view) s) :
    Serially store rely (Prog.selectForUpdate locks read : Prog σ κ ω ε α) held s Q := by
  intro view hview hparts
  have htakes : takes store ⟨view, locks view, []⟩ = locks view := List.append_nil _
  rw [htakes] at hparts ⊢
  exact h view hview hparts

/-- A statement that reads. -/
theorem serially_select {read : σ → α}
    (h : ∀ view, rely view s → (∀ l ∈ held, store.part l s = store.part l view) →
      Q (read view) held s) :
    Serially store rely (Prog.select read : Prog σ κ ω ε α) held s Q := by
  intro view hview hparts
  have htakes : held ++ takes store (⟨view, [], []⟩ : Statement σ κ ω) = held := List.append_nil _
  rw [htakes] at hparts ⊢
  exact h view hview hparts

/-- A program and what follows it. -/
theorem serially_bind {p : Prog σ κ ω ε α} {f : α → Prog σ κ ω ε β} {R : β → List κ → σ → Prop}
    (h : Serially store rely p held s fun a held' s' => Serially store rely (f a) held' s' R) :
    Serially store rely (p >>= f) held s R := by
  induction p generalizing held s with
  | done result =>
    cases result with
    | error e => exact trivial
    | ok a => exact h
  | stmt locks writes next ih => exact fun view hview hparts => ih view (h view hview hparts)

theorem Serially.mono {p : Prog σ κ ω ε α} {Q' : α → List κ → σ → Prop}
    (h : Serially store rely p held s Q) (hQ : ∀ a held' s', Q a held' s' → Q' a held' s') :
    Serially store rely p held s Q' := by
  induction p generalizing held s with
  | done result =>
    cases result with
    | error e => exact trivial
    | ok a => exact hQ a held s h
  | stmt locks writes next ih => exact fun view hview hparts => ih view (h view hview hparts)

theorem Serially.and {p : Prog σ κ ω ε α} {Q' : α → List κ → σ → Prop}
    (h : Serially store rely p held s Q) (h' : Serially store rely p held s Q') :
    Serially store rely p held s fun a held' s' => Q a held' s' ∧ Q' a held' s' := by
  induction p generalizing held s with
  | done result =>
    cases result with
    | error e => exact trivial
    | ok a => exact ⟨h, h'⟩
  | stmt locks writes next ih =>
    exact fun view hview hparts => ih view (h view hview hparts) (h' view hview hparts)

theorem serially_mapError {f : ε → ε} {p : Prog σ κ ω ε α}
    (h : Serially store rely p held s Q) : Serially store rely (p.mapError f) held s Q := by
  induction p generalizing held s with
  | done result =>
    cases result with
    | error e => exact trivial
    | ok a => exact h
  | stmt locks writes next ih => exact fun view hview hparts => ih view (h view hview hparts)

theorem serially_ite {c : Prop} [Decidable c] {p q : Prog σ κ ω ε α}
    (hp : c → Serially store rely p held s Q) (hq : ¬c → Serially store rely q held s Q) :
    Serially store rely (if c then p else q) held s Q := by
  split
  · exact hp ‹_›
  · exact hq ‹_›

/-- What is held stays held, and what no write ends goes on. -/
theorem serially_of_invariant {P : ω → Prop} {Inv : σ → Prop} {p : Prog σ κ ω ε α}
    (hp : Emits P p) (hkeeps : ∀ w, P w → ∀ s, Inv s → Inv (store.apply w s)) (h : Inv s) :
    Serially store rely p held s fun _ held' s' => (∀ l ∈ held, l ∈ held') ∧ Inv s' := by
  induction hp generalizing held s with
  | done result =>
    cases result with
    | error e => exact trivial
    | ok a => exact ⟨fun _ hl => hl, h⟩
  | @stmt locks writes next hwrites hnext ih =>
    intro view hview hparts
    have hnextInv : Inv (store.applyAll (writes view) s) :=
      applyAll_keeps (fun w s hw => hkeeps w hw s) (hwrites view) h
    exact (ih view hnextInv).mono fun a held' s' h => ⟨fun l hl => h.1 l (List.mem_append_left _ hl),
      h.2⟩

/-- What no write changes stays as it is. -/
theorem serially_of_emits {τ : Type} {P : ω → Prop} {f : σ → τ} {p : Prog σ κ ω ε α}
    (hp : Emits P p) (hf : ∀ w, P w → ∀ s, f (store.apply w s) = f s) :
    Serially store rely p held s fun _ held' s' => (∀ l ∈ held, l ∈ held') ∧ f s' = f s :=
  serially_of_invariant hp (fun w hw _ hsame => (hf w hw _).trans hsame) rfl

end

/-- A loop keeps an invariant of what has been done so far. -/
theorem serially_forEach {f : Nat → β → Prog σ κ ω ε α} {I : List β → List α → List κ → σ → Prop}
    {all : List β}
    (hstep : ∀ n before b after as held s, all = before ++ b :: after → I before as held s →
      Serially store rely (f n b) held s fun a held' s' => I (before ++ [b]) (as ++ [a]) held' s')
    (h : I [] [] held s) :
    Serially store rely (Prog.forEach f 0 all) held s fun as held' s' => I all as held' s' := by
  suffices hrest : ∀ bs before as n held s, all = before ++ bs → I before as held s →
      Serially store rely (Prog.forEach f n bs) held s fun rest held' s' =>
        I all (as ++ rest) held' s' from hrest all [] [] 0 held s rfl h
  intro bs
  induction bs with
  | nil =>
    intro before as n held s hall hI
    rw [List.append_nil] at hall
    subst hall
    exact serially_ok (by rwa [List.append_nil])
  | cons b bs ih =>
    intro before as n held s hall hI
    refine serially_bind ((hstep n before b bs as held s hall hI).mono fun a held' s' hI' => ?_)
    refine serially_bind ((ih (before ++ [b]) (as ++ [a]) (n + 1) held' s' (by simp [hall])
      hI').mono fun rest held'' s'' hI'' => serially_ok ?_)
    rwa [List.append_assoc, List.singleton_append] at hI''

/-! ## Commits and transactions alone -/

/-- The views of a way through a program, for some database and what has been taken before. -/
def Agrees (store : Store σ κ ω π) (rely : σ → σ → Prop) (held : List κ) (s : σ)
    (stmts : List (Statement σ κ ω)) : Prop :=
  ∀ before x after, stmts = before ++ x :: after →
    rely x.view (store.applyAll (before.flatMap (·.writes)) s) ∧
      ∀ l ∈ held ++ (before ++ [x]).flatMap (takes store),
        store.part l (store.applyAll (before.flatMap (·.writes)) s) = store.part l x.view

theorem Serially.does {p : Prog σ κ ω ε α} {Q : α → List κ → σ → Prop}
    {stmts : List (Statement σ κ ω)} {ws : List ω} {a : α} (hdoes : Does p stmts ws a)
    (h : Serially store rely p held s Q) (hagrees : Agrees store rely held s stmts) :
    Q a (held ++ stmts.flatMap (takes store)) (store.applyAll ws s) := by
  induction hdoes generalizing held s with
  | done a =>
    rw [List.flatMap_nil, List.append_nil]
    exact h
  | @stmt locks writes next stmts ws a view hnext ih =>
    obtain ⟨hrely, hparts⟩ := hagrees [] _ stmts rfl
    rw [List.nil_append, List.flatMap_singleton] at hparts
    have hrest := ih (h view hrely hparts) fun before x after hsplit => by
      obtain ⟨hview, hlocked⟩ := hagrees (_ :: before) x after (congrArg _ hsplit)
      rw [List.flatMap_cons, Store.applyAll_append] at hview hlocked
      refine ⟨hview, fun l hl => hlocked l ?_⟩
      rwa [List.cons_append, List.flatMap_cons, ← List.append_assoc]
    rw [Store.applyAll_append, List.flatMap_cons, ← List.append_assoc]
    exact hrest

/-- **A transaction that runs alone.** -/
theorem serially_of_transact (hrely : ∀ s, rely s s) {p : Prog σ κ ω ε α}
    {Q : α → List κ → σ → Prop} {a : α} {s' : σ} (h : Serially store rely p held s Q)
    (hrun : run store.apply p s = .ok (a, s')) : ∃ held', Q a held' s' := by
  induction p generalizing held s with
  | done result =>
    cases result with
    | error e => cases hrun
    | ok b =>
      cases hrun
      exact ⟨held, h⟩
  | stmt locks writes next ih => exact ih s (h s (hrely s) fun _ _ => rfl) hrun

variable {χ ρ : Type} {program : χ → Prog σ κ ω ε ρ}

/-- What a write touches in every database. -/
theorem mem_touchesAll {w : ω} {l : κ} (h : ∀ s, l ∈ store.touches w s) {ws : List ω} (hw : w ∈ ws)
    (s : σ) : l ∈ store.touchesAll ws s := by
  obtain ⟨before, after, rfl⟩ := List.append_of_mem hw
  rw [Store.touchesAll_append]
  exact List.mem_append_right _ (List.mem_append_left _ (h _))

/-- At the commit, what the writes of a transaction touch has been taken. -/
theorem mem_takes_of_touched {stmts : List (Statement σ κ ω)} {base : σ}
    (h : Locked store stmts base) (before after : List (Statement σ κ ω))
    (hsplit : stmts = before ++ after) :
    ∀ l ∈ store.touchesAll (before.flatMap (·.writes)) base, l ∈ before.flatMap (takes store) := by
  induction before using List.reverseRecOn generalizing after with
  | nil => exact fun l hl => absurd hl List.not_mem_nil
  | append_singleton before x ih =>
    rw [List.append_assoc, List.singleton_append] at hsplit
    intro l hl
    rw [List.flatMap_append, List.flatMap_singleton, Store.touchesAll_append] at hl
    rw [List.flatMap_append, List.flatMap_singleton]
    rcases List.mem_append.mp hl with hl | hl
    · exact List.mem_append_left _ (ih _ hsplit l hl)
    · refine List.mem_append_right _ (List.mem_append_right _ ?_)
      have hparts := h before x after hsplit
      have hsame := (store.applyAll_congr (· ∈ (before ++ [x]).flatMap (takes store))
        (fun l hl => List.mem_flatMap.mpr ⟨x, List.mem_append_right _ (List.mem_singleton_self x),
          List.mem_append_right _ hl⟩) hparts).1
      rwa [hsame] at hl

/-- **A commit of a run.** -/
theorem serially_of_ran {e : Entry σ κ ω χ ρ} {stmts : List (Statement σ κ ω)}
    {Q : ρ → List κ → σ → Prop} (hran : Ran store program e stmts)
    (hrely : ∀ ws m, m ∈ e.world.moments → (∀ l ∈ store.touchesAll ws e.world.base,
        store.part l (store.applyAll ws e.world.base) = store.part l (store.applyAll ws m)) →
      rely (store.applyAll ws m) (store.applyAll ws e.world.base))
    (h : Serially store rely (program e.call) [] e.world.base Q) :
    ∃ held, Q e.answer held (e.world.view store) := by
  refine ⟨_, h.does hran.does fun before x after hsplit => ?_⟩
  obtain ⟨m, hm, hview⟩ := hran.found before x after hsplit
  have hlocked := hran.locked before x after hsplit
  refine ⟨?_, hlocked⟩
  rw [hview]
  refine hrely _ m (List.mem_of_getElem? hm) fun l hl => ?_
  rw [← hview]
  refine hlocked l ?_
  rw [List.flatMap_append]
  exact List.mem_append_left _ (mem_takes_of_touched hran.locked before _ hsplit l hl)

-- The rules are used from here on, not the recursion.
attribute [irreducible] Serially

end Interleaving
