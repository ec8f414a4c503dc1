import Himitsu.Library.Guarantees

/-!
# Programs on a component of the database

A program on databases of type `σ` runs on databases of type `σ'` that show one, with its locks and
writes among those of the larger database.

* `Prog.within` — the program on the larger databases.
* `Shows` — a statement on a larger database and the statement on the component.
* `does_within`, `Emits.within` — what it does, by what the program does.
* `run_within` — alone, it does to the component what the program does.
* `Ran.part_eq` — what the first write of a commit touches is still so at the commit.
-/

set_option autoImplicit false

namespace Transactions

open RelatedLists

variable {σ σ' κ κ' ω ω' ε α β : Type} {view : σ' → σ} {lock : κ → κ'} {write : ω → ω'}

def Prog.within (view : σ' → σ) (lock : κ → κ') (write : ω → ω') :
    Prog σ κ ω ε α → Prog σ' κ' ω' ε α
  | .done result => .done result
  | .stmt locks writes next =>
    .stmt (fun s => (locks (view s)).map lock) (fun s => (writes (view s)).map write)
      fun s => (next (view s)).within view lock write

/-- A statement on the larger database and what it is on the component. -/
structure Shows (view : σ' → σ) (lock : κ → κ') (write : ω → ω') (x : Statement σ' κ' ω')
    (y : Statement σ κ ω) : Prop where
  view : view x.view = y.view
  locks : x.locks = y.locks.map lock
  writes : x.writes = y.writes.map write

theorem does_within {p : Prog σ κ ω ε α} {stmts : List (Statement σ' κ' ω')} {ws : List ω'} {a : α}
    (h : Does (p.within view lock write) stmts ws a) :
    ∃ inner written, Does p inner written a ∧ List.Forall₂ (Shows view lock write) stmts inner ∧
      ws = written.map write := by
  induction p generalizing stmts ws with
  | done result =>
    cases result with
    | error e => exact absurd h does_error
    | ok b =>
      obtain ⟨rfl, rfl, rfl⟩ := does_ok.mp h
      exact ⟨[], [], .done _, .nil, rfl⟩
  | stmt locks writes next ih =>
    obtain ⟨s, rest, ws', hnext, rfl, rfl⟩ := does_stmt.mp h
    obtain ⟨inner, written, hdoes, hshows, rfl⟩ := ih (view s) hnext
    refine ⟨⟨view s, locks (view s), writes (view s)⟩ :: inner, writes (view s) ++ written,
      .stmt (view s) hdoes, .cons ⟨rfl, rfl, rfl⟩ hshows, ?_⟩
    rw [List.map_append]

theorem Emits.within {P : ω → Prop} {P' : ω' → Prop} {p : Prog σ κ ω ε α} (hp : Emits P p)
    (h : ∀ w, P w → P' (write w)) : Emits P' (p.within view lock write) := by
  induction hp with
  | done result => exact .done result
  | stmt hwrites _ ih =>
    refine .stmt (fun s w hw => ?_) fun s => ih (view s)
    obtain ⟨inner, hinner, rfl⟩ := List.mem_map.mp hw
    exact h inner (hwrites (view s) inner hinner)

theorem run_liftError {ε' : Type} (apply : ω → σ → σ) (f : ε → ε') (p : Prog σ κ ω ε α) (s : σ) :
    run apply (p.liftError f) s = (run apply p s).mapError f := by
  induction p generalizing s with
  | done result => cases result <;> rfl
  | stmt locks writes next ih => exact ih s _

theorem run_ofExcept_bind (apply : ω → σ → σ) (result : Except ε α) (f : α → Prog σ κ ω ε β)
    (s : σ) : run apply (Prog.ofExcept result >>= f) s = result >>= fun a => run apply (f a) s := by
  cases result <;> rfl

theorem run_execute_bind (apply : ω → σ → σ) {locks : σ → List κ} {writes : σ → List ω}
    {result : σ → Except ε α} (f : α → Prog σ κ ω ε β) (s : σ) :
    run apply (Prog.execute locks writes result >>= f) s =
      result s >>= fun a => run apply (f a) (applyAll apply (writes s) s) :=
  run_ofExcept_bind apply (result s) f _

/-- **Alone, the program does to the component what it does there, and leaves the rest.** -/
theorem run_within {τ : Type} {apply : ω → σ → σ} {apply' : ω' → σ' → σ'} (lock : κ → κ')
    (rest : σ' → τ) (hview : ∀ w s, view (apply' (write w) s) = apply w (view s))
    (hrest : ∀ w s, rest (apply' (write w) s) = rest s) (p : Prog σ κ ω ε α) (s : σ') :
    (run apply' (p.within view lock write) s).map (fun r => (r.1, view r.2, rest r.2)) =
      (run apply p (view s)).map fun r => (r.1, r.2, rest s) := by
  have hall : ∀ (ws : List ω) (s : σ'),
      view (applyAll apply' (ws.map write) s) = applyAll apply ws (view s) ∧
        rest (applyAll apply' (ws.map write) s) = rest s := by
    intro ws
    induction ws with
    | nil => exact fun s => ⟨rfl, rfl⟩
    | cons w ws ih =>
      intro s
      rw [List.map_cons, applyAll_cons, applyAll_cons, (ih _).1, (ih _).2, hview, hrest]
      exact ⟨rfl, rfl⟩
  induction p generalizing s with
  | done result => cases result <;> rfl
  | stmt locks writes next ih =>
    obtain ⟨hsame, hkept⟩ := hall (writes (view s)) s
    have hnext := ih (view s) (applyAll apply' ((writes (view s)).map write) s)
    rw [hsame, hkept] at hnext
    exact hnext

end Transactions

namespace Interleaving

open Transactions

variable {σ κ ω π ε χ ρ : Type} {store : Store σ κ ω π} {program : χ → Prog σ κ ω ε ρ}

/-- **What a statement of a commit takes before the first write is still so at the commit.** -/
theorem Ran.part_eq {e : Entry σ κ ω χ ρ} {stmts : List (Statement σ κ ω)}
    (hran : Ran store program e stmts) {before after : List (Statement σ κ ω)}
    {x : Statement σ κ ω} (hsplit : stmts = before ++ x :: after)
    (hnone : before.flatMap (·.writes) = []) {l : κ} (hl : l ∈ takes store x) :
    store.part l e.world.base = store.part l x.view := by
  have hlocked := hran.locked before x after hsplit l
    (List.mem_flatMap.mpr ⟨x, List.mem_append_right _ (List.mem_singleton_self x), hl⟩)
  rwa [hnone, Store.applyAll_nil] at hlocked

/-- **What a statement of a commit found before the first write was committed** after some of the
commits between the beginning of its transaction and its own. -/
theorem Ran.view_eq {base : σ} {s : System σ κ ω ε χ ρ} (hreach : Reachable store program base s)
    {i : Nat} {e : Entry σ κ ω χ ρ} (he : s.log[i]? = some e) {stmts : List (Statement σ κ ω)}
    (hran : Ran store program e stmts) {before after : List (Statement σ κ ω)}
    {x : Statement σ κ ω} (hsplit : stmts = before ++ x :: after)
    (hnone : before.flatMap (·.writes) = []) :
    ∃ n, e.since ≤ n ∧ n ≤ i ∧ x.view = databaseAfter store base s.log n := by
  obtain ⟨times, hmoments, -, hbounds⟩ := times_of_reachable hreach he
  obtain ⟨moment, hmoment, hview⟩ := hran.found before x after hsplit
  rw [hnone, Store.applyAll_nil] at hview
  rw [hmoments, List.getElem?_map, Option.map_eq_some_iff] at hmoment
  obtain ⟨n, hn, rfl⟩ := hmoment
  have hle := hbounds n (List.mem_of_getElem? hn)
  exact ⟨n, hle.1, hle.2, hview⟩

end Interleaving
