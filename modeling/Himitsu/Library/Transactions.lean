import Mathlib

/-!
# Transactions as sequences of statements

A transaction runs statements on a database of type `σ`. A statement takes locks of type `κ`,
writes changes of type `ω` and goes on with what it read, each computed from the database that
the statement sees.

* `Prog` — the transactions that fail with an `ε` or return an `α`.
* `run`, `transact` — a transaction that runs alone, and one that is rolled back when it fails.
* `run_bind` — a transaction that continues another one runs after it.
* `Ensures` — a condition on the result of a transaction that runs alone and on the database after
  it, with a rule for each way to build a transaction.
* `Keeps` — a transaction leaves what `view` shows of the database.
* `Emits`, `Returns` — every write and every result of a transaction satisfies a condition, whatever
  it reads.
* `Preserves` — a transaction keeps an invariant of the database.
-/

set_option autoImplicit false

namespace Transactions

inductive Prog (σ κ ω ε α : Type) where
  | done (result : Except ε α)
  | stmt (locks : σ → List κ) (writes : σ → List ω) (next : σ → Prog σ κ ω ε α)

namespace Prog

variable {σ κ ω ε α β γ : Type}

def bind : Prog σ κ ω ε α → (α → Prog σ κ ω ε β) → Prog σ κ ω ε β
  | .done (.ok a), f => f a
  | .done (.error e), _ => .done (.error e)
  | .stmt locks writes next, f => .stmt locks writes fun s => (next s).bind f

instance : Monad (Prog σ κ ω ε) where
  pure a := .done (.ok a)
  bind := Prog.bind

/-- A transaction that fails here. -/
def fail (e : ε) : Prog σ κ ω ε α := .done (.error e)

/-- A `catch` that replaces the error. -/
def mapError (f : ε → ε) : Prog σ κ ω ε α → Prog σ κ ω ε α
  | .done (.ok a) => .done (.ok a)
  | .done (.error e) => .done (.error (f e))
  | .stmt locks writes next => .stmt locks writes fun s => (next s).mapError f

/-- A statement that only reads. -/
def select (read : σ → α) : Prog σ κ ω ε α :=
  .stmt (fun _ => []) (fun _ => []) fun s => .done (.ok (read s))

/-- A statement that reads and locks what it read. -/
def selectForUpdate (locks : σ → List κ) (read : σ → α) : Prog σ κ ω ε α :=
  .stmt locks (fun _ => []) fun s => .done (.ok (read s))

/-- A statement that writes. -/
def execute (locks : σ → List κ) (writes : σ → List ω) (result : σ → Except ε α) :
    Prog σ κ ω ε α :=
  .stmt locks writes fun s => .done (result s)

/-- A step that does not reach the database. -/
def ofExcept (result : Except ε α) : Prog σ κ ω ε α := .done result

/-- A transaction for each item in turn; the items are numbered from `n` on. -/
def forEach (f : Nat → β → Prog σ κ ω ε α) (n : Nat) : List β → Prog σ κ ω ε (List α)
  | [] => .done (.ok [])
  | b :: bs => (f n b).bind fun a => (forEach f (n + 1) bs).bind fun as => .done (.ok (a :: as))

@[simp] theorem pure_eq (a : α) : (pure a : Prog σ κ ω ε α) = .done (.ok a) := rfl

@[simp] theorem done_ok_bind (a : α) (f : α → Prog σ κ ω ε β) :
    ((.done (.ok a) : Prog σ κ ω ε α) >>= f) = f a := rfl

@[simp] theorem done_error_bind (e : ε) (f : α → Prog σ κ ω ε β) :
    ((.done (.error e) : Prog σ κ ω ε α) >>= f) = .done (.error e) := rfl

@[simp] theorem stmt_bind (locks : σ → List κ) (writes : σ → List ω)
    (next : σ → Prog σ κ ω ε α) (f : α → Prog σ κ ω ε β) :
    (.stmt locks writes next >>= f) = .stmt locks writes fun s => next s >>= f := rfl

theorem bind_assoc (p : Prog σ κ ω ε α) (f : α → Prog σ κ ω ε β) (g : β → Prog σ κ ω ε γ) :
    (p >>= f) >>= g = p >>= fun a => f a >>= g := by
  induction p with
  | done result => cases result <;> rfl
  | stmt locks writes next ih =>
    simp only [stmt_bind]
    congr 1
    funext s
    exact ih s

end Prog

/-! ## One transaction alone -/

section

variable {σ κ ω ε α β : Type} (apply : ω → σ → σ)

def applyAll (writes : List ω) (s : σ) : σ := writes.foldl (fun s w => apply w s) s

@[simp] theorem applyAll_nil (s : σ) : applyAll apply [] s = s := rfl

@[simp] theorem applyAll_cons (w : ω) (ws : List ω) (s : σ) :
    applyAll apply (w :: ws) s = applyAll apply ws (apply w s) := rfl

theorem applyAll_append (ws ws' : List ω) (s : σ) :
    applyAll apply (ws ++ ws') s = applyAll apply ws' (applyAll apply ws s) :=
  List.foldl_append

/-- The result of a transaction that runs alone, and the database after it. -/
def run : Prog σ κ ω ε α → σ → Except ε (α × σ)
  | .done (.ok a), s => .ok (a, s)
  | .done (.error e), _ => .error e
  | .stmt _ writes next, s => run (next s) (applyAll apply (writes s) s)

/-- A transaction that commits when it returns and is rolled back when it fails. -/
def transact (p : Prog σ κ ω ε α) (s : σ) : Except ε α × σ :=
  match run apply p s with
  | .ok (a, s') => (.ok a, s')
  | .error e => (.error e, s)

@[simp] theorem run_done_ok (a : α) (s : σ) :
    run apply (.done (.ok a) : Prog σ κ ω ε α) s = .ok (a, s) := rfl

@[simp] theorem run_done_error (e : ε) (s : σ) :
    run apply (.done (.error e) : Prog σ κ ω ε α) s = .error e := rfl

@[simp] theorem run_stmt (locks : σ → List κ) (writes : σ → List ω)
    (next : σ → Prog σ κ ω ε α) (s : σ) :
    run apply (.stmt locks writes next) s = run apply (next s) (applyAll apply (writes s) s) := rfl

theorem run_bind (p : Prog σ κ ω ε α) (f : α → Prog σ κ ω ε β) (s : σ) :
    run apply (p >>= f) s = (run apply p s) >>= fun r => run apply (f r.1) r.2 := by
  induction p generalizing s with
  | done result => cases result <;> rfl
  | stmt locks writes next ih => exact ih s _

theorem run_mapError (f : ε → ε) (p : Prog σ κ ω ε α) (s : σ) :
    run apply (p.mapError f) s = (run apply p s).mapError f := by
  induction p generalizing s with
  | done result => cases result <;> rfl
  | stmt locks writes next ih => exact ih s _

/-- **A transaction that fails changes nothing.** -/
theorem transact_of_error {p : Prog σ κ ω ε α} {s : σ} {e : ε}
    (h : (transact apply p s).1 = .error e) : (transact apply p s).2 = s := by
  unfold transact at h ⊢
  split at h
  · cases h
  · rfl

theorem transact_ok_iff {p : Prog σ κ ω ε α} {s s' : σ} {a : α} :
    transact apply p s = (.ok a, s') ↔ run apply p s = .ok (a, s') := by
  unfold transact
  cases run apply p s with
  | error e => simp
  | ok r => simp [Prod.ext_iff]

/-! ## Conditions -/

/-- If the transaction returns, its result and the database after it satisfy `Q`. -/
def Ensures (p : Prog σ κ ω ε α) (s : σ) (Q : α → σ → Prop) : Prop :=
  ∀ a s', run apply p s = .ok (a, s') → Q a s'

variable {apply}

theorem Ensures.mono {p : Prog σ κ ω ε α} {s : σ} {Q Q' : α → σ → Prop}
    (h : Ensures apply p s Q) (hQ : ∀ a s', Q a s' → Q' a s') : Ensures apply p s Q' :=
  fun a s' hrun => hQ a s' (h a s' hrun)

theorem Ensures.and {p : Prog σ κ ω ε α} {s : σ} {Q Q' : α → σ → Prop}
    (h : Ensures apply p s Q) (h' : Ensures apply p s Q') :
    Ensures apply p s fun a s' => Q a s' ∧ Q' a s' :=
  fun a s' hrun => ⟨h a s' hrun, h' a s' hrun⟩

@[simp] theorem ensures_done_ok {a : α} {s : σ} {Q : α → σ → Prop} :
    Ensures apply (.done (.ok a) : Prog σ κ ω ε α) s Q ↔ Q a s := by
  constructor
  · exact fun h => h a s rfl
  · rintro h a' s' hrun
    cases hrun
    exact h

@[simp] theorem ensures_done_error {e : ε} {s : σ} {Q : α → σ → Prop} :
    Ensures apply (.done (.error e) : Prog σ κ ω ε α) s Q := by
  intro a s' hrun
  cases hrun

@[simp] theorem ensures_fail {e : ε} {s : σ} {Q : α → σ → Prop} :
    Ensures apply (Prog.fail e : Prog σ κ ω ε α) s Q :=
  ensures_done_error

@[simp] theorem ensures_stmt {locks : σ → List κ} {writes : σ → List ω}
    {next : σ → Prog σ κ ω ε α} {s : σ} {Q : α → σ → Prop} :
    Ensures apply (.stmt locks writes next) s Q ↔
      Ensures apply (next s) (applyAll apply (writes s) s) Q :=
  Iff.rfl

@[simp] theorem ensures_select {read : σ → α} {s : σ} {Q : α → σ → Prop} :
    Ensures apply (Prog.select read : Prog σ κ ω ε α) s Q ↔ Q (read s) s := by
  rw [Prog.select, ensures_stmt, ensures_done_ok, applyAll_nil]

@[simp] theorem ensures_selectForUpdate {locks : σ → List κ} {read : σ → α} {s : σ}
    {Q : α → σ → Prop} :
    Ensures apply (Prog.selectForUpdate locks read : Prog σ κ ω ε α) s Q ↔ Q (read s) s := by
  rw [Prog.selectForUpdate, ensures_stmt, ensures_done_ok, applyAll_nil]

@[simp] theorem ensures_ofExcept {result : Except ε α} {s : σ} {Q : α → σ → Prop} :
    Ensures apply (Prog.ofExcept result : Prog σ κ ω ε α) s Q ↔
      ∀ a, result = .ok a → Q a s := by
  cases result <;> simp [Prog.ofExcept]

@[simp] theorem ensures_execute {locks : σ → List κ} {writes : σ → List ω}
    {result : σ → Except ε α} {s : σ} {Q : α → σ → Prop} :
    Ensures apply (Prog.execute locks writes result) s Q ↔
      ∀ a, result s = .ok a → Q a (applyAll apply (writes s) s) :=
  ensures_ofExcept

@[simp] theorem ensures_mapError {f : ε → ε} {p : Prog σ κ ω ε α} {s : σ} {Q : α → σ → Prop} :
    Ensures apply (p.mapError f) s Q ↔ Ensures apply p s Q := by
  unfold Ensures
  rw [run_mapError]
  cases run apply p s <;> simp [Except.mapError]

/-- The rule of composition. -/
@[simp] theorem ensures_bind {p : Prog σ κ ω ε α} {f : α → Prog σ κ ω ε β} {s : σ}
    {Q : β → σ → Prop} :
    Ensures apply (p >>= f) s Q ↔ Ensures apply p s fun a s' => Ensures apply (f a) s' Q := by
  unfold Ensures
  rw [run_bind]
  cases run apply p s with
  | error e =>
    constructor
    · intro _ a s' h
      cases h
    · intro _ b t h
      cases h
  | ok r =>
    constructor
    · rintro h a s' hr b t ht
      cases hr
      exact h b t ht
    · intro h b t ht
      exact h r.1 r.2 rfl b t ht

/-- The rule of a loop. -/
theorem ensures_forEach (Inv : σ → Prop) {f : Nat → β → Prog σ κ ω ε α} {bs : List β}
    (h : ∀ n, ∀ b ∈ bs, ∀ s, Inv s → Ensures apply (f n b) s fun _ s' => Inv s') {n : Nat} {s : σ}
    (hs : Inv s) : Ensures apply (Prog.forEach f n bs) s fun _ s' => Inv s' := by
  induction bs generalizing n s with
  | nil => exact ensures_done_ok.mpr hs
  | cons b bs ih =>
    have hstep := h n b (List.mem_cons_self ..) s hs
    show Ensures apply (f n b >>= _) s _
    rw [ensures_bind]
    refine hstep.mono fun a s' hs' => ?_
    have hrest := ih (fun n b hb => h n b (List.mem_cons_of_mem _ hb)) (n := n + 1) hs'
    show Ensures apply (Prog.forEach f (n + 1) bs >>= _) s' _
    rw [ensures_bind]
    exact hrest.mono fun as t ht => ensures_done_ok.mpr ht

/-! ## Views -/

/-- Whatever the database, what `view` shows of it is the same after the transaction. -/
def Keeps {τ : Type} (apply : ω → σ → σ) (view : σ → τ) (p : Prog σ κ ω ε α) : Prop :=
  ∀ s, Ensures apply p s fun _ s' => view s' = view s

section

variable {τ : Type} {view : σ → τ}

theorem Keeps.ensures {p : Prog σ κ ω ε α} (h : Keeps apply view p) {s : σ} {Q : α → σ → Prop}
    (hQ : ∀ a s', view s' = view s → Q a s') : Ensures apply p s Q :=
  (h s).mono hQ

theorem keeps_ok (a : α) : Keeps apply view (.done (.ok a) : Prog σ κ ω ε α) :=
  fun _ => ensures_done_ok.mpr rfl

theorem keeps_fail (e : ε) : Keeps apply view (Prog.fail e : Prog σ κ ω ε α) :=
  fun _ => ensures_fail

theorem keeps_ofExcept (result : Except ε α) :
    Keeps apply view (Prog.ofExcept result : Prog σ κ ω ε α) :=
  fun _ => ensures_ofExcept.mpr fun _ _ => rfl

theorem keeps_select (read : σ → α) :
    Keeps apply view (Prog.select read : Prog σ κ ω ε α) :=
  fun _ => ensures_select.mpr rfl

theorem keeps_selectForUpdate (locks : σ → List κ) (read : σ → α) :
    Keeps apply view (Prog.selectForUpdate locks read : Prog σ κ ω ε α) :=
  fun _ => ensures_selectForUpdate.mpr rfl

theorem keeps_execute {locks : σ → List κ} {writes : σ → List ω} {result : σ → Except ε α}
    (h : ∀ s, view (applyAll apply (writes s) s) = view s) :
    Keeps apply view (Prog.execute locks writes result) :=
  fun s => ensures_execute.mpr fun _ _ => h s

theorem Keeps.bind {p : Prog σ κ ω ε α} {f : α → Prog σ κ ω ε β} (hp : Keeps apply view p)
    (hf : ∀ a, Keeps apply view (f a)) : Keeps apply view (p >>= f) := by
  intro s
  rw [ensures_bind]
  exact hp.ensures fun a s' hs' => (hf a).ensures fun b t ht => ht.trans hs'

theorem Keeps.mapError {p : Prog σ κ ω ε α} (hp : Keeps apply view p) (f : ε → ε) :
    Keeps apply view (p.mapError f) :=
  fun s => ensures_mapError.mpr (hp s)

theorem Keeps.ite {c : Prop} [Decidable c] {p q : Prog σ κ ω ε α} (hp : Keeps apply view p)
    (hq : Keeps apply view q) : Keeps apply view (if c then p else q) := by
  split
  · exact hp
  · exact hq

theorem Keeps.forEach {f : Nat → β → Prog σ κ ω ε α} (hf : ∀ n b, Keeps apply view (f n b))
    (n : Nat) (bs : List β) : Keeps apply view (Prog.forEach f n bs) := by
  intro s
  exact ensures_forEach (fun s' => view s' = view s)
    (fun n b _ s' hs' => (hf n b).ensures fun _ _ ht => ht.trans hs') rfl

/-- A transaction that leaves the database as it is. -/
theorem Keeps.of_id {p : Prog σ κ ω ε α} (h : Keeps apply id p) : Keeps apply view p :=
  fun s => (h s).mono fun _ _ heq => congrArg view heq

end

/-! ## Emitted writes -/

/-- Whatever the statements read, each of their writes satisfies `P`. -/
inductive Emits (P : ω → Prop) : Prog σ κ ω ε α → Prop
  | done (result : Except ε α) : Emits P (.done result)
  | stmt {locks : σ → List κ} {writes : σ → List ω} {next : σ → Prog σ κ ω ε α}
      (hwrites : ∀ s, ∀ w ∈ writes s, P w) (hnext : ∀ s, Emits P (next s)) :
      Emits P (.stmt locks writes next)

section

variable {P : ω → Prop}

theorem emits_ok (a : α) : Emits P (.done (.ok a) : Prog σ κ ω ε α) := .done _

theorem emits_fail (e : ε) : Emits P (Prog.fail e : Prog σ κ ω ε α) := .done _

theorem emits_ofExcept (result : Except ε α) : Emits P (Prog.ofExcept result : Prog σ κ ω ε α) :=
  .done _

theorem emits_select (read : σ → α) : Emits P (Prog.select read : Prog σ κ ω ε α) :=
  .stmt (fun _ _ hw => (List.not_mem_nil hw).elim) fun _ => .done _

theorem emits_selectForUpdate (locks : σ → List κ) (read : σ → α) :
    Emits P (Prog.selectForUpdate locks read : Prog σ κ ω ε α) :=
  .stmt (fun _ _ hw => (List.not_mem_nil hw).elim) fun _ => .done _

theorem emits_execute {locks : σ → List κ} {writes : σ → List ω} {result : σ → Except ε α}
    (h : ∀ s, ∀ w ∈ writes s, P w) : Emits P (Prog.execute locks writes result) :=
  .stmt h fun _ => .done _

theorem Emits.bind {p : Prog σ κ ω ε α} {f : α → Prog σ κ ω ε β} (hp : Emits P p)
    (hf : ∀ a, Emits P (f a)) : Emits P (p >>= f) := by
  induction hp with
  | done result =>
    cases result with
    | error e => exact .done _
    | ok a => exact hf a
  | stmt hwrites _ ih => exact .stmt hwrites ih

theorem Emits.mapError {p : Prog σ κ ω ε α} (hp : Emits P p) (f : ε → ε) :
    Emits P (p.mapError f) := by
  induction hp with
  | done result => cases result <;> exact .done _
  | stmt hwrites _ ih => exact .stmt hwrites ih

theorem Emits.mono {P' : ω → Prop} {p : Prog σ κ ω ε α} (hp : Emits P p)
    (h : ∀ w, P w → P' w) : Emits P' p := by
  induction hp with
  | done result => exact .done _
  | stmt hwrites _ ih => exact .stmt (fun s w hw => h w (hwrites s w hw)) ih

/-- What each of the writes keeps, all of them keep. -/
theorem applyAll_keeps {Inv : σ → Prop} (hkeeps : ∀ w s, P w → Inv s → Inv (apply w s))
    {ws : List ω} (hws : ∀ w ∈ ws, P w) {s : σ} (hs : Inv s) : Inv (applyAll apply ws s) := by
  induction ws generalizing s with
  | nil => exact hs
  | cons w ws ih =>
    exact ih (fun w' hw' => hws w' (List.mem_cons_of_mem _ hw'))
      (hkeeps w s (hws w (List.mem_cons_self ..)) hs)

/-- What every such write keeps, the transaction keeps. -/
theorem Emits.ensures {Inv : σ → Prop} {p : Prog σ κ ω ε α} (hp : Emits P p)
    (hkeeps : ∀ w s, P w → Inv s → Inv (apply w s)) {s : σ} (hs : Inv s) :
    Ensures apply p s fun _ s' => Inv s' := by
  induction hp generalizing s with
  | done result =>
    cases result with
    | error e => exact ensures_done_error
    | ok a => exact ensures_done_ok.mpr hs
  | stmt hwrites _ ih => exact ensures_stmt.mpr (ih s (applyAll_keeps hkeeps (hwrites s) hs))

theorem Emits.ite {c : Prop} [Decidable c] {p q : Prog σ κ ω ε α} (hp : Emits P p)
    (hq : Emits P q) : Emits P (if c then p else q) := by
  split
  · exact hp
  · exact hq

theorem Emits.forEach {f : Nat → β → Prog σ κ ω ε α} (hf : ∀ n b, Emits P (f n b)) (n : Nat)
    (bs : List β) : Emits P (Prog.forEach f n bs) := by
  induction bs generalizing n with
  | nil => exact .done _
  | cons b bs ih => exact (hf n b).bind fun a => (ih (n + 1)).bind fun as => .done _

end

/-! ## Results -/

/-- Whatever the statements read, a result satisfies `R`. -/
inductive Returns (R : α → Prop) : Prog σ κ ω ε α → Prop
  | ok {a : α} (h : R a) : Returns R (.done (.ok a))
  | error (e : ε) : Returns R (.done (.error e))
  | stmt {locks : σ → List κ} {writes : σ → List ω} {next : σ → Prog σ κ ω ε α}
      (hnext : ∀ s, Returns R (next s)) : Returns R (.stmt locks writes next)

theorem returns_execute {R : α → Prop} {locks : σ → List κ} {writes : σ → List ω}
    {result : σ → Except ε α} (h : ∀ s a, result s = .ok a → R a) :
    Returns R (Prog.execute locks writes result) := by
  refine .stmt fun s => ?_
  cases hresult : result s with
  | error e => exact .error e
  | ok a => exact .ok (h s a hresult)

/-- The rule of composition for a program whose results are known. -/
theorem Emits.bind_of {P : ω → Prop} {R : α → Prop} {p : Prog σ κ ω ε α}
    {f : α → Prog σ κ ω ε β} (hp : Emits P p) (hr : Returns R p) (hf : ∀ a, R a → Emits P (f a)) :
    Emits P (p >>= f) := by
  induction hp with
  | done result =>
    cases hr with
    | ok h => exact hf _ h
    | error e => exact .done _
  | stmt hwrites _ ih =>
    cases hr with
    | stmt hnext => exact .stmt hwrites fun s => ih s (hnext s)

/-! ## Invariants -/

/-- A transaction that returns keeps `Inv`. -/
def Preserves (apply : ω → σ → σ) (Inv : σ → Prop) (p : Prog σ κ ω ε α) : Prop :=
  ∀ s, Inv s → Ensures apply p s fun _ s' => Inv s'

section

variable {Inv : σ → Prop}

theorem preserves_ok (a : α) : Preserves apply Inv (.done (.ok a) : Prog σ κ ω ε α) :=
  fun _ hs => ensures_done_ok.mpr hs

theorem preserves_fail (e : ε) : Preserves apply Inv (Prog.fail e : Prog σ κ ω ε α) :=
  fun _ _ => ensures_fail

theorem Preserves.of_keeps {p : Prog σ κ ω ε α} (h : Keeps apply id p) : Preserves apply Inv p := by
  intro s hs
  refine h.ensures fun _ s' heq => ?_
  rwa [show s' = s from heq]

theorem Emits.preserves {P : ω → Prop} {p : Prog σ κ ω ε α} (hp : Emits P p)
    (hkeeps : ∀ w s, P w → Inv s → Inv (apply w s)) : Preserves apply Inv p :=
  fun _ hs => hp.ensures hkeeps hs

/-- The rule of a statement whose writes depend on what it finds. -/
theorem preserves_execute {P : ω → Prop} {locks : σ → List κ} {writes : σ → List ω}
    {result : σ → Except ε α} (hwrites : ∀ s, Inv s → ∀ w ∈ writes s, P w)
    (hkeeps : ∀ w s, P w → Inv s → Inv (apply w s)) :
    Preserves apply Inv (Prog.execute locks writes result) := by
  intro s hs
  rw [ensures_execute]
  exact fun _ _ => applyAll_keeps hkeeps (hwrites s hs) hs

theorem Preserves.bind {p : Prog σ κ ω ε α} {f : α → Prog σ κ ω ε β}
    (hp : Preserves apply Inv p) (hf : ∀ a, Preserves apply Inv (f a)) :
    Preserves apply Inv (p >>= f) := by
  intro s hs
  rw [ensures_bind]
  exact (hp s hs).mono fun a s' hs' => hf a s' hs'

/-- The rule of composition for a program that finds something out. -/
theorem Preserves.bind_of {R : α → Prop} {p : Prog σ κ ω ε α} {f : α → Prog σ κ ω ε β}
    (hp : ∀ s, Inv s → Ensures apply p s fun a s' => Inv s' ∧ R a)
    (hf : ∀ a, R a → Preserves apply Inv (f a)) : Preserves apply Inv (p >>= f) := by
  intro s hs
  rw [ensures_bind]
  exact (hp s hs).mono fun a s' h => hf a h.2 s' h.1

theorem Preserves.mapError {p : Prog σ κ ω ε α} (hp : Preserves apply Inv p) (f : ε → ε) :
    Preserves apply Inv (p.mapError f) :=
  fun s hs => ensures_mapError.mpr (hp s hs)

theorem Preserves.ite {c : Prop} [Decidable c] {p q : Prog σ κ ω ε α}
    (hp : Preserves apply Inv p) (hq : Preserves apply Inv q) :
    Preserves apply Inv (if c then p else q) := by
  split
  · exact hp
  · exact hq

theorem Preserves.forEach {f : Nat → β → Prog σ κ ω ε α} {bs : List β}
    (hf : ∀ n, ∀ b ∈ bs, Preserves apply Inv (f n b)) (n : Nat) :
    Preserves apply Inv (Prog.forEach f n bs) :=
  fun _ hs => ensures_forEach Inv hf hs

end

theorem transact_of_ensures {p : Prog σ κ ω ε α} {s : σ} {Q : α → σ → Prop} {a : α}
    (h : Ensures apply p s Q) (hok : (transact apply p s).1 = .ok a) :
    Q a (transact apply p s).2 := by
  have heq : transact apply p s = (.ok a, (transact apply p s).2) := Prod.ext hok rfl
  exact h a _ ((transact_ok_iff apply).mp heq)

end

end Transactions
