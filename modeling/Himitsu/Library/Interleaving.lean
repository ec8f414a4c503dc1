import Himitsu.Library.Transactions

/-!
# Interleaved transactions with locks

The database has parts, each of which a lock protects. A statement sees the committed database
with the writes of its own transaction on it; it waits while another transaction holds a lock that
it takes or that protects a part it writes; a transaction keeps its locks until it ends.

* `Store` — a database with its writes and its parts; a write depends on and changes only the
  parts it touches.
* `System`, `Step` — any number of open transactions; a statement, a commit and a rollback are one
  step each.
* `Contract` — an invariant of the committed databases and a relation between them, which every
  commit has to keep.
* `Safe` — a transaction keeps the contract, and its result satisfies a condition, whatever the
  other transactions do.
* `Safe.bind`, `Safe.stmt` — the rules for programs.
* `history_of_reachable` — when every program is safe, all commits of every run satisfy the
  contract and the condition of their call.
* `commits_of_reachable` — only commits change the database.
* `System.schedule` — a run that a list of choices determines.
-/

set_option autoImplicit false

namespace Interleaving

open Transactions

structure Store (σ κ ω π : Type) where
  apply : ω → σ → σ
  part : κ → σ → π
  touches : ω → σ → List κ
  /-- A write leaves the parts it does not touch as they are. -/
  frame : ∀ w s l, l ∉ touches w s → part l (apply w s) = part l s
  /-- A write depends only on the parts it touches. -/
  congr : ∀ w s t, (∀ l ∈ touches w s, part l t = part l s) →
    touches w t = touches w s ∧ ∀ l ∈ touches w s, part l (apply w t) = part l (apply w s)

variable {σ κ ω π ε χ ρ : Type}

namespace Store

variable (store : Store σ κ ω π)

def applyAll (ws : List ω) (s : σ) : σ := Transactions.applyAll store.apply ws s

@[simp] theorem applyAll_nil (s : σ) : store.applyAll [] s = s := rfl

@[simp] theorem applyAll_cons (w : ω) (ws : List ω) (s : σ) :
    store.applyAll (w :: ws) s = store.applyAll ws (store.apply w s) := rfl

theorem applyAll_append (ws ws' : List ω) (s : σ) :
    store.applyAll (ws ++ ws') s = store.applyAll ws' (store.applyAll ws s) :=
  Transactions.applyAll_append store.apply ws ws' s

/-- The parts that a list of writes touches. -/
def touchesAll : List ω → σ → List κ
  | [], _ => []
  | w :: ws, s => store.touches w s ++ touchesAll ws (store.apply w s)

theorem touchesAll_append (ws ws' : List ω) (s : σ) :
    store.touchesAll (ws ++ ws') s =
      store.touchesAll ws s ++ store.touchesAll ws' (store.applyAll ws s) := by
  induction ws generalizing s with
  | nil => rfl
  | cons w ws ih => simp only [List.cons_append, touchesAll, ih, List.append_assoc, applyAll_cons]

theorem applyAll_frame {ws : List ω} {s : σ} {l : κ} (h : l ∉ store.touchesAll ws s) :
    store.part l (store.applyAll ws s) = store.part l s := by
  induction ws generalizing s with
  | nil => rfl
  | cons w ws ih =>
    rw [touchesAll, List.mem_append, not_or] at h
    rw [applyAll_cons, ih h.2, store.frame w s l h.1]

/-- Writes have the same effect on databases that agree on a set of parts they stay in. -/
theorem applyAll_congr (held : κ → Prop) {ws : List ω} {s t : σ}
    (hin : ∀ l ∈ store.touchesAll ws s, held l)
    (heq : ∀ l, held l → store.part l t = store.part l s) :
    store.touchesAll ws t = store.touchesAll ws s ∧
      ∀ l, held l → store.part l (store.applyAll ws t) = store.part l (store.applyAll ws s) := by
  induction ws generalizing s t with
  | nil => exact ⟨rfl, heq⟩
  | cons w ws ih =>
    have htouch : ∀ l ∈ store.touches w s, held l := fun l hl =>
      hin l (List.mem_append_left _ hl)
    obtain ⟨hsame, hparts⟩ := store.congr w s t fun l hl => heq l (htouch l hl)
    have hnext : ∀ l, held l → store.part l (store.apply w t) = store.part l (store.apply w s) := by
      intro l hl
      by_cases hmem : l ∈ store.touches w s
      · exact hparts l hmem
      · rw [store.frame w s l hmem, store.frame w t l (hsame ▸ hmem), heq l hl]
    have hrest := ih (fun l hl => hin l (List.mem_append_right _ hl)) hnext
    refine ⟨?_, hrest.2⟩
    rw [touchesAll, touchesAll, hsame, hrest.1]

end Store

/-! ## The system -/

/-- An open transaction: its call, what is left of its program, its writes and its locks. `since`
is the number of commits when it began, and `moments` are the committed databases at its
statements. -/
structure Tx (σ κ ω ε χ ρ : Type) where
  call : χ
  prog : Prog σ κ ω ε ρ
  pending : List ω
  held : List κ
  since : Nat
  moments : List σ

/-- What a transaction can see of the system. -/
structure World (σ κ ω : Type) where
  base : σ
  pending : List ω
  held : List κ
  moments : List σ

/-- A commit: its call and result, and what its transaction saw then. -/
structure Entry (σ κ ω χ ρ : Type) where
  call : χ
  answer : ρ
  since : Nat
  world : World σ κ ω

structure System (σ κ ω ε χ ρ : Type) where
  base : σ
  active : List (Tx σ κ ω ε χ ρ)
  log : List (Entry σ κ ω χ ρ)

def Tx.world (tx : Tx σ κ ω ε χ ρ) (base : σ) : World σ κ ω :=
  ⟨base, tx.pending, tx.held, tx.moments⟩

def System.start (base : σ) : System σ κ ω ε χ ρ := ⟨base, [], []⟩

/-- A transaction that has not run a statement. -/
def Tx.begin (program : χ → Prog σ κ ω ε ρ) (call : χ) (since : Nat) : Tx σ κ ω ε χ ρ :=
  ⟨call, program call, [], [], since, []⟩

section

variable (store : Store σ κ ω π)

/-- The database that the statements of a transaction see. -/
def World.view (w : World σ κ ω) : σ := store.applyAll w.pending w.base

/-- The locks that a statement needs. -/
def World.needs (w : World σ κ ω) (locks : σ → List κ) (writes : σ → List ω) : List κ :=
  locks (w.view store) ++ store.touchesAll (writes (w.view store)) (w.view store)

def World.after (w : World σ κ ω) (locks : σ → List κ) (writes : σ → List ω) : World σ κ ω :=
  { base := w.base
    pending := w.pending ++ writes (w.view store)
    held := w.held ++ w.needs store locks writes
    moments := w.moments ++ [w.base] }

/-- A transaction after its next statement. -/
def Tx.advance (tx : Tx σ κ ω ε χ ρ) (base : σ) (locks : σ → List κ) (writes : σ → List ω)
    (next : σ → Prog σ κ ω ε ρ) : Tx σ κ ω ε χ ρ :=
  let w := (tx.world base).after store locks writes
  { tx with
    prog := next ((tx.world base).view store)
    pending := w.pending
    held := w.held
    moments := w.moments }

inductive Step (program : χ → Prog σ κ ω ε ρ) :
    System σ κ ω ε χ ρ → System σ κ ω ε χ ρ → Prop
  | start (s : System σ κ ω ε χ ρ) (call : χ) :
      Step program s { s with active := s.active ++ [.begin program call s.log.length] }
  | statement (base : σ) (log : List (Entry σ κ ω χ ρ)) (before after : List (Tx σ κ ω ε χ ρ))
      (tx : Tx σ κ ω ε χ ρ) (locks : σ → List κ) (writes : σ → List ω)
      (next : σ → Prog σ κ ω ε ρ) (hprog : tx.prog = .stmt locks writes next)
      (hfree : ∀ other ∈ before ++ after, ∀ l ∈ (tx.world base).needs store locks writes,
        l ∉ other.held) :
      Step program ⟨base, before ++ tx :: after, log⟩
        ⟨base, before ++ tx.advance store base locks writes next :: after, log⟩
  | commit (base : σ) (log : List (Entry σ κ ω χ ρ)) (before after : List (Tx σ κ ω ε χ ρ))
      (tx : Tx σ κ ω ε χ ρ) (answer : ρ) (hprog : tx.prog = .done (.ok answer)) :
      Step program ⟨base, before ++ tx :: after, log⟩
        ⟨(tx.world base).view store, before ++ after,
          log ++ [⟨tx.call, answer, tx.since, tx.world base⟩]⟩
  | rollback (base : σ) (log : List (Entry σ κ ω χ ρ)) (before after : List (Tx σ κ ω ε χ ρ))
      (tx : Tx σ κ ω ε χ ρ) :
      Step program ⟨base, before ++ tx :: after, log⟩ ⟨base, before ++ after, log⟩

/-- The systems that a run from a database reaches. -/
def Reachable (program : χ → Prog σ κ ω ε ρ) (base : σ) (s : System σ κ ω ε χ ρ) : Prop :=
  Relation.ReflTransGen (Step store program) (.start base) s

end

/-! ## Contracts -/

/-- What every commit keeps: `inv` of the database, and `rely` from the database before it to the
one after it. -/
structure Contract (σ : Type) where
  inv : σ → Prop
  rely : σ → σ → Prop
  refl : ∀ s, rely s s
  trans : ∀ {s t u}, rely s t → rely t u → rely s u

section

variable (store : Store σ κ ω π) (contract : Contract σ)

/-- The commits of the other transactions change the database of `w` to that of `w'`. -/
structure Moves (w w' : World σ κ ω) : Prop where
  pending : w'.pending = w.pending
  held : w'.held = w.held
  moments : w'.moments = w.moments
  inv : contract.inv w'.base
  rely : contract.rely w.base w'.base
  frozen : ∀ l ∈ w.held, store.part l w'.base = store.part l w.base

/-- The locks of a transaction cover its writes. -/
def Covered (w : World σ κ ω) : Prop := ∀ l ∈ store.touchesAll w.pending w.base, l ∈ w.held

/-- Whatever the other transactions do, a program that returns satisfies `Q` when it commits. -/
def Safe {α : Type} : Prog σ κ ω ε α → World σ κ ω → (α → World σ κ ω → Prop) → Prop
  | .done (.ok a), w, Q => ∀ w', Moves store contract w w' → Q a w'
  | .done (.error _), _, _ => True
  | .stmt locks writes next, w, Q => ∀ w', Moves store contract w w' →
      Safe (next (w'.view store)) (w'.after store locks writes) Q

variable {store contract}

theorem Moves.refl {w : World σ κ ω} (h : contract.inv w.base) : Moves store contract w w :=
  ⟨rfl, rfl, rfl, h, contract.refl _, fun _ _ => rfl⟩

theorem Moves.trans {w w' w'' : World σ κ ω} (h : Moves store contract w w')
    (h' : Moves store contract w' w'') : Moves store contract w w'' where
  pending := h'.pending.trans h.pending
  held := h'.held.trans h.held
  moments := h'.moments.trans h.moments
  inv := h'.inv
  rely := contract.trans h.rely h'.rely
  frozen l hl := (h'.frozen l (h.held ▸ hl)).trans (h.frozen l hl)

theorem Covered.moves {w w' : World σ κ ω} (hcov : Covered store w)
    (h : Moves store contract w w') : Covered store w' := by
  unfold Covered
  rw [h.pending, h.held, (store.applyAll_congr (· ∈ w.held) hcov h.frozen).1]
  exact hcov

/-- Outside its locks a transaction sees the committed database. -/
theorem Covered.view_of_not_held {w : World σ κ ω} (hcov : Covered store w) {l : κ}
    (hl : l ∉ w.held) : store.part l (w.view store) = store.part l w.base :=
  store.applyAll_frame fun hmem => hl (hcov l hmem)

theorem Covered.after {w : World σ κ ω} (hcov : Covered store w) (locks : σ → List κ)
    (writes : σ → List ω) : Covered store (w.after store locks writes) := by
  intro l hl
  simp only [World.after, store.touchesAll_append] at hl
  rcases List.mem_append.mp hl with hl | hl
  · exact List.mem_append_left _ (hcov l hl)
  · exact List.mem_append_right _ (List.mem_append_right _ hl)

@[simp] theorem World.after_view (w : World σ κ ω) (locks : σ → List κ) (writes : σ → List ω) :
    (w.after store locks writes).view store =
      store.applyAll (writes (w.view store)) (w.view store) :=
  store.applyAll_append _ _ _

@[simp] theorem World.after_base (w : World σ κ ω) (locks : σ → List κ) (writes : σ → List ω) :
    (w.after store locks writes).base = w.base := rfl

@[simp] theorem World.after_pending (w : World σ κ ω) (locks : σ → List κ) (writes : σ → List ω) :
    (w.after store locks writes).pending = w.pending ++ writes (w.view store) := rfl

@[simp] theorem World.after_held (w : World σ κ ω) (locks : σ → List κ) (writes : σ → List ω) :
    (w.after store locks writes).held = w.held ++ w.needs store locks writes := rfl

theorem World.view_of_pending {w : World σ κ ω} (h : w.pending = []) : w.view store = w.base := by
  rw [World.view, h, Store.applyAll_nil]

/-! ## Rules -/

theorem Safe.moves {α : Type} {p : Prog σ κ ω ε α} {w w' : World σ κ ω}
    {Q : α → World σ κ ω → Prop} (h : Safe store contract p w Q)
    (hm : Moves store contract w w') : Safe store contract p w' Q := by
  cases p with
  | done result =>
    cases result with
    | error e => trivial
    | ok a => exact fun w'' hm' => h w'' (hm.trans hm')
  | stmt locks writes next => exact fun w'' hm' => h w'' (hm.trans hm')

/-- The rule of consequence. -/
theorem Safe.mono {α : Type} {p : Prog σ κ ω ε α} {w : World σ κ ω}
    {Q Q' : α → World σ κ ω → Prop} (h : Safe store contract p w Q)
    (hQ : ∀ a w, Q a w → Q' a w) : Safe store contract p w Q' := by
  induction p generalizing w with
  | done result =>
    cases result with
    | error e => trivial
    | ok a => exact fun w' hm => hQ a w' (h w' hm)
  | stmt locks writes next ih => exact fun w' hm => ih _ (h w' hm)

/-- The rule of composition. -/
theorem Safe.bind {α β : Type} {p : Prog σ κ ω ε α} {f : α → Prog σ κ ω ε β}
    {w : World σ κ ω} {Q : β → World σ κ ω → Prop} (hinv : contract.inv w.base)
    (h : Safe store contract p w fun a w' => Safe store contract (f a) w' Q) :
    Safe store contract (p >>= f) w Q := by
  induction p generalizing w with
  | done result =>
    cases result with
    | error e => trivial
    | ok a => exact h w (.refl hinv)
  | stmt locks writes next ih => exact fun w' hm => ih _ hm.inv (h w' hm)

theorem Safe.mapError {α : Type} {f : ε → ε} {p : Prog σ κ ω ε α} {w : World σ κ ω}
    {Q : α → World σ κ ω → Prop} (h : Safe store contract p w Q) :
    Safe store contract (p.mapError f) w Q := by
  induction p generalizing w with
  | done result =>
    cases result with
    | error e => trivial
    | ok a => exact h
  | stmt locks writes next ih => exact fun w' hm => ih _ (h w' hm)

/-- The rule of a program whose result is changed. -/
theorem Safe.map {α β : Type} {p : Prog σ κ ω ε α} {g : α → β} {w : World σ κ ω}
    {Q : β → World σ κ ω → Prop} (h : Safe store contract p w fun a => Q (g a)) :
    Safe store contract (p >>= fun a => pure (g a)) w Q := by
  induction p generalizing w with
  | done result =>
    cases result with
    | error e => trivial
    | ok a => exact h
  | stmt locks writes next ih => exact fun w' hm => ih _ (h w' hm)

/-- The rule of a statement followed by a program. -/
theorem Safe.stmt {α β : Type} {locks : σ → List κ} {writes : σ → List ω}
    {result : σ → Except ε α} {f : α → Prog σ κ ω ε β} {w : World σ κ ω}
    {Q : β → World σ κ ω → Prop}
    (h : ∀ w' a, Moves store contract w w' → result (w'.view store) = .ok a →
      Safe store contract (f a) (w'.after store locks writes) Q) :
    Safe store contract (Prog.execute locks writes result >>= f) w Q := by
  intro w' hm
  cases hr : result (w'.view store) with
  | error e =>
    simp only [hr]
    trivial
  | ok a =>
    simp only [hr]
    exact h w' a hm hr

/-- The rule of a result. -/
theorem Safe.ok {α : Type} {a : α} {w : World σ κ ω} {Q : α → World σ κ ω → Prop}
    (h : ∀ w', Moves store contract w w' → Q a w') :
    Safe store contract (pure a : Prog σ κ ω ε α) w Q := h

theorem Safe.fail {α : Type} {e : ε} {w : World σ κ ω} {Q : α → World σ κ ω → Prop} :
    Safe store contract (Prog.fail e : Prog σ κ ω ε α) w Q := trivial

/-- The rule of a last statement. -/
theorem Safe.execute {α : Type} {locks : σ → List κ} {writes : σ → List ω}
    {result : σ → Except ε α} {w : World σ κ ω} {Q : α → World σ κ ω → Prop}
    (h : ∀ w' a, Moves store contract w w' → result (w'.view store) = .ok a →
      ∀ w'', Moves store contract (w'.after store locks writes) w'' → Q a w'') :
    Safe store contract (Prog.execute locks writes result) w Q := by
  intro w' hm
  cases hr : result (w'.view store) with
  | error e =>
    simp only [hr]
    trivial
  | ok a =>
    simp only [hr]
    exact h w' a hm hr

/-- The rule of a step that does not reach the database. -/
theorem Safe.ofExcept {α β : Type} {result : Except ε α} {f : α → Prog σ κ ω ε β}
    {w : World σ κ ω} {Q : β → World σ κ ω → Prop}
    (h : ∀ a, result = .ok a → Safe store contract (f a) w Q) :
    Safe store contract (Prog.ofExcept result >>= f) w Q := by
  cases result with
  | error e => trivial
  | ok a => exact h a rfl

end

/-! ## Runs -/

section

variable (store : Store σ κ ω π) (contract : Contract σ)
  (Q : χ → ρ → World σ κ ω → Prop)

/-- What holds of an open transaction. -/
structure TxSafe (s : System σ κ ω ε χ ρ) (tx : Tx σ κ ω ε χ ρ) : Prop where
  covered : Covered store (tx.world s.base)
  safe : Safe store contract tx.prog (tx.world s.base) (Q tx.call)
  since : tx.since ≤ s.log.length
  /-- Each statement came after the commits before the beginning. -/
  moments : ∀ m ∈ tx.moments, contract.rely m s.base ∧
    ∀ e ∈ s.log.take tx.since, contract.rely (e.world.view store) m

/-- What holds of a commit. -/
structure EntryFacts (log : List (Entry σ κ ω χ ρ)) (e : Entry σ κ ω χ ρ) : Prop where
  inv : contract.inv e.world.base
  fact : Q e.call e.answer e.world
  moments : ∀ m ∈ e.world.moments, contract.rely m e.world.base ∧
    ∀ e' ∈ log.take e.since, contract.rely (e'.world.view store) m

/-- What holds of every system that a run reaches. -/
structure History (s : System σ κ ω ε χ ρ) : Prop where
  inv : contract.inv s.base
  txs : ∀ tx ∈ s.active, TxSafe store contract Q s tx
  disjoint : s.active.Pairwise fun tx tx' => ∀ l ∈ tx.held, l ∉ tx'.held
  entries : ∀ e ∈ s.log, EntryFacts store contract Q s.log e
  since : ∀ earlier e later, s.log = earlier ++ e :: later → e.since ≤ earlier.length
  order : s.log.Pairwise fun e e' => contract.rely (e.world.view store) e'.world.base
  last : ∀ e ∈ s.log, contract.rely (e.world.view store) s.base

variable {store contract Q}

theorem TxSafe.moves {s s' : System σ κ ω ε χ ρ} {tx : Tx σ κ ω ε χ ρ}
    (h : TxSafe store contract Q s tx)
    (hm : Moves store contract (tx.world s.base) (tx.world s'.base))
    (hlog : s'.log.take tx.since = s.log.take tx.since) (hlen : s.log.length ≤ s'.log.length) :
    TxSafe store contract Q s' tx where
  covered := h.covered.moves hm
  safe := h.safe.moves hm
  since := h.since.trans hlen
  moments m hmem := ⟨contract.trans (h.moments m hmem).1 hm.rely, hlog ▸ (h.moments m hmem).2⟩

theorem TxSafe.begin {program : χ → Prog σ κ ω ε ρ} {s : System σ κ ω ε χ ρ} {call : χ}
    (h : Safe store contract (program call) ⟨s.base, [], [], []⟩ (Q call)) :
    TxSafe store contract Q s (.begin program call s.log.length) where
  covered := by
    intro l hl
    cases hl
  safe := h
  since := Nat.le_refl _
  moments m hm := by cases hm

theorem TxSafe.advance {s s' : System σ κ ω ε χ ρ} {tx : Tx σ κ ω ε χ ρ}
    {locks : σ → List κ} {writes : σ → List ω} {next : σ → Prog σ κ ω ε ρ}
    (hs : History store contract Q s) (h : TxSafe store contract Q s tx)
    (hprog : tx.prog = .stmt locks writes next) (hbase : s'.base = s.base)
    (hlog : s'.log = s.log) :
    TxSafe store contract Q s' (tx.advance store s.base locks writes next) where
  covered := hbase ▸ h.covered.after locks writes
  safe := by
    have hsafe := h.safe
    rw [hprog] at hsafe
    rw [hbase]
    exact hsafe _ (.refl hs.inv)
  since := hlog ▸ h.since
  moments m hm := by
    rw [hbase, hlog]
    rcases List.mem_append.mp hm with hm | hm
    · exact h.moments m hm
    · rw [List.mem_singleton.mp hm]
      exact ⟨contract.refl _, fun e he => hs.last e (List.mem_of_mem_take he)⟩

/-- The locks of the others stay free when a transaction takes the ones it needs. -/
theorem disjoint_advance {before after : List (Tx σ κ ω ε χ ρ)} {tx tx' : Tx σ κ ω ε χ ρ}
    {needs : List κ} (hheld : tx'.held = tx.held ++ needs)
    (h : (before ++ tx :: after).Pairwise fun tx tx' => ∀ l ∈ tx.held, l ∉ tx'.held)
    (hfree : ∀ other ∈ before ++ after, ∀ l ∈ needs, l ∉ other.held) :
    (before ++ tx' :: after).Pairwise fun tx tx' => ∀ l ∈ tx.held, l ∉ tx'.held := by
  rw [List.pairwise_append, List.pairwise_cons] at h ⊢
  obtain ⟨hbefore, ⟨htx, hafter⟩, hcross⟩ := h
  refine ⟨hbefore, ⟨fun other hother l hl => ?_, hafter⟩, fun other hother t ht l hl => ?_⟩
  · rw [hheld] at hl
    rcases List.mem_append.mp hl with hl | hl
    · exact htx other hother l hl
    · exact hfree other (List.mem_append_right _ hother) l hl
  · rcases List.mem_cons.mp ht with rfl | ht
    · rw [hheld, List.mem_append, not_or]
      exact ⟨hcross other hother tx (List.mem_cons_self ..) l hl,
        fun hneed => hfree other (List.mem_append_left _ hother) l hneed hl⟩
    · exact hcross other hother t (List.mem_cons_of_mem _ ht) l hl

/-- The other transactions hold no lock of `tx`. -/
theorem disjoint_of_pairwise {before after : List (Tx σ κ ω ε χ ρ)} {tx other : Tx σ κ ω ε χ ρ}
    (h : (before ++ tx :: after).Pairwise fun tx tx' => ∀ l ∈ tx.held, l ∉ tx'.held)
    (hother : other ∈ before ++ after) {l : κ} (hl : l ∈ other.held) : l ∉ tx.held := by
  rw [List.pairwise_append, List.pairwise_cons] at h
  rcases List.mem_append.mp hother with hother | hother
  · exact h.2.2 other hother tx (List.mem_cons_self ..) l hl
  · exact fun hmem => h.2.1.1 other hother l hmem hl

theorem History.since_le {s : System σ κ ω ε χ ρ} (h : History store contract Q s)
    {e : Entry σ κ ω χ ρ} (he : e ∈ s.log) : e.since ≤ s.log.length := by
  obtain ⟨earlier, later, hsplit⟩ := List.append_of_mem he
  have hle := h.since earlier e later hsplit
  rw [hsplit, List.length_append]
  omega

theorem take_append_singleton {α : Type} {xs : List α} {n : Nat} (h : n ≤ xs.length) (x : α) :
    (xs ++ [x]).take n = xs.take n :=
  List.take_append_of_le_length h

/-- The result of a commit extends the history. -/
theorem History.commit {base : σ} {log : List (Entry σ κ ω χ ρ)}
    {before after : List (Tx σ κ ω ε χ ρ)} {tx : Tx σ κ ω ε χ ρ} {answer : ρ}
    (h : History store contract Q ⟨base, before ++ tx :: after, log⟩)
    (hprog : tx.prog = .done (.ok answer))
    (hQ : ∀ call a w, contract.inv w.base → Q call a w →
      contract.inv (w.view store) ∧ contract.rely w.base (w.view store)) :
    History store contract Q ⟨(tx.world base).view store, before ++ after,
      log ++ [⟨tx.call, answer, tx.since, tx.world base⟩]⟩ := by
  have htx := h.txs tx (List.mem_append_right _ (List.mem_cons_self ..))
  have hfact : Q tx.call answer (tx.world base) := by
    have hsafe := htx.safe
    rw [hprog] at hsafe
    exact hsafe _ (.refl h.inv)
  obtain ⟨hinv, hrely⟩ := hQ _ _ _ h.inv hfact
  refine ⟨hinv, fun other hother => ?_, ?_, fun e he => ?_, fun earlier e later hsplit => ?_, ?_,
    fun e he => ?_⟩
  · have hmem : other ∈ before ++ tx :: after := by
      rw [List.mem_append, List.mem_cons]
      exact (List.mem_append.mp hother).imp_right .inr
    have hsafe := h.txs other hmem
    refine hsafe.moves ⟨rfl, rfl, rfl, hinv, hrely, fun l hl => ?_⟩
      (take_append_singleton hsafe.since _) (by simp)
    exact htx.covered.view_of_not_held (disjoint_of_pairwise h.disjoint hother hl)
  · have hpair := h.disjoint
    rw [List.pairwise_append, List.pairwise_cons] at hpair
    exact List.pairwise_append.mpr ⟨hpair.1, hpair.2.1.2, fun a ha b hb =>
      hpair.2.2 a ha b (List.mem_cons_of_mem _ hb)⟩
  · rcases List.mem_append.mp he with he | he
    · have hold := h.entries e he
      exact ⟨hold.inv, hold.fact, fun m hm => ⟨(hold.moments m hm).1, fun e' he' =>
        (hold.moments m hm).2 e' (take_append_singleton (h.since_le he) _ ▸ he')⟩⟩
    · rw [List.mem_singleton.mp he]
      exact ⟨h.inv, hfact, fun m hm => ⟨(htx.moments m hm).1, fun e' he' =>
        (htx.moments m hm).2 e' (take_append_singleton htx.since _ ▸ he')⟩⟩
  · rcases List.eq_nil_or_concat later with rfl | ⟨later, last, rfl⟩
    · obtain ⟨rfl, hlast⟩ := List.append_inj' hsplit rfl
      cases hlast
      exact htx.since
    · rw [List.concat_eq_append, ← List.cons_append, ← List.append_assoc] at hsplit
      exact h.since earlier e later (List.append_inj' hsplit rfl).1
  · refine List.pairwise_append.mpr ⟨h.order, List.pairwise_singleton _ _, fun e he e' he' => ?_⟩
    rw [List.mem_singleton.mp he']
    exact h.last e he
  · rcases List.mem_append.mp he with he | he
    · exact contract.trans (h.last e he) hrely
    · rw [List.mem_singleton.mp he]
      exact contract.refl _

theorem History.step {program : χ → Prog σ κ ω ε ρ} {s s' : System σ κ ω ε χ ρ}
    (h : History store contract Q s) (hstep : Step store program s s')
    (hprogram : ∀ call base, contract.inv base →
      Safe store contract (program call) ⟨base, [], [], []⟩ (Q call))
    (hQ : ∀ call a w, contract.inv w.base → Q call a w →
      contract.inv (w.view store) ∧ contract.rely w.base (w.view store)) :
    History store contract Q s' := by
  cases hstep with
  | start _ call =>
    refine ⟨h.inv, fun tx htx => ?_, ?_, h.entries, h.since, h.order, h.last⟩
    · rcases List.mem_append.mp htx with htx | htx
      · exact (h.txs tx htx).moves (.refl h.inv) rfl (Nat.le_refl _)
      · rw [List.mem_singleton.mp htx]
        exact TxSafe.begin (hprogram call s.base h.inv)
    · refine List.pairwise_append.mpr ⟨h.disjoint, List.pairwise_singleton _ _,
        fun tx _ tx' htx' l _ hl => ?_⟩
      rw [List.mem_singleton.mp htx'] at hl
      cases hl
  | statement base log before after tx locks writes next hprog hfree =>
    refine ⟨h.inv, fun other hother => ?_, disjoint_advance rfl h.disjoint hfree, h.entries,
      h.since, h.order, h.last⟩
    have hmem : other ∈ before ++ tx :: after ∨ other = tx.advance store base locks writes next := by
      rcases List.mem_append.mp hother with hother | hother
      · exact .inl (List.mem_append_left _ hother)
      · rcases List.mem_cons.mp hother with rfl | hother
        · exact .inr rfl
        · exact .inl (List.mem_append_right _ (List.mem_cons_of_mem _ hother))
    rcases hmem with hmem | rfl
    · exact (h.txs other hmem).moves (.refl h.inv) rfl (Nat.le_refl _)
    · exact TxSafe.advance h (h.txs tx (List.mem_append_right _ (List.mem_cons_self ..))) hprog
        rfl rfl
  | commit base log before after tx answer hprog => exact h.commit hprog hQ
  | rollback base log before after tx =>
    refine ⟨h.inv, fun other hother => ?_, ?_, h.entries, h.since, h.order, h.last⟩
    · have hmem : other ∈ before ++ tx :: after := by
        rw [List.mem_append, List.mem_cons]
        exact (List.mem_append.mp hother).imp_right .inr
      exact (h.txs other hmem).moves (.refl h.inv) rfl (Nat.le_refl _)
    · have hpair := h.disjoint
      rw [List.pairwise_append, List.pairwise_cons] at hpair
      exact List.pairwise_append.mpr ⟨hpair.1, hpair.2.1.2, fun a ha b hb =>
        hpair.2.2 a ha b (List.mem_cons_of_mem _ hb)⟩

/-- **Safe programs keep the contract in every run.** -/
theorem history_of_reachable {program : χ → Prog σ κ ω ε ρ} {base : σ}
    {s : System σ κ ω ε χ ρ} (hbase : contract.inv base)
    (hreach : Reachable store program base s)
    (hprogram : ∀ call base, contract.inv base →
      Safe store contract (program call) ⟨base, [], [], []⟩ (Q call))
    (hQ : ∀ call a w, contract.inv w.base → Q call a w →
      contract.inv (w.view store) ∧ contract.rely w.base (w.view store)) :
    History store contract Q s := by
  induction hreach with
  | refl =>
    refine ⟨hbase, ?_, List.Pairwise.nil, ?_, ?_, List.Pairwise.nil, ?_⟩
    · intro tx htx
      cases htx
    · intro e he
      cases he
    · intro earlier e later hsplit
      simp [System.start] at hsplit
    · intro e he
      cases he
  | tail _ hstep ih => exact ih.step hstep hprogram hQ

end

-- what is left of a proof goes by the rules
attribute [irreducible] Safe

/-! ## Commits of a run -/

section

variable {store : Store σ κ ω π} {program : χ → Prog σ κ ω ε ρ} {base : σ}
  {s s' : System σ κ ω ε χ ρ}

/-- The database after commits. -/
def committed (store : Store σ κ ω π) (base : σ) (log : List (Entry σ κ ω χ ρ)) : σ :=
  log.foldl (fun _ e => e.world.view store) base

theorem committed_concat (base : σ) (log : List (Entry σ κ ω χ ρ)) (e : Entry σ κ ω χ ρ) :
    committed store base (log ++ [e]) = e.world.view store := by
  rw [committed, List.foldl_append]
  rfl

/-- **Only commits change the database**: it is what the last commit left, and each commit found
what the one before it had left. -/
theorem commits_of_reachable (hreach : Reachable store program base s) :
    s.base = committed store base s.log ∧
      ∀ earlier e later, s.log = earlier ++ e :: later →
        e.world.base = committed store base earlier := by
  induction hreach with
  | refl =>
    refine ⟨rfl, fun earlier e later hsplit => ?_⟩
    simp [System.start] at hsplit
  | tail _ hstep ih =>
    cases hstep with
    | start | statement | rollback => exact ih
    | commit base' log before after tx answer hprog =>
      refine ⟨?_, fun earlier e later hsplit => ?_⟩
      · show (tx.world base').view store = committed store base (log ++ [_])
        rw [committed_concat]
      rcases List.eq_nil_or_concat later with rfl | ⟨later, last, rfl⟩
      · obtain ⟨rfl, hlast⟩ := List.append_inj' hsplit rfl
        cases hlast
        exact ih.1
      · rw [List.concat_eq_append, ← List.cons_append, ← List.append_assoc] at hsplit
        exact ih.2 earlier e later (List.append_inj' hsplit rfl).1

end

/-! ## Writes of a run -/

section

variable {store : Store σ κ ω π} {program : χ → Prog σ κ ω ε ρ} {base : σ}
  {s s' : System σ κ ω ε χ ρ} {P : χ → ω → Prop}

/-- What the writes of the transactions satisfy. -/
structure Emitted (P : χ → ω → Prop) (s : System σ κ ω ε χ ρ) : Prop where
  txs : ∀ tx ∈ s.active, (∀ w ∈ tx.pending, P tx.call w) ∧ Emits (P tx.call) tx.prog
  entries : ∀ e ∈ s.log, ∀ w ∈ e.world.pending, P e.call w

theorem Emitted.step (h : Emitted P s) (hstep : Step store program s s')
    (hprogram : ∀ call, Emits (P call) (program call)) : Emitted P s' := by
  cases hstep with
  | start _ call =>
    refine ⟨fun tx htx => ?_, h.entries⟩
    rcases List.mem_append.mp htx with htx | htx
    · exact h.txs tx htx
    · rw [List.mem_singleton.mp htx]
      exact ⟨fun _ hw => (List.not_mem_nil hw).elim, hprogram call⟩
  | statement base log before after tx locks writes next hprog hfree =>
    refine ⟨fun other hother => ?_, h.entries⟩
    rcases List.mem_append.mp hother with hother | hother
    · exact h.txs other (List.mem_append_left _ hother)
    · rcases List.mem_cons.mp hother with rfl | hother
      · obtain ⟨hpending, hemits⟩ := h.txs tx (List.mem_append_right _ (List.mem_cons_self ..))
        rw [hprog] at hemits
        cases hemits with
        | stmt hwrites hnext =>
          exact ⟨fun w hw => (List.mem_append.mp hw).elim (hpending w) (hwrites _ w), hnext _⟩
      · exact h.txs other (List.mem_append_right _ (List.mem_cons_of_mem _ hother))
  | commit base log before after tx answer hprog =>
    refine ⟨fun other hother => ?_, fun e he => ?_⟩
    · rw [List.mem_append] at hother
      exact h.txs other (List.mem_append.mpr (hother.imp_right (List.mem_cons_of_mem _)))
    · rcases List.mem_append.mp he with he | he
      · exact h.entries e he
      · rw [List.mem_singleton.mp he]
        exact (h.txs tx (List.mem_append_right _ (List.mem_cons_self ..))).1
  | rollback base log before after tx =>
    refine ⟨fun other hother => ?_, h.entries⟩
    rw [List.mem_append] at hother
    exact h.txs other (List.mem_append.mpr (hother.imp_right (List.mem_cons_of_mem _)))

theorem emitted_of_reachable (hprogram : ∀ call, Emits (P call) (program call))
    (hreach : Reachable store program base s) : Emitted P s := by
  induction hreach with
  | refl =>
    refine ⟨fun tx htx => ?_, fun e he => ?_⟩
    · cases htx
    · cases he
  | tail _ hstep ih => exact ih.step hstep hprogram

end

/-! ## Schedules -/

/-- A choice of the scheduler; transactions are named by their place among the open ones. -/
inductive Choice (χ : Type) where
  | start (call : χ)
  | statement (place : Nat)
  | commit (place : Nat)
  | rollback (place : Nat)

theorem active_split {s : System σ κ ω ε χ ρ} {place : Nat}
    {tx : Tx σ κ ω ε χ ρ} (h : s.active[place]? = some tx) :
    s = ⟨s.base, s.active.take place ++ tx :: s.active.drop (place + 1), s.log⟩ := by
  obtain ⟨hlt, hget⟩ := List.getElem?_eq_some_iff.mp h
  have hsplit : s.active.take place ++ tx :: s.active.drop (place + 1) = s.active := by
    rw [← hget, ← List.drop_eq_getElem_cons hlt, List.take_append_drop]
  rw [hsplit]

section

variable [DecidableEq κ] (store : Store σ κ ω π) (program : χ → Prog σ κ ω ε ρ)

/-- The open transactions but one. -/
def System.others (s : System σ κ ω ε χ ρ) (place : Nat) : List (Tx σ κ ω ε χ ρ) :=
  s.active.take place ++ s.active.drop (place + 1)

/-- The next statement of a transaction, if its locks are free. -/
def System.statement (s : System σ κ ω ε χ ρ) (place : Nat) (tx : Tx σ κ ω ε χ ρ) :
    Prog σ κ ω ε ρ → Option (System σ κ ω ε χ ρ)
  | .stmt locks writes next =>
    if (s.others place).all fun other => ((tx.world s.base).needs store locks writes).all fun l =>
        !other.held.contains l then
      some
        { s with
          active := s.active.take place ++
            tx.advance store s.base locks writes next :: s.active.drop (place + 1) }
    else none
  | .done _ => none

def System.commit (s : System σ κ ω ε χ ρ) (place : Nat) (tx : Tx σ κ ω ε χ ρ) :
    Prog σ κ ω ε ρ → Option (System σ κ ω ε χ ρ)
  | .done (.ok answer) => some ⟨(tx.world s.base).view store, s.others place,
      s.log ++ [⟨tx.call, answer, tx.since, tx.world s.base⟩]⟩
  | _ => none

/-- The system after a choice, if it is possible. -/
def System.act (s : System σ κ ω ε χ ρ) : Choice χ → Option (System σ κ ω ε χ ρ)
  | .start call => some { s with active := s.active ++ [.begin program call s.log.length] }
  | .statement place => s.active[place]?.bind fun tx => s.statement store place tx tx.prog
  | .commit place => s.active[place]?.bind fun tx => s.commit store place tx tx.prog
  | .rollback place => s.active[place]?.map fun _ => { s with active := s.others place }

def System.schedule (s : System σ κ ω ε χ ρ) :
    List (Choice χ) → Option (System σ κ ω ε χ ρ)
  | [] => some s
  | choice :: choices => (s.act store program choice).bind (System.schedule · choices)

variable {store program} {s s' : System σ κ ω ε χ ρ}

theorem step_of_act {choice : Choice χ} (h : s.act store program choice = some s') :
    Step store program s s' := by
  cases choice with
  | start call =>
    cases h
    exact .start s call
  | statement place =>
    obtain ⟨tx, htx, hact⟩ := Option.bind_eq_some_iff.mp h
    cases hprog : tx.prog with
    | done result =>
      rw [hprog] at hact
      cases hact
    | stmt locks writes next =>
      rw [hprog, System.statement] at hact
      split at hact
      · rename_i hfree
        cases hact
        have hstep : Step store program
            ⟨s.base, s.active.take place ++ tx :: s.active.drop (place + 1), s.log⟩
            ⟨s.base, s.active.take place ++
              tx.advance store s.base locks writes next :: s.active.drop (place + 1), s.log⟩ := by
          refine .statement _ _ _ _ tx locks writes next hprog fun other hother l hl hheld => ?_
          have hall := List.all_eq_true.mp (List.all_eq_true.mp hfree other hother) l hl
          simp [hheld] at hall
        rwa [← active_split htx] at hstep
      · cases hact
  | commit place =>
    obtain ⟨tx, htx, hact⟩ := Option.bind_eq_some_iff.mp h
    cases hprog : tx.prog with
    | stmt locks writes next =>
      rw [hprog] at hact
      cases hact
    | done result =>
      cases result with
      | error e =>
        rw [hprog] at hact
        cases hact
      | ok answer =>
        rw [hprog] at hact
        cases hact
        have hstep : Step store program
            ⟨s.base, s.active.take place ++ tx :: s.active.drop (place + 1), s.log⟩
            ⟨(tx.world s.base).view store, s.others place,
              s.log ++ [⟨tx.call, answer, tx.since, tx.world s.base⟩]⟩ :=
          .commit _ _ _ _ tx answer hprog
        rwa [← active_split htx] at hstep
  | rollback place =>
    obtain ⟨tx, htx, hact⟩ := Option.map_eq_some_iff.mp h
    cases hact
    have hstep : Step store program
        ⟨s.base, s.active.take place ++ tx :: s.active.drop (place + 1), s.log⟩
        ⟨s.base, s.others place, s.log⟩ := .rollback _ _ _ _ tx
    rwa [← active_split htx] at hstep

/-- **A schedule is a run.** -/
theorem reachable_of_schedule {base : σ} {choices : List (Choice χ)}
    (h : (System.start base).schedule store program choices = some s) :
    Reachable store program base s := by
  suffices hrun : ∀ t : System σ κ ω ε χ ρ, t.schedule store program choices = some s →
      Relation.ReflTransGen (Step store program) t s from hrun _ h
  intro t ht
  clear h
  induction choices generalizing t with
  | nil =>
    cases ht
    exact .refl
  | cons choice choices ih =>
    obtain ⟨next, hact, hrest⟩ := Option.bind_eq_some_iff.mp ht
    exact .head (step_of_act hact) (ih next hrest)

end

end Interleaving
