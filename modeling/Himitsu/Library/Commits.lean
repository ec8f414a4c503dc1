import Himitsu.Library.Traces

/-!
# Commits one after another

The committed databases of a run are those after `n` commits, for each `n`.

* `databaseAfter` — the database after some of the commits.
* `contract_of_commits` — what every commit keeps holds of each of these databases and from each to
  the later ones.
* `Timed`, `timed_of_reachable` — the statements of a transaction found committed databases, in this
  order, and none from before it began.
* `Observed`, `observed_of_reachable` — the same, with the way through the program.
* `AtEach` — each statement of every way through a program satisfies a condition.
-/

set_option autoImplicit false

namespace Transactions

variable {σ κ ω ε α β : Type}

/-- The writes of a way are those of its statements. -/
theorem Does.writes {p : Prog σ κ ω ε α} {stmts : List (Statement σ κ ω)} {ws : List ω} {a : α}
    (h : Does p stmts ws a) : ws = stmts.flatMap (·.writes) := by
  induction h with
  | done => rfl
  | stmt s _ ih => rw [List.flatMap_cons, ih]

/-- Each statement of every way satisfies `P`. -/
def AtEach (P : Statement σ κ ω → Prop) (p : Prog σ κ ω ε α) : Prop :=
  ∀ stmts ws a, Does p stmts ws a → ∀ x ∈ stmts, P x

theorem Emits.atEach {P : ω → Prop} {p : Prog σ κ ω ε α} (h : Emits P p) :
    AtEach (fun x => ∀ w ∈ x.writes, P w) p := by
  intro stmts ws a hdoes x hx w hw
  refine h.does hdoes w ?_
  rw [hdoes.writes]
  exact List.mem_flatMap.mpr ⟨x, hx, hw⟩

theorem AtEach.bind {P : Statement σ κ ω → Prop} {p : Prog σ κ ω ε α} {f : α → Prog σ κ ω ε β}
    (hp : AtEach P p) (hf : ∀ a, AtEach P (f a)) : AtEach P (p >>= f) := by
  intro stmts ws b h x hx
  obtain ⟨a, _, _, _, _, hdoes, hnext, rfl, rfl⟩ := does_bind.mp h
  rcases List.mem_append.mp hx with hx | hx
  · exact hp _ _ _ hdoes x hx
  · exact hf a _ _ _ hnext x hx

theorem AtEach.mapError {P : Statement σ κ ω → Prop} {f : ε → ε} {p : Prog σ κ ω ε α}
    (h : AtEach P p) : AtEach P (p.mapError f) :=
  fun stmts ws a hdoes => h stmts ws a (does_mapError.mp hdoes)

theorem AtEach.ite {P : Statement σ κ ω → Prop} {c : Prop} [Decidable c] {p q : Prog σ κ ω ε α}
    (hp : AtEach P p) (hq : AtEach P q) : AtEach P (if c then p else q) := by
  split
  · exact hp
  · exact hq

theorem atEach_execute {P : Statement σ κ ω → Prop} {locks : σ → List κ} {writes : σ → List ω}
    {result : σ → Except ε α} (h : ∀ s a, result s = .ok a → P ⟨s, locks s, writes s⟩) :
    AtEach P (Prog.execute locks writes result) := by
  intro stmts ws a hdoes x hx
  obtain ⟨s, rfl, -, hresult⟩ := does_execute.mp hdoes
  rw [List.mem_singleton.mp hx]
  exact h s a hresult

/-- The answers of a loop are those of its turns. -/
theorem does_forEach_answers {f : Nat → β → Prog σ κ ω ε α} {bs : List β} {n : Nat}
    {stmts : List (Statement σ κ ω)} {ws : List ω} {as : List α}
    (h : Does (Prog.forEach f n bs) stmts ws as) :
    List.Forall₂ (fun b a => ∃ m turn written, Does (f m b) turn written a ∧
      ∀ x ∈ turn, x ∈ stmts) bs as := by
  induction bs generalizing n stmts ws as with
  | nil =>
    obtain ⟨-, -, rfl⟩ := does_ok.mp h
    exact .nil
  | cons b bs ih =>
    obtain ⟨a, stmts₁, _, _, _, hturn, h₁, rfl, rfl⟩ := does_bind.mp h
    obtain ⟨rest, _, _, _, _, hrest, h₂, rfl, rfl⟩ := does_bind.mp h₁
    obtain ⟨rfl, rfl, rfl⟩ := does_ok.mp h₂
    refine .cons ⟨n, _, _, hturn, fun x hx => List.mem_append_left _ hx⟩ ((ih hrest).imp ?_)
    rintro b a ⟨m, turn, written, hdoes, hsub⟩
    exact ⟨m, turn, written, hdoes, fun x hx =>
      List.mem_append_right _ (List.mem_append_left _ (hsub x hx))⟩

end Transactions

namespace Interleaving

open Transactions RelatedLists

variable {σ κ ω π ε χ ρ : Type} {store : Store σ κ ω π} {program : χ → Prog σ κ ω ε ρ} {base : σ}
  {s s' : System σ κ ω ε χ ρ}

/-! ## The databases of a run -/

/-- The database after the first `n` commits. -/
def databaseAfter (store : Store σ κ ω π) (base : σ) (log : List (Entry σ κ ω χ ρ)) (n : Nat) : σ :=
  committed store base (log.take n)

theorem databaseAfter_length (hreach : Reachable store program base s) :
    databaseAfter store base s.log s.log.length = s.base := by
  rw [databaseAfter, List.take_length, (commits_of_reachable hreach).1]

theorem databaseAfter_append {log more : List (Entry σ κ ω χ ρ)} {n : Nat} (h : n ≤ log.length) :
    databaseAfter store base (log ++ more) n = databaseAfter store base log n := by
  rw [databaseAfter, List.take_append_of_le_length h, databaseAfter]

/-- A commit takes the database from the one before it to the one after it. -/
theorem databaseAfter_of_commit (hreach : Reachable store program base s) {n : Nat}
    {e : Entry σ κ ω χ ρ} (he : s.log[n]? = some e) :
    databaseAfter store base s.log n = e.world.base ∧
      databaseAfter store base s.log (n + 1) = e.world.view store := by
  obtain ⟨hlt, hget⟩ := List.getElem?_eq_some_iff.mp he
  have htake : s.log.take (n + 1) = s.log.take n ++ [e] := by
    rw [List.take_add_one, he]
    rfl
  have hsplit : s.log = s.log.take n ++ e :: s.log.drop (n + 1) := by
    rw [← hget, ← List.drop_eq_getElem_cons hlt, List.take_append_drop]
  refine ⟨((commits_of_reachable hreach).2 _ _ _ hsplit).symm, ?_⟩
  rw [databaseAfter, htake, committed_concat]

/-- **What every commit keeps.** -/
theorem contract_of_commits (contract : Contract σ) (hreach : Reachable store program base s)
    (hbase : contract.inv base)
    (hcommit : ∀ e stmts, Ran store program e stmts → contract.inv e.world.base →
      contract.inv (e.world.view store) ∧ contract.rely e.world.base (e.world.view store)) (n : Nat) :
    contract.inv (databaseAfter store base s.log n) ∧
      ∀ m, m ≤ n → contract.rely (databaseAfter store base s.log m)
        (databaseAfter store base s.log n) := by
  induction n with
  | zero =>
    refine ⟨hbase, fun m hm => ?_⟩
    rw [Nat.le_zero.mp hm]
    exact contract.refl _
  | succ n ih =>
    obtain ⟨hinv, hrely⟩ := ih
    cases he : s.log[n]? with
    | none =>
      have hlen := List.getElem?_eq_none_iff.mp he
      have hsame : databaseAfter store base s.log (n + 1) = databaseAfter store base s.log n := by
        rw [databaseAfter, databaseAfter, List.take_of_length_le hlen,
          List.take_of_length_le (Nat.le_succ_of_le hlen)]
      rw [hsame]
      refine ⟨hinv, fun m hm => ?_⟩
      rcases Nat.le_succ_iff.mp hm with hm | rfl
      · exact hrely m hm
      · rw [hsame]
        exact contract.refl _
    | some e =>
      obtain ⟨hbefore, hafter⟩ := databaseAfter_of_commit hreach he
      obtain ⟨stmts, hran⟩ := (serial_of_reachable hreach).log e (List.mem_of_getElem? he)
      obtain ⟨hnext, hstep⟩ := hcommit e stmts hran (hbefore ▸ hinv)
      rw [← hafter] at hnext hstep
      rw [← hbefore] at hstep
      refine ⟨hnext, fun m hm => ?_⟩
      rcases Nat.le_succ_iff.mp hm with hm | rfl
      · exact contract.trans (hrely m hm) hstep
      · exact contract.refl _

/-! ## The moments of a transaction -/

/-- The moments are those after the commits of these numbers. -/
structure Timed (store : Store σ κ ω π) (base : σ) (log : List (Entry σ κ ω χ ρ)) (since : Nat)
    (moments : List σ) (times : List Nat) : Prop where
  found : moments = times.map (databaseAfter store base log)
  bounds : ∀ n ∈ times, since ≤ n ∧ n ≤ log.length
  order : times.Pairwise (· ≤ ·)
  began : since ≤ log.length

theorem Timed.append {log : List (Entry σ κ ω χ ρ)} {since : Nat} {moments : List σ}
    {times : List Nat} (h : Timed store base log since moments times)
    (more : List (Entry σ κ ω χ ρ)) : Timed store base (log ++ more) since moments times where
  found := by
    rw [h.found]
    refine List.map_congr_left fun n hn => (databaseAfter_append (h.bounds n hn).2).symm
  bounds n hn := by
    have hle := h.bounds n hn
    rw [List.length_append]
    exact ⟨hle.1, Nat.le_add_right_of_le hle.2⟩
  order := h.order
  began := by
    rw [List.length_append]
    exact Nat.le_add_right_of_le h.began

/-- A statement finds what is committed at that time. -/
theorem Timed.statement {log : List (Entry σ κ ω χ ρ)} {since : Nat} {moments : List σ}
    {times : List Nat} (h : Timed store base log since moments times) :
    Timed store base log since (moments ++ [databaseAfter store base log log.length])
      (times ++ [log.length]) where
  found := by
    rw [h.found, List.map_append]
    rfl
  bounds n hn := by
    rcases List.mem_append.mp hn with hn | hn
    · exact h.bounds n hn
    · rw [List.mem_singleton.mp hn]
      exact ⟨h.began, Nat.le_refl _⟩
  order := by
    refine List.pairwise_append.mpr ⟨h.order, List.pairwise_singleton _ _, fun n hn m hm => ?_⟩
    rw [List.mem_singleton.mp hm]
    exact (h.bounds n hn).2
  began := h.began

/-- What holds of every system that a run reaches. -/
structure InOrder (store : Store σ κ ω π) (base : σ) (s : System σ κ ω ε χ ρ) : Prop where
  active : ∀ tx ∈ s.active, ∃ times, Timed store base s.log tx.since tx.moments times
  log : ∀ earlier e later, s.log = earlier ++ e :: later →
    ∃ times, Timed store base earlier e.since e.world.moments times

theorem InOrder.step (h : InOrder store base s) (hreach : Reachable store program base s)
    (hstep : Step store program s s') : InOrder store base s' := by
  have hlast := databaseAfter_length hreach
  cases hstep with
  | start _ call =>
    refine ⟨fun tx htx => ?_, h.log⟩
    rcases List.mem_append.mp htx with htx | htx
    · exact h.active tx htx
    · rw [List.mem_singleton.mp htx]
      exact ⟨[], rfl, nofun, .nil, Nat.le_refl _⟩
  | statement base' log before after tx locks writes next hprog hfree =>
    refine ⟨fun other hother => ?_, h.log⟩
    rcases List.mem_append.mp hother with hother | hother
    · exact h.active other (List.mem_append_left _ hother)
    · rcases List.mem_cons.mp hother with rfl | hother
      · obtain ⟨times, htimes⟩ := h.active tx (List.mem_append_right _ (List.mem_cons_self ..))
        have hnext := htimes.statement
        rw [hlast] at hnext
        exact ⟨_, hnext⟩
      · exact h.active other (List.mem_append_right _ (List.mem_cons_of_mem _ hother))
  | commit base' log before after tx answer hprog =>
    refine ⟨fun other hother => ?_, fun earlier e later hsplit => ?_⟩
    · have hmem : other ∈ before ++ tx :: after := by
        rw [List.mem_append, List.mem_cons]
        exact (List.mem_append.mp hother).imp_right .inr
      obtain ⟨times, htimes⟩ := h.active other hmem
      exact ⟨times, htimes.append _⟩
    · rcases List.eq_nil_or_concat later with rfl | ⟨later, last, rfl⟩
      · obtain ⟨rfl, hentry⟩ := List.append_inj' hsplit rfl
        cases hentry
        exact h.active tx (List.mem_append_right _ (List.mem_cons_self ..))
      · rw [List.concat_eq_append, ← List.cons_append, ← List.append_assoc] at hsplit
        exact h.log earlier e later (List.append_inj' hsplit rfl).1
  | rollback base' log before after tx =>
    refine ⟨fun other hother => ?_, h.log⟩
    refine h.active other ?_
    rw [List.mem_append, List.mem_cons]
    exact (List.mem_append.mp hother).imp_right .inr

/-- **The statements of a commit found databases of the run, in order**, from when it began to when
it committed. -/
theorem timed_of_reachable (hreach : Reachable store program base s)
    {earlier later : List (Entry σ κ ω χ ρ)} {e : Entry σ κ ω χ ρ}
    (hsplit : s.log = earlier ++ e :: later) :
    ∃ times, Timed store base s.log e.since e.world.moments times ∧
      ∀ n ∈ times, n ≤ earlier.length := by
  have hinOrder : InOrder store base s := by
    clear hsplit
    induction hreach with
    | refl =>
      refine ⟨fun tx htx => ?_, fun earlier e later hsplit => ?_⟩
      · cases htx
      · simp [System.start] at hsplit
    | tail hreach hstep ih => exact ih.step hreach hstep
  obtain ⟨times, htimes⟩ := hinOrder.log earlier e later hsplit
  rw [hsplit]
  exact ⟨times, htimes.append _, fun n hn => (htimes.bounds n hn).2⟩

/-- What the statements of a commit found of what its own writes leave: it was committed after `n`
commits of the run, of which none is later than the commit. -/
structure Observed {τ : Type} (store : Store σ κ ω π) (f : σ → τ) (base : σ)
    (log : List (Entry σ κ ω χ ρ)) (e : Entry σ κ ω χ ρ) (last : Nat)
    (stmts : List (Statement σ κ ω)) (times : List Nat) : Prop where
  views : List.Forall₂ (fun x n => f x.view = f (databaseAfter store base log n)) stmts times
  moments : e.world.moments = times.map (databaseAfter store base log)
  order : times.Pairwise (· ≤ ·)
  bounds : ∀ n ∈ times, e.since ≤ n ∧ n ≤ last

/-- **A commit is a way through its program whose statements found databases of the run.** -/
theorem observed_of_reachable {τ : Type} {f : σ → τ} (hreach : Reachable store program base s)
    {i : Nat} {e : Entry σ κ ω χ ρ} (he : s.log[i]? = some e) :
    ∃ stmts, Does (program e.call) stmts e.world.pending e.answer ∧
      ((∀ w ∈ e.world.pending, ∀ db, f (store.apply w db) = f db) →
        ∃ times, Observed store f base s.log e i stmts times) := by
  obtain ⟨hlt, hget⟩ := List.getElem?_eq_some_iff.mp he
  have hsplit : s.log = s.log.take i ++ e :: s.log.drop (i + 1) := by
    rw [← hget, ← List.drop_eq_getElem_cons hlt, List.take_append_drop]
  obtain ⟨stmts, hran⟩ := (serial_of_reachable hreach).log e (List.mem_of_getElem? he)
  obtain ⟨times, htimed, hlast⟩ := timed_of_reachable hreach hsplit
  refine ⟨stmts, hran.does, fun hleaves => ⟨times, ?_, htimed.found, htimed.order, fun n hn => ?_⟩⟩
  · have hfinds := hran.finds
    rw [htimed.found, List.forall₂_map_right_iff] at hfinds
    exact hfinds.imp fun _ _ hfound => hfound.keeps hleaves
  · rw [List.length_take_of_le hlt.le] at hlast
    exact ⟨(htimed.bounds n hn).1, hlast n hn⟩

/-- Every statement has its time, and none comes before that of the first. -/
theorem Observed.after_first {τ : Type} {f : σ → τ} {log : List (Entry σ κ ω χ ρ)}
    {e : Entry σ κ ω χ ρ} {last : Nat} {x : Statement σ κ ω} {rest : List (Statement σ κ ω)}
    {times : List Nat} (h : Observed store f base log e last (x :: rest) times) :
    ∃ n, e.world.moments.head? = some (databaseAfter store base log n) ∧
      f x.view = f (databaseAfter store base log n) ∧ e.since ≤ n ∧ n ≤ last ∧
      ∀ y ∈ rest, ∃ m, f y.view = f (databaseAfter store base log m) ∧ n ≤ m ∧ m ≤ last := by
  obtain ⟨hviews, hmoments, horder, hbounds⟩ := h
  cases hviews with
  | @cons _ n _ ns hx hrest =>
    have hfirst := hbounds n (List.mem_cons_self ..)
    refine ⟨n, by rw [hmoments]; rfl, hx, hfirst.1, hfirst.2, fun y hy => ?_⟩
    obtain ⟨k, hk, rfl⟩ := List.mem_iff_getElem.mp hy
    obtain ⟨m, hm, hview⟩ := getElem?_of_forall₂ hrest (List.getElem?_eq_getElem hk)
    have hmem := List.mem_of_getElem? hm
    exact ⟨m, hview, (List.pairwise_cons.mp horder).1 m hmem,
      (hbounds m (List.mem_cons_of_mem _ hmem)).2⟩

end Interleaving
