import Mathlib.Data.List.TakeWhile

/-!
# Scripts

A script does effects of type `τ` one after the other, draws random values, and returns an `α` or
fails with an `ε`; what it did before it failed is done. The random values are numbered, and a
script is a function of the number of the next one.

* `Outcome` — how a script ended, its effects in order, and the number of the next random value.
* `Script` — a monad; `emit`, `fail`, `ofExcept`, `draw` and `forEach` build scripts.
* `guarded` — a script that draws a value, and does one effect unless a check refuses it.
* `accepted` — the items of a list that such scripts get to, each with its number.
* `loops` — two loops of such scripts, one after the other.

Principal results: `forEach_emit`, `forEach_guarded_effects` and `forEach_guarded_result` — what a
loop over a list does; `loops_result`, `loops_effects`.
-/

set_option autoImplicit false

structure Outcome (τ ε α : Type) where
  result : Except ε α
  effects : List τ
  next : Nat

def Script (τ ε α : Type) : Type := Nat → Outcome τ ε α

namespace Script

variable {τ ε α β : Type}

def bind (p : Script τ ε α) (f : α → Script τ ε β) : Script τ ε β := fun n =>
  match (p n).result with
  | .ok a => ⟨(f a (p n).next).result, (p n).effects ++ (f a (p n).next).effects,
      (f a (p n).next).next⟩
  | .error e => ⟨.error e, (p n).effects, (p n).next⟩

instance : Monad (Script τ ε) where
  pure a := fun n => ⟨.ok a, [], n⟩
  bind := Script.bind

/-- One effect. -/
def emit (effect : τ) : Script τ ε Unit := fun n => ⟨.ok (), [effect], n⟩

def fail (e : ε) : Script τ ε α := fun n => ⟨.error e, [], n⟩

def ofExcept (result : Except ε α) : Script τ ε α := fun n => ⟨result, [], n⟩

/-- The number of a new random value. -/
def draw : Script τ ε Nat := fun n => ⟨.ok n, [], n + 1⟩

/-- A script for each item in turn. -/
def forEach (f : β → Script τ ε Unit) : List β → Script τ ε Unit
  | [] => pure ()
  | b :: bs => do
    f b
    forEach f bs

/-! ## Outcomes -/

@[simp] theorem pure_apply (a : α) (n : Nat) : (pure a : Script τ ε α) n = ⟨.ok a, [], n⟩ := rfl

@[simp] theorem emit_apply (effect : τ) (n : Nat) :
    (emit effect : Script τ ε Unit) n = ⟨.ok (), [effect], n⟩ := rfl

@[simp] theorem fail_apply (e : ε) (n : Nat) : (fail e : Script τ ε α) n = ⟨.error e, [], n⟩ := rfl

@[simp] theorem draw_apply (n : Nat) : (draw : Script τ ε Nat) n = ⟨.ok n, [], n + 1⟩ := rfl

@[simp] theorem ofExcept_ok (a : α) : (ofExcept (.ok a) : Script τ ε α) = pure a := rfl

@[simp] theorem ofExcept_error (e : ε) : (ofExcept (.error e) : Script τ ε α) = fail e := rfl

/-- What runs after a script that returned. -/
theorem bind_of_ok {p : Script τ ε α} {f : α → Script τ ε β} {n m : Nat} {a : α}
    {effects : List τ} (h : p n = ⟨.ok a, effects, m⟩) :
    (p >>= f) n = ⟨(f a m).result, effects ++ (f a m).effects, (f a m).next⟩ := by
  show Script.bind p f n = _
  simp only [Script.bind, h]

theorem bind_of_error {p : Script τ ε α} {f : α → Script τ ε β} {n m : Nat} {e : ε}
    {effects : List τ} (h : p n = ⟨.error e, effects, m⟩) :
    (p >>= f) n = ⟨.error e, effects, m⟩ := by
  show Script.bind p f n = _
  simp only [Script.bind, h]

@[simp] theorem pure_bind (a : α) (f : α → Script τ ε β) : (pure a >>= f) = f a := rfl

@[simp] theorem fail_bind (e : ε) (f : α → Script τ ε β) :
    ((fail e : Script τ ε α) >>= f) = fail e := rfl

theorem bind_assoc {γ : Type} (p : Script τ ε α) (f : α → Script τ ε β) (g : β → Script τ ε γ) :
    (p >>= f) >>= g = p >>= fun a => f a >>= g := by
  funext n
  show Script.bind (Script.bind p f) g n = Script.bind p (fun a => Script.bind (f a) g) n
  unfold Script.bind
  cases (p n).result with
  | error e => rfl
  | ok a =>
    simp only
    cases (f a (p n).next).result with
    | error e => rfl
    | ok b => simp only [List.append_assoc]

/-- **A loop of single effects.** -/
theorem forEach_emit (g : β → τ) (bs : List β) (n : Nat) :
    forEach (fun b => (emit (g b) : Script τ ε Unit)) bs n = ⟨.ok (), bs.map g, n⟩ := by
  induction bs with
  | nil => rfl
  | cons b bs ih =>
    rw [forEach, bind_of_ok (emit_apply (g b) n), ih]
    rfl

/-- A loop that passes over some of the items. -/
theorem forEach_filter (p : β → Bool) (f : β → Script τ ε Unit) (bs : List β) :
    forEach (fun b => if p b then f b else pure ()) bs = forEach f (bs.filter p) := by
  induction bs with
  | nil => rfl
  | cons b bs ih =>
    cases hb : p b with
    | true => rw [List.filter_cons_of_pos hb, forEach, forEach, ih, hb, if_pos rfl]
    | false =>
      rw [List.filter_cons_of_neg (by simp [hb]), forEach, ih, hb, if_neg Bool.false_ne_true,
        pure_bind]

/-- A loop of single effects for some of the items. -/
theorem forEach_emit_filter (p : β → Bool) (g : β → τ) (bs : List β) (n : Nat) :
    forEach (fun b => if p b then (emit (g b) : Script τ ε Unit) else pure ()) bs n =
      ⟨.ok (), (bs.filter p).map g, n⟩ := by
  rw [forEach_filter, forEach_emit]

/-! ## Guarded effects -/

/-- A random value is drawn, and the effect is done unless the check refuses it. -/
def guarded (check : Nat → β → Option ε) (effect : Nat → β → τ) (b : β) : Script τ ε Unit := do
  let i ← draw
  match check i b with
  | some e => fail e
  | none => emit (effect i b)

/-- The items whose effects are done, with the numbers of their random values. -/
def accepted (check : Nat → β → Option ε) (n : Nat) (bs : List β) : List (β × Nat) :=
  (bs.zipIdx n).takeWhile fun item => (check item.2 item.1).isNone

theorem guarded_apply (check : Nat → β → Option ε) (effect : Nat → β → τ) (b : β) (n : Nat) :
    guarded check effect b n =
      match check n b with
      | some e => ⟨.error e, [], n + 1⟩
      | none => ⟨.ok (), [effect n b], n + 1⟩ := by
  rw [guarded, bind_of_ok (draw_apply n)]
  cases check n b <;> rfl

/-- **What a loop of guarded effects does.** -/
theorem forEach_guarded_effects (check : Nat → β → Option ε) (effect : Nat → β → τ)
    (bs : List β) (n : Nat) :
    (forEach (guarded check effect) bs n).effects =
      (accepted check n bs).map fun item => effect item.2 item.1 := by
  induction bs generalizing n with
  | nil => rfl
  | cons b bs ih =>
    have hguarded := guarded_apply check effect b n
    rw [accepted, List.zipIdx_cons, List.takeWhile_cons]
    cases hcheck : check n b with
    | some e =>
      rw [hcheck] at hguarded
      rw [forEach, bind_of_error hguarded]
      rfl
    | none =>
      rw [hcheck] at hguarded
      rw [forEach, bind_of_ok hguarded, ih (n + 1)]
      rfl

/-- **A loop of guarded effects returns when no check refuses.** -/
theorem forEach_guarded_result (check : Nat → β → Option ε) (effect : Nat → β → τ)
    (bs : List β) (n : Nat) :
    (forEach (guarded check effect) bs n).result = .ok () ↔
      ∀ item ∈ bs.zipIdx n, check item.2 item.1 = none := by
  induction bs generalizing n with
  | nil => exact ⟨fun _ _ h => absurd h (by simp), fun _ => rfl⟩
  | cons b bs ih =>
    have hguarded := guarded_apply check effect b n
    rw [List.zipIdx_cons, List.forall_mem_cons]
    cases hcheck : check n b with
    | some e =>
      rw [hcheck] at hguarded
      rw [forEach, bind_of_error hguarded]
      simp
    | none =>
      rw [hcheck] at hguarded
      rw [forEach, bind_of_ok hguarded]
      simp [ih (n + 1)]

/-- The items that a loop gets to are those that no check refuses, like all before them. -/
theorem mem_accepted_iff {check : Nat → β → Option ε} {n : Nat} {bs : List β} {item : β × Nat} :
    item ∈ accepted check n bs ↔ ∃ before after, bs.zipIdx n = before ++ item :: after ∧
      ∀ other ∈ before ++ [item], check other.2 other.1 = none := by
  constructor
  · intro h
    obtain ⟨before, middle, hmiddle⟩ := List.append_of_mem h
    refine ⟨before, middle ++ (bs.zipIdx n).dropWhile fun item => (check item.2 item.1).isNone,
      ?_, fun other hother => ?_⟩
    · rw [← List.cons_append, ← List.append_assoc, ← hmiddle]
      exact List.takeWhile_append_dropWhile.symm
    · have hmem : other ∈ accepted check n bs := by
        rw [hmiddle, List.append_cons]
        exact List.mem_append_left _ hother
      have hnone := List.mem_takeWhile_imp (p := fun item : β × Nat => (check item.2 item.1).isNone) hmem
      exact Option.isNone_iff_eq_none.mp hnone
  · rintro ⟨before, after, heq, hall⟩
    rw [accepted, heq, List.append_cons, List.takeWhile_append_of_pos]
    · simp
    · exact fun other hother => Option.isNone_iff_eq_none.mpr (hall other hother)

theorem accepted_of_forall {check : Nat → β → Option ε} {n : Nat} {bs : List β}
    (h : ∀ item ∈ bs.zipIdx n, check item.2 item.1 = none) :
    accepted check n bs = bs.zipIdx n := by
  unfold accepted
  rw [List.takeWhile_eq_self_iff]
  intro item hitem
  rw [h item hitem]
  rfl

/-- A loop of guarded effects that no check refuses. -/
theorem forEach_guarded_of_forall {check : Nat → β → Option ε} (effect : Nat → β → τ) {n : Nat}
    {bs : List β} (h : ∀ item ∈ bs.zipIdx n, check item.2 item.1 = none) :
    forEach (guarded check effect) bs n =
      ⟨.ok (), (bs.zipIdx n).map fun item => effect item.2 item.1, n + bs.length⟩ := by
  induction bs generalizing n with
  | nil => rfl
  | cons b bs ih =>
    rw [List.zipIdx_cons, List.forall_mem_cons] at h
    have hguarded := guarded_apply check effect b n
    rw [h.1] at hguarded
    rw [forEach, bind_of_ok hguarded, ih h.2, List.zipIdx_cons, List.length_cons,
      Nat.add_comm bs.length 1, ← Nat.add_assoc]
    rfl

/-- A loop of guarded effects that some check refuses. -/
theorem forEach_guarded_of_refused {check : Nat → β → Option ε} (effect : Nat → β → τ) {n : Nat}
    {bs : List β} (h : ¬∀ item ∈ bs.zipIdx n, check item.2 item.1 = none) :
    ∃ e m, forEach (guarded check effect) bs n =
      ⟨.error e, (accepted check n bs).map fun item => effect item.2 item.1, m⟩ := by
  have heffects := forEach_guarded_effects check effect bs n
  have hresult := (forEach_guarded_result check effect bs n).not.mpr h
  revert heffects hresult
  cases forEach (guarded check effect) bs n with
  | mk result effects m =>
    cases result with
    | ok a => exact fun _ hresult => absurd rfl hresult
    | error e =>
      rintro rfl -
      exact ⟨e, m, rfl⟩

theorem accepted_append_of_forall {check : Nat → β → Option ε} {n : Nat} {bs : List β}
    (h : ∀ item ∈ bs.zipIdx n, check item.2 item.1 = none) (cs : List β) :
    accepted check n (bs ++ cs) = bs.zipIdx n ++ accepted check (n + bs.length) cs := by
  unfold accepted
  rw [List.zipIdx_append, List.takeWhile_append_of_pos fun item hitem => by rw [h item hitem]; rfl]

theorem accepted_append_of_refused {check : Nat → β → Option ε} {n : Nat} {bs : List β}
    (h : ¬∀ item ∈ bs.zipIdx n, check item.2 item.1 = none) (cs : List β) :
    accepted check n (bs ++ cs) = accepted check n bs := by
  have hne : ((bs.zipIdx n).takeWhile fun item => (check item.2 item.1).isNone).length ≠
      (bs.zipIdx n).length := by
    intro hlength
    have hself := (List.takeWhile_prefix _).eq_of_length hlength
    rw [List.takeWhile_eq_self_iff] at hself
    exact h fun item hitem => Option.isNone_iff_eq_none.mp (hself item hitem)
  unfold accepted
  rw [List.zipIdx_append, List.takeWhile_append, if_neg hne]

/-! ## Two loops with a quiet script between them -/

section

variable (check : Nat → β → Option ε) (first second : Nat → β → τ) (bs cs : List β)
  {quiet : Script τ ε Unit} {between : List τ}

/-- Two loops of guarded effects, and a script that neither fails nor draws between them. -/
def loops (quiet : Script τ ε Unit) : Script τ ε Unit := do
  forEach (guarded check first) bs
  quiet
  forEach (guarded check second) cs

theorem loops_of_forall (hquiet : ∀ n, quiet n = ⟨.ok (), between, n⟩) {n : Nat}
    (h : ∀ item ∈ bs.zipIdx n, check item.2 item.1 = none) :
    loops check first second bs cs quiet n =
      ⟨(forEach (guarded check second) cs (n + bs.length)).result,
        ((bs.zipIdx n).map fun item => first item.2 item.1) ++ (between ++
          (forEach (guarded check second) cs (n + bs.length)).effects),
        (forEach (guarded check second) cs (n + bs.length)).next⟩ := by
  rw [loops, bind_of_ok (forEach_guarded_of_forall first h), bind_of_ok (hquiet _)]

/-- **Both loops are done when no check refuses.** -/
theorem loops_result (hquiet : ∀ n, quiet n = ⟨.ok (), between, n⟩) (n : Nat) :
    (loops check first second bs cs quiet n).result = .ok () ↔
      ∀ item ∈ (bs ++ cs).zipIdx n, check item.2 item.1 = none := by
  simp only [List.zipIdx_append, List.forall_mem_append]
  by_cases h : ∀ item ∈ bs.zipIdx n, check item.2 item.1 = none
  · rw [loops_of_forall check first second bs cs hquiet h, forEach_guarded_result]
    exact ⟨fun hcs => ⟨h, hcs⟩, fun hcs => hcs.2⟩
  · obtain ⟨e, m, hloop⟩ := forEach_guarded_of_refused first h
    rw [loops, bind_of_error hloop]
    exact ⟨fun hok => absurd hok (by simp), fun hall => absurd hall.1 h⟩

/-- What two loops that no check refuses have done. -/
theorem loops_effects (hquiet : ∀ n, quiet n = ⟨.ok (), between, n⟩) {n : Nat}
    (h : ∀ item ∈ (bs ++ cs).zipIdx n, check item.2 item.1 = none) :
    (loops check first second bs cs quiet n).effects =
      ((bs.zipIdx n).map fun item => first item.2 item.1) ++ (between ++
        (cs.zipIdx (n + bs.length)).map fun item => second item.2 item.1) := by
  rw [List.zipIdx_append, List.forall_mem_append] at h
  rw [loops_of_forall check first second bs cs hquiet h.1, forEach_guarded_of_forall second h.2]

/-- **What two loops have done**, whatever the checks say. -/
theorem loops_effects_eq (hquiet : ∀ n, quiet n = ⟨.ok (), between, n⟩) (n : Nat) :
    ∃ middle rest, (middle = [] ∨ middle = between) ∧
      accepted check n (bs ++ cs) = accepted check n bs ++ rest ∧
      (loops check first second bs cs quiet n).effects =
        ((accepted check n bs).map fun item => first item.2 item.1) ++
          (middle ++ rest.map fun item => second item.2 item.1) := by
  by_cases h : ∀ item ∈ bs.zipIdx n, check item.2 item.1 = none
  · refine ⟨between, accepted check (n + bs.length) cs, .inr rfl, ?_, ?_⟩
    · rw [accepted_append_of_forall h, accepted_of_forall h]
    · rw [loops_of_forall check first second bs cs hquiet h, accepted_of_forall h,
        forEach_guarded_effects]
  · obtain ⟨e, m, hloop⟩ := forEach_guarded_of_refused first h
    refine ⟨[], [], .inl rfl, ?_, ?_⟩
    · rw [accepted_append_of_refused h, List.append_nil]
    · rw [loops, bind_of_error hloop]
      simp

end

end Script
