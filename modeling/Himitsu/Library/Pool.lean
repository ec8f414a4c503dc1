import Himitsu.Library.Runs

/-!
# Clients of a pool of identical resources

A client is a program that takes resources one at a time and gives each back when the code that
uses it ends, by a return or by an exception.

* `Program`, `Client.advance` — the programs, and one step of a client.
* `Program.nesting` — the most resources a program holds at one time.
* `step` — a pool of a fixed size with any number of clients; taking a resource waits while all
  are in use.
* `Deadlocked` — every resource is held by a client that waits for another one.
* `size_le_demand` — a deadlocked pool has clients in flight that, beyond their last resource,
  can hold as many resources as there are.
* `flood_run` — clients that wait for a second resource exhaust a pool of any size.
-/

set_option autoImplicit false

namespace Pool

/-! ## Programs -/

/-- `either` is a branch on data, `attempt` is `try`/`catch`, and `withResource` takes a resource
and gives it back in a `finally`. -/
inductive Program where
  | skip
  | throw
  | seq (first second : Program)
  | either (left right : Program)
  | attempt (work handler : Program)
  | withResource (work : Program)

/-- The most resources held at one time. -/
def Program.nesting : Program → Nat
  | .skip | .throw => 0
  | .seq p q | .either p q | .attempt p q => max p.nesting q.nesting
  | .withResource p => p.nesting + 1

inductive Frame where
  | andThen (next : Program)
  | catching (handler : Program)
  | release

inductive Control where
  | run (program : Program)
  | returned
  | thrown

structure Client where
  control : Control
  stack : List Frame

def Client.start (p : Program) : Client := ⟨.run p, []⟩

/-- One step; `choice` decides a branch. -/
def Client.advance (choice : Bool) : Client → Option Client
  | ⟨.run .skip, s⟩ => some ⟨.returned, s⟩
  | ⟨.run .throw, s⟩ => some ⟨.thrown, s⟩
  | ⟨.run (.seq p q), s⟩ => some ⟨.run p, .andThen q :: s⟩
  | ⟨.run (.either p q), s⟩ => some ⟨.run (if choice then p else q), s⟩
  | ⟨.run (.attempt p q), s⟩ => some ⟨.run p, .catching q :: s⟩
  | ⟨.run (.withResource p), s⟩ => some ⟨.run p, .release :: s⟩
  | ⟨.returned, .andThen q :: s⟩ => some ⟨.run q, s⟩
  | ⟨.returned, _ :: s⟩ => some ⟨.returned, s⟩
  | ⟨.thrown, .catching q :: s⟩ => some ⟨.run q, s⟩
  | ⟨.thrown, _ :: s⟩ => some ⟨.thrown, s⟩
  | ⟨_, []⟩ => none

/-- The resources held under a stack. -/
def held : List Frame → Nat
  | [] => 0
  | .release :: s => held s + 1
  | _ :: s => held s

def Client.waiting : Client → Bool
  | ⟨.run (.withResource _), _⟩ => true
  | _ => false

def Client.finished : Client → Bool
  | ⟨.returned, []⟩ | ⟨.thrown, []⟩ => true
  | _ => false

/-! ## What a client can still hold -/

def Control.nesting : Control → Nat
  | .run p => p.nesting
  | _ => 0

/-- The most resources held at one time from here to the end of the stack. -/
def stackPeak : List Frame → Nat
  | [] => 0
  | .andThen q :: s | .catching q :: s => max (held s + q.nesting) (stackPeak s)
  | .release :: s => max (held s + 1) (stackPeak s)

def Client.peak (c : Client) : Nat := max (held c.stack + c.control.nesting) (stackPeak c.stack)

theorem held_le_stackPeak : ∀ s : List Frame, held s ≤ stackPeak s
  | [] => Nat.le_refl 0
  | .andThen q :: s | .catching q :: s => by
    have ih := held_le_stackPeak s
    simp only [held, stackPeak]
    omega
  | .release :: s => by
    simp only [held, stackPeak]
    omega

@[simp] theorem peak_start (p : Program) : (Client.start p).peak = p.nesting := by
  simp [Client.start, Client.peak, held, stackPeak, Control.nesting]

/-- **No step raises the peak.** -/
theorem peak_advance {choice : Bool} {c d : Client} (h : c.advance choice = some d) :
    d.peak ≤ c.peak := by
  obtain ⟨control, stack⟩ := c
  have hs := held_le_stackPeak stack
  cases control with
  | run p =>
    cases p <;> cases h <;>
      simp only [Client.peak, Control.nesting, Program.nesting, held, stackPeak] <;>
      first | omega | (split <;> omega)
  | returned =>
    cases stack with
    | nil => cases h
    | cons frame rest =>
      cases frame <;> cases h <;>
        simp only [Client.peak, Control.nesting, held, stackPeak] at hs ⊢ <;> omega
  | thrown =>
    cases stack with
    | nil => cases h
    | cons frame rest =>
      cases frame <;> cases h <;>
        simp only [Client.peak, Control.nesting, held, stackPeak] at hs ⊢ <;> omega

/-- A waiting client holds fewer resources than its peak. -/
theorem held_lt_peak {c : Client} (h : c.waiting = true) : held c.stack < c.peak := by
  obtain ⟨control, stack⟩ := c
  cases control with
  | run p =>
    cases p with
    | withResource q =>
      simp only [Client.peak, Control.nesting, Program.nesting]
      omega
    | _ => cases h
  | _ => cases h

theorem not_finished {c : Client} (h : c.waiting = true) : c.finished = false := by
  obtain ⟨control, stack⟩ := c
  cases control with
  | run p => rfl
  | _ => cases h

/-! ## The pool -/

section

variable {ρ : Type}

/-- `kind` says which program the client runs. -/
structure Member (ρ : Type) where
  kind : ρ
  client : Client

abbrev State (ρ : Type) := List (Member ρ)

inductive Event (ρ : Type) where
  | arrive (kind : ρ)
  | advance (i : Nat) (choice : Bool)

def inUse (s : State ρ) : Nat := (s.map fun m => held m.client.stack).sum

variable (program : ρ → Program) (size : Nat)

/-- The state after an event; a client that waits moves on only while a resource is free. -/
def step (s : State ρ) : Event ρ → Option (State ρ)
  | .arrive kind => some (s ++ [⟨kind, .start (program kind)⟩])
  | .advance i choice => do
    let m ← s[i]?
    if m.client.waiting && decide (size ≤ inUse s) then none
    else do
      let d ← m.client.advance choice
      some (s.set i ⟨m.kind, d⟩)

/-- All resources are held, each by a client that waits for another one. -/
def Deadlocked (s : State ρ) : Prop :=
  inUse s = size ∧ ∀ m ∈ s, 0 < held m.client.stack → m.client.waiting = true

/-- What the clients in flight can hold beyond the last resource that each takes. -/
def demand (s : State ρ) : Nat :=
  (s.map fun m => if m.client.finished then 0 else (program m.kind).nesting - 1).sum

variable {program size}

theorem step_cases {s s' : State ρ} {e : Event ρ} (h : step program size s e = some s') :
    (∃ kind, e = .arrive kind ∧ s' = s ++ [⟨kind, .start (program kind)⟩]) ∨
    (∃ i choice m d, e = .advance i choice ∧ s[i]? = some m ∧
      m.client.advance choice = some d ∧ s' = s.set i ⟨m.kind, d⟩ ∧
      (m.client.waiting = true → inUse s < size)) := by
  cases e with
  | arrive kind => exact .inl ⟨kind, rfl, (Option.some.inj h).symm⟩
  | advance i choice =>
    obtain ⟨m, hm, h⟩ := Option.bind_eq_some_iff.mp h
    split at h
    · cases h
    · rename_i hfree
      obtain ⟨d, hd, h⟩ := Option.bind_eq_some_iff.mp h
      refine .inr ⟨i, choice, m, d, rfl, hm, hd, (Option.some.inj h).symm, fun hw => ?_⟩
      simpa [hw] using hfree

/-- Every client stays within the nesting of its program. -/
def WithinNesting (program : ρ → Program) (s : State ρ) : Prop :=
  ∀ m ∈ s, m.client.peak ≤ (program m.kind).nesting

theorem withinNesting_step {s s' : State ρ} {e : Event ρ} (hs : WithinNesting program s)
    (h : step program size s e = some s') : WithinNesting program s' := by
  intro m' hm'
  obtain ⟨kind, -, rfl⟩ | ⟨i, choice, m, d, -, hm, hd, rfl, -⟩ := step_cases h
  · obtain hm' | hm' := List.mem_append.mp hm'
    · exact hs m' hm'
    · rw [List.mem_singleton.mp hm', peak_start]
  · obtain hm' | rfl := List.mem_or_eq_of_mem_set hm'
    · exact hs m' hm'
    · exact Nat.le_trans (peak_advance hd) (hs m (List.mem_of_getElem? hm))

theorem withinNesting_run {events : List (Event ρ)} {s : State ρ}
    (h : Runs.run (step program size) [] events = some s) : WithinNesting program s :=
  Runs.invariant_of_run (fun _ _ _ hs hstep => withinNesting_step hs hstep) (by simp [WithinNesting]) h

/-- **A deadlocked pool has the demand of its size.** -/
theorem size_le_demand {events : List (Event ρ)} {s : State ρ}
    (h : Runs.run (step program size) [] events = some s) (hd : Deadlocked size s) :
    size ≤ demand program s := by
  obtain ⟨hfull, hwait⟩ := hd
  rw [← hfull]
  refine List.sum_le_sum fun m hm => ?_
  by_cases hheld : held m.client.stack = 0
  · omega
  · have hw := hwait m hm (by omega)
    have hlt := held_lt_peak hw
    have hle := withinNesting_run h m hm
    rw [not_finished hw, if_neg Bool.false_ne_true]
    omega

/-! ## Exhausting a pool -/

/-- The client after some steps, none of which takes a resource while holding another. -/
def Client.follow : List Bool → Client → Option Client
  | [], c => some c
  | choice :: path, c =>
    if c.waiting && decide (0 < held c.stack) then none
    else (c.advance choice).bind (Client.follow path)

variable (program size)

/-- A newcomer follows its path while a resource is free. -/
theorem follow_run {s : State ρ} (hfree : inUse s < size) (kind : ρ) :
    ∀ {path : List Bool} {c d : Client}, c.follow path = some d →
      Runs.run (step program size) (s ++ [⟨kind, c⟩]) (path.map (.advance s.length)) =
        some (s ++ [⟨kind, d⟩])
  | [], c, d, h => by
    cases h
    rfl
  | choice :: path, c, d, h => by
    rw [Client.follow] at h
    split at h
    · cases h
    · rename_i hguard
      obtain ⟨c', hc', hrest⟩ := Option.bind_eq_some_iff.mp h
      have hstep : step program size (s ++ [⟨kind, c⟩]) (.advance s.length choice) =
          some (s ++ [⟨kind, c'⟩]) := by
        have huse : c.waiting = true → inUse (s ++ [⟨kind, c⟩]) < size := by
          intro hw
          have hnone : held c.stack = 0 := by simpa [hw] using hguard
          simp only [inUse] at hfree
          simp [inUse, hnone, hfree]
        simpa [step, hc'] using huse
      rw [List.map_cons, Runs.run, hstep, Option.bind_some]
      exact follow_run hfree kind hrest

/-- `n` clients of one kind, each brought to the end of its path. -/
def flood (kind : ρ) (path : List Bool) : Nat → List (Event ρ)
  | 0 => []
  | n + 1 => flood kind path n ++ .arrive kind :: path.map (.advance n)

theorem inUse_replicate (n : Nat) (m : Member ρ) :
    inUse (List.replicate n m) = n * held m.client.stack := by
  simp [inUse]

/-- **A flood fills the pool.** -/
theorem flood_run {kind : ρ} {path : List Bool} {d : Client}
    (hpath : (Client.start (program kind)).follow path = some d) (hheld : held d.stack = 1) :
    ∀ n, n ≤ size →
      Runs.run (step program size) [] (flood kind path n) = some (List.replicate n ⟨kind, d⟩)
  | 0, _ => rfl
  | n + 1, hn => by
    have ih := flood_run hpath hheld n (by omega)
    have hfree : inUse (List.replicate n (⟨kind, d⟩ : Member ρ)) < size := by
      rw [inUse_replicate, hheld]
      omega
    have hnew := follow_run program size hfree kind hpath
    rw [List.length_replicate] at hnew
    rw [flood, Runs.run_append, ih, Option.bind_some, Runs.run, step, Option.bind_some, hnew,
      List.replicate_succ']

theorem deadlocked_replicate {kind : ρ} {d : Client} (hwait : d.waiting = true)
    (hheld : held d.stack = 1) : Deadlocked size (List.replicate size (⟨kind, d⟩ : Member ρ)) := by
  refine ⟨by rw [inUse_replicate, hheld, Nat.mul_one], fun m hm _ => ?_⟩
  rw [List.eq_of_mem_replicate hm]
  exact hwait

end

end Pool
