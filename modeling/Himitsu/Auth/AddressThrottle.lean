import Himitsu.Auth.Throttle

/-!
# The login throttle of an address

Sequential logins from one address against any accounts. A success clears the failures of the
address along with those of the account, so that the throttle window of the address, which a success
does not close, can see more failures than the limiter counts.

* `addressWindowOf` — the throttle window of an address.
* `Sequential` — a login of the address is not admitted while another one is in flight.
* `KeepsFailures` — no login of the address verifies while failures count against the address.
* `Tracked` — the invariant: the limiter's window and that of the address differ only once the latter
  has ended.

Principal result: `address_throttle` — at most `maxFailures` verifications fail in a window, in every
sequential run that keeps failures.
-/

set_option autoImplicit false

namespace Himitsu.Auth

open JsString Crypto Database

/-- The identity of an address. -/
def addressIdentity (ip : JsString) : JsString := ofAscii "ip:" ++ ip

/-! ## The window of an address -/

/-- A success leaves the window as it is. -/
def nextAddressWindow (windowMs : Nat) (window : Option Window) : Attempt → Option Window
  | .succeeded => window
  | .rejected verified time => nextWindow windowMs window (.rejected verified time)

/-- The throttle window that the last rejected login lies in. -/
def addressWindowOf (windowMs : Nat) (log : List Attempt) : Option Window :=
  log.foldl (nextAddressWindow windowMs) none

theorem addressWindowOf_append (windowMs : Nat) (log : List Attempt) (attempt : Attempt) :
    addressWindowOf windowMs (log ++ [attempt]) =
      nextAddressWindow windowMs (addressWindowOf windowMs log) attempt := by
  rw [addressWindowOf, List.foldl_append]
  rfl

def Attempt.isSuccess : Attempt → Bool
  | .succeeded => true
  | .rejected _ _ => false

/-! ## Guards -/

section

variable (primitives : Primitives) (identity : JsString)

def Sequential (w : Watched) (e : Event) : Bool :=
  !(admitted primitives w.system e).contains identity || w.system.inFlight identity == 0

def KeepsFailures (w : Watched) (e : Event) : Bool :=
  !(attempts primitives identity w.system e).any Attempt.isSuccess ||
    (w.system.limiter.live w.clock identity).isNone

end

/-! ## The invariant -/

/-- The window has ended. -/
def EndedAt (windowMs : Nat) (clock : Int) (window : Window) : Prop :=
  window.openedAt + windowMs ≤ clock

structure Tracked (identity : JsString) (maxFailures windowMs : Nat) (w : Watched) : Prop
    extends Throttled identity maxFailures windowMs w where
  agrees : addressWindowOf windowMs w.log = windowOf windowMs w.log ∨
    windowOf windowMs w.log = none ∧
      ∀ window, addressWindowOf windowMs w.log = some window → EndedAt windowMs w.clock window
  addressBound : ∀ window, addressWindowOf windowMs w.log = some window →
    window.failed ≤ maxFailures

section

variable {primitives : Primitives} {identity : JsString} {maxFailures windowMs : Nat}

theorem Tracked.start (identity : JsString) (tables : Tables) (maxFailures windowMs : Nat)
    (clock : Int) :
    Tracked identity maxFailures windowMs (.start tables maxFailures windowMs clock) where
  toThrottled := Throttled.start ..
  agrees := .inl rfl
  addressBound := fun _ h => by cases h

/-- A step ends at most one login of the identity, at a time that the clock shows. -/
theorem attempts_cases (w : Watched) (e : Event) :
    attempts primitives identity w.system e = [] ∨
      attempts primitives identity w.system e = [.succeeded] ∨
      ∃ verified time, attempts primitives identity w.system e = [.rejected verified time] ∧
        time ∈ readings primitives w.system e := by
  cases e with
  | resume i input =>
    simp only [attempts, readings]
    cases hcall : w.system.calls[i]? with
    | none => exact .inl rfl
    | some call =>
      simp only [Option.map_some]
      split
      · exact .inl rfl
      · cases hverdict : call.verdict primitives w.system.tables with
        | undecided => exact .inl rfl
        | rejected verified => exact .inr (.inr ⟨verified, input.nowMs, rfl, List.mem_cons_self ..⟩)
        | succeeded => exact .inr (.inl rfl)
  | begin | fail => exact .inl rfl

/-- Where nothing counts against the identity, the limiter's window is not open. -/
theorem Throttled.ended {w : Watched} (h : Throttled identity maxFailures windowMs w)
    (hnone : w.system.limiter.live w.clock identity = none) :
    ∀ window, windowOf windowMs w.log = some window → EndedAt windowMs w.clock window := by
  intro window hwindow
  have hrel := h.counts w.clock le_rfl
  rw [hnone, openWindow, hwindow, Option.filter_some] at hrel
  unfold EndedAt
  split at hrel
  · cases hrel
  · rename_i hlive
    rw [decide_eq_true_eq] at hlive
    omega

/-- A rejected login opens the same window for the address as for the limiter. -/
theorem nextAddressWindow_rejected {w : Watched} (h : Tracked identity maxFailures windowMs w)
    (verified : Bool) {time : Int} (htime : w.clock ≤ time) :
    nextAddressWindow windowMs (addressWindowOf windowMs w.log) (.rejected verified time) =
      nextWindow windowMs (windowOf windowMs w.log) (.rejected verified time) := by
  obtain hsame | ⟨hnone, hended⟩ := h.agrees
  · rw [hsame]
    rfl
  · have hfilter : (addressWindowOf windowMs w.log).filter
        (fun window => decide (time < window.openedAt + windowMs)) = none := by
      rw [Option.filter_eq_none_iff]
      intro window hwindow
      have hend := hended window hwindow
      unfold EndedAt at hend
      rw [decide_eq_true_eq]
      omega
    rw [hnone]
    simp only [nextAddressWindow, nextWindow, hfilter, Option.filter_none]

/-- A step of a sequential run that keeps failures. -/
theorem Tracked.step {w w' : Watched} {e : Event} (hmax : 0 < maxFailures)
    (h : Tracked identity maxFailures windowMs w) (hforward : Forward primitives w e)
    (hsequential : Sequential primitives identity w e = true)
    (hkeeps : KeepsFailures primitives identity w e = true)
    (hstep : watch primitives identity w e = some w') :
    Tracked identity maxFailures windowMs w' := by
  have hroom : Room primitives identity w e := by
    intro nowMs request heq hmem
    unfold Sequential at hsequential
    rw [List.contains_iff_mem.mpr hmem, Bool.not_true, Bool.false_or, beq_iff_eq] at hsequential
    exact room_of_alone h.toThrottled hmax hsequential nowMs request heq hmem
  have hthrottled := h.toThrottled.step hforward hroom hstep
  obtain ⟨s', -, rfl⟩ := Option.map_eq_some_iff.mp hstep
  have hclock := clock_le hforward
  unfold KeepsFailures at hkeeps
  obtain hnone | hsuccess | ⟨verified, time, hrejected, htime⟩ :=
    @attempts_cases primitives identity w e
  · refine ⟨hthrottled, ?_, ?_⟩
    · simp only [hnone, List.append_nil]
      exact h.agrees.imp id fun ⟨hwindow, hended⟩ =>
        ⟨hwindow, fun window hw => (hended window hw).trans hclock⟩
    · simp only [hnone, List.append_nil]
      exact h.addressBound
  · rw [hsuccess, show ([Attempt.succeeded].any Attempt.isSuccess) = true from rfl, Bool.not_true,
      Bool.false_or, Option.isNone_iff_eq_none] at hkeeps
    have hended : ∀ window, addressWindowOf windowMs w.log = some window →
        EndedAt windowMs w.clock window := by
      obtain hsame | ⟨-, hended⟩ := h.agrees
      · rw [hsame]
        exact h.toThrottled.ended hkeeps
      · exact hended
    refine ⟨hthrottled, ?_, ?_⟩
    · simp only [hsuccess, addressWindowOf_append, windowOf_append]
      exact .inr ⟨rfl, fun window hw => (hended window hw).trans hclock⟩
    · simp only [hsuccess, addressWindowOf_append]
      exact h.addressBound
  · have hsame := nextAddressWindow_rejected h verified
      ((List.pairwise_cons.mp hforward).1 time htime)
    refine ⟨hthrottled, ?_, ?_⟩
    · simp only [hrejected, addressWindowOf_append, windowOf_append]
      exact .inl hsame
    · have hbound := hthrottled.bound
      simp only [hrejected, addressWindowOf_append, windowOf_append] at hbound ⊢
      rw [hsame]
      exact hbound

end

/-! ## The throttle -/

/-- **At most `maxFailures` verifications from an address fail in a window**, in each state of a
sequential run in which no login of the address verifies while failures count against it. -/
theorem address_throttle (primitives : Primitives) (tables : Tables) {maxFailures windowMs : Nat}
    {clock : Int} {ip : JsString} {events : List Event} {w : Watched} (hmax : 0 < maxFailures)
    (hrun : Runs.run (watch primitives (addressIdentity ip))
      (.start tables maxFailures windowMs clock) events = some w)
    (hguard : Runs.Guarded (watch primitives (addressIdentity ip))
      (fun w e => Forward primitives w e ∧ Sequential primitives (addressIdentity ip) w e = true ∧
        KeepsFailures primitives (addressIdentity ip) w e = true)
      (.start tables maxFailures windowMs clock) events) :
    ∀ window, addressWindowOf windowMs w.log = some window → window.failed ≤ maxFailures := by
  have hinv : Tracked (addressIdentity ip) maxFailures windowMs w :=
    Runs.run_invariant (fun _ _ _ h hg hs => h.step hmax hg.1 hg.2.1 hg.2.2 hs) (Tracked.start ..)
      hguard hrun
  exact hinv.addressBound

/-! ## A success between the failures -/

def exampleVictim (name : String) (id : BitVec 128) : User :=
  ⟨⟨id⟩, ofAscii name, ofAscii name, some (ofAscii "unknown"), some 0, none⟩

/-- A login from one address, up to the verification of its password. -/
def loginFromAddress (i : Nat) (email password : String) : List Event :=
  [.begin 0 (.login (ofAscii email) (ofAscii password) ⟨some (ofAscii "192.0.2.1"), none⟩),
    .resume i (exampleInput "" 0), .resume i (exampleInput "session" 0)]

def guesses (first count : Nat) (email : String) : List Event :=
  (List.range count).flatMap fun i => loginFromAddress (first + i) email "guess"

/-- Two guesses, and a success once they no longer count. -/
def guessesThenOwn : List Event := loginFromAddress 0 "a@b.c" "old password" ++ guesses 1 2 "v@b.c"

/-- Four guesses, a success of the own account, and four more. -/
def sprayed : List Event :=
  guesses 0 4 "v@b.c" ++
    (loginFromAddress 4 "a@b.c" "old password" ++ [.resume 4 (exampleInput "" 3)]) ++
    guesses 5 4 "w@b.c"

def addressStart : Watched :=
  .start ⟨[exampleUser, exampleVictim "v@b.c" 2, exampleVictim "w@b.c" 3], [], []⟩ 5 900000 0

def addressWatch : Watched → Event → Option Watched :=
  watch examplePrimitives (addressIdentity (ofAscii "192.0.2.1"))

theorem address_throttle_guesses :
    ∃ w, Runs.run addressWatch addressStart guessesThenOwn = some w ∧
      (addressWindowOf 900000 w.log).map (·.failed) = some 2 ∧
      ∀ window, addressWindowOf 900000 w.log = some window → window.failed ≤ 5 := by
  have hlast : (Runs.run addressWatch addressStart guessesThenOwn).map
      (fun w => (addressWindowOf 900000 w.log).map (·.failed)) = some (some 2) := by
    decide +kernel
  obtain ⟨w, hrun, hfailed⟩ := Option.map_eq_some_iff.mp hlast
  exact ⟨w, hrun, hfailed, address_throttle examplePrimitives _ (by decide) hrun
    (by decide +kernel)⟩

/-- **A success lets the address guess on**: eight failures in one window of five. -/
theorem success_resets_address :
    ∃ w, Runs.run addressWatch addressStart sprayed = some w ∧
      Runs.Guarded addressWatch (fun w e => Forward examplePrimitives w e ∧
        Sequential examplePrimitives (addressIdentity (ofAscii "192.0.2.1")) w e = true)
        addressStart sprayed ∧
      ¬ ∀ window, addressWindowOf 900000 w.log = some window → window.failed ≤ 5 := by
  have hlast : (Runs.run addressWatch addressStart sprayed).map
      (fun w => (addressWindowOf 900000 w.log).map (·.failed)) = some (some 8) := by
    decide +kernel
  obtain ⟨w, hrun, hfailed⟩ := Option.map_eq_some_iff.mp hlast
  obtain ⟨window, hwindow, height⟩ := Option.map_eq_some_iff.mp hfailed
  refine ⟨w, hrun, by decide +kernel, fun hall => ?_⟩
  have := hall window hwindow
  omega

end Himitsu.Auth
