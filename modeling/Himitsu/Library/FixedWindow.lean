import Mathlib

/-!
# Fixed windows

Events of one key that are counted in windows of a fixed length. A window opens with the first event
that finds none open, and it is over when its time is up or when an event closes it.

* `windows` — the events cut into the windows that they fall into.
* `Bucket`, `found`, `next` — a counter that keeps the sum of the open window.
* `counted` — the events, each with the bucket that it found.
* `IsWindow` — within a window the bucket counts what came before.
* `ledgers` — the events of many keys, each with the buckets of all keys before it.

Principal results: `length_filter_le` — where only events are admitted that find less than the limit,
no window has more admitted events than the limit; `length_filter_le_of_ends` — the same where an
event is judged after it was counted, and at a later time.
-/

set_option autoImplicit false

namespace FixedWindow

variable {α β : Type}

structure Bucket where
  count : Nat
  resetAt : Int
  deriving DecidableEq, Repr

/-- How events of a key count: when one happens, whether it closes the window, and its weight. -/
structure Meter (α : Type) where
  windowMs : Nat
  time : α → Int
  closes : α → Bool
  weight : α → Nat

section

variable (m : Meter α)

/-! ## Windows -/

/-- The windows from an open one on, which has opened at a time and holds some events. -/
def cut : Option (Int × List α) → List α → List (List α)
  | none, [] => []
  | some (_, held), [] => [held]
  | none, e :: rest => if m.closes e then cut none rest else cut (some (m.time e, [e])) rest
  | some (opened, held), e :: rest =>
    if m.closes e then held :: cut none rest
    else if m.time e < opened + m.windowMs then cut (some (opened, held ++ [e])) rest
    else held :: cut (some (m.time e, [e])) rest

def windows (events : List α) : List (List α) := cut m none events

/-! ## The counter -/

/-- The bucket that an event finds. -/
def found (bucket : Option Bucket) (time : Int) : Bucket :=
  (bucket.filter fun b => decide (time < b.resetAt)).getD ⟨0, time + m.windowMs⟩

def next (bucket : Option Bucket) (e : α) : Option Bucket :=
  if m.closes e then none
  else
    let b := found m bucket (m.time e)
    some { b with count := b.count + m.weight e }

def counted : Option Bucket → List α → List (α × Bucket)
  | _, [] => []
  | bucket, e :: rest => (e, found m bucket (m.time e)) :: counted (next m bucket e) rest

/-- A meter of what carries an event. -/
def Meter.comap (g : β → α) : Meter β where
  windowMs := m.windowMs
  time e := m.time (g e)
  closes e := m.closes (g e)
  weight e := m.weight (g e)

end

variable {m : Meter α}

/-! ## Windows are a partition -/

section

variable {e : α} {rest held : List α} {opened : Int}

theorem cut_of_closes (h : m.closes e = true) (window : Option (Int × List α)) :
    cut m window (e :: rest) = (window.map (·.2)).toList ++ cut m none rest := by
  match window with
  | none => exact if_pos h
  | some (_, _) => exact if_pos h

theorem cut_opens (h : ¬ m.closes e = true) :
    cut m none (e :: rest) = cut m (some (m.time e, [e])) rest :=
  if_neg h

theorem cut_inside (h : ¬ m.closes e = true) (htime : m.time e < opened + m.windowMs) :
    cut m (some (opened, held)) (e :: rest) = cut m (some (opened, held ++ [e])) rest :=
  (if_neg h).trans (if_pos htime)

theorem cut_after (h : ¬ m.closes e = true) (htime : ¬ m.time e < opened + m.windowMs) :
    cut m (some (opened, held)) (e :: rest) = held :: cut m (some (m.time e, [e])) rest :=
  (if_neg h).trans (if_neg htime)

end

theorem flatten_cut (window : Option (Int × List α)) (events : List α) :
    (cut m window events).flatten =
      ((window.map (·.2)).getD []) ++ events.filter fun e => !m.closes e := by
  induction events generalizing window with
  | nil =>
    match window with
    | none => rfl
    | some (_, held) => simp [cut]
  | cons e rest ih =>
    by_cases hcloses : m.closes e = true
    · rw [cut_of_closes hcloses, List.flatten_append, ih,
        List.filter_cons_of_neg (by simp [hcloses])]
      cases window <;> simp
    · rw [List.filter_cons_of_pos (by simp [hcloses])]
      match window with
      | none =>
        rw [cut_opens hcloses, ih]
        rfl
      | some (opened, held) =>
        by_cases htime : m.time e < opened + m.windowMs
        · rw [cut_inside hcloses htime, ih]
          exact List.append_assoc held [e] _
        · rw [cut_after hcloses htime, List.flatten_cons, ih]
          rfl

/-- **Each event that closes no window is in exactly one**, in order. -/
theorem flatten_windows (events : List α) :
    (windows m events).flatten = events.filter fun e => !m.closes e :=
  flatten_cut none events

theorem cut_map (g : β → α) (window : Option (Int × List β)) (events : List β) :
    (cut (m.comap g) window events).map (·.map g) =
      cut m (window.map fun w => (w.1, w.2.map g)) (events.map g) := by
  induction events generalizing window with
  | nil =>
    match window with
    | none => rfl
    | some (_, held) => rfl
  | cons e rest ih =>
    rw [List.map_cons]
    by_cases hcloses : m.closes (g e) = true
    · rw [cut_of_closes (m := m.comap g) hcloses, cut_of_closes hcloses, List.map_append, ih]
      cases window <;> rfl
    · match window with
      | none =>
        rw [cut_opens (m := m.comap g) hcloses, ih, Option.map_none, cut_opens hcloses]
        rfl
      | some (opened, held) =>
        rw [Option.map_some]
        by_cases htime : m.time (g e) < opened + m.windowMs
        · rw [cut_inside (m := m.comap g) hcloses htime, ih, cut_inside hcloses htime,
            Option.map_some, List.map_append]
          rfl
        · rw [cut_after (m := m.comap g) hcloses htime, List.map_cons, ih,
            cut_after hcloses htime]
          rfl

theorem windows_map (g : β → α) (events : List β) :
    (windows (m.comap g) events).map (·.map g) = windows m (events.map g) :=
  cut_map g none events

theorem map_fst_counted (bucket : Option Bucket) (events : List α) :
    (counted m bucket events).map Prod.fst = events := by
  induction events generalizing bucket with
  | nil => rfl
  | cons e rest ih => rw [counted, List.map_cons, ih]

/-! ## The counter counts -/

/-- Two events of a window: what the first one adds is in the bucket that the second one finds. -/
def Before (m : Meter α) (p q : α × Bucket) : Prop :=
  p.2.count + m.weight p.1 ≤ q.2.count ∧ p.2.resetAt = q.2.resetAt

/-- The bucket of an open window. -/
structure Holds (m : Meter α) (opened : Int) (held : List (α × Bucket)) (bucket : Bucket) : Prop where
  resetAt : bucket.resetAt = opened + m.windowMs
  pairwise : held.Pairwise (Before m)
  counted : ∀ p ∈ held, p.2.count + m.weight p.1 ≤ bucket.count ∧ p.2.resetAt = bucket.resetAt
  inside : ∀ p ∈ held, m.time p.1 < p.2.resetAt

/-- What a window says of its events. -/
structure IsWindow (m : Meter α) (held : List (α × Bucket)) : Prop where
  pairwise : held.Pairwise (Before m)
  inside : ∀ p ∈ held, m.time p.1 < p.2.resetAt

section

variable {opened : Int} {held : List (α × Bucket)} {bucket : Bucket} {e : α}

theorem Holds.isWindow (h : Holds m opened held bucket) : IsWindow m held :=
  ⟨h.pairwise, h.inside⟩

/-- A bucket that has just been opened. -/
theorem holds_opened (hwindow : 0 < m.windowMs) (e : α) :
    Holds m (m.time e) [(e, ⟨0, m.time e + m.windowMs⟩)]
      ⟨0 + m.weight e, m.time e + m.windowMs⟩ where
  resetAt := rfl
  pairwise := List.pairwise_singleton ..
  counted p hp := by
    obtain rfl := List.mem_singleton.mp hp
    exact ⟨le_rfl, rfl⟩
  inside p hp := by
    obtain rfl := List.mem_singleton.mp hp
    dsimp only
    omega

/-- An event inside of the window. -/
theorem Holds.append (h : Holds m opened held bucket) (htime : m.time e < opened + m.windowMs) :
    Holds m opened (held ++ [(e, bucket)]) { bucket with count := bucket.count + m.weight e } where
  resetAt := h.resetAt
  pairwise := by
    refine List.pairwise_append.mpr ⟨h.pairwise, List.pairwise_singleton .., fun p hp q hq => ?_⟩
    obtain rfl := List.mem_singleton.mp hq
    exact h.counted p hp
  counted p hp := by
    obtain hp | hp := List.mem_append.mp hp
    · have hcount := h.counted p hp
      exact ⟨hcount.1.trans (Nat.le_add_right ..), hcount.2⟩
    · obtain rfl := List.mem_singleton.mp hp
      exact ⟨le_rfl, rfl⟩
  inside p hp := by
    obtain hp | hp := List.mem_append.mp hp
    · exact h.inside p hp
    · obtain rfl := List.mem_singleton.mp hp
      rw [h.resetAt]
      exact htime

end

/-- An open window and its bucket. -/
inductive Follows (m : Meter α) : Option (Int × List (α × Bucket)) → Option Bucket → Prop
  | closed : Follows m none none
  | opened {opened : Int} {held : List (α × Bucket)} {bucket : Bucket}
      (h : Holds m opened held bucket) : Follows m (some (opened, held)) (some bucket)

theorem found_of_lt {bucket : Bucket} {time : Int} (h : time < bucket.resetAt) :
    found m (some bucket) time = bucket := by
  rw [found, Option.filter_some, if_pos (decide_eq_true h)]
  rfl

theorem found_of_le {bucket : Bucket} {time : Int} (h : bucket.resetAt ≤ time) :
    found m (some bucket) time = ⟨0, time + m.windowMs⟩ := by
  rw [found, Option.filter_some, if_neg (by rw [decide_eq_true_eq]; exact not_lt.mpr h)]
  rfl

theorem lt_resetAt_found (hwindow : 0 < m.windowMs) (bucket : Option Bucket) (time : Int) :
    time < (found m bucket time).resetAt := by
  match bucket with
  | none =>
    rw [found, Option.filter_none, Option.getD_none]
    dsimp only
    omega
  | some bucket =>
    by_cases h : time < bucket.resetAt
    · rwa [found_of_lt h]
    · rw [found_of_le (not_lt.mp h)]
      dsimp only
      omega

theorem next_of_closes {bucket : Option Bucket} {e : α} (h : m.closes e = true) :
    next m bucket e = none :=
  if_pos h

theorem next_of_not_closes {bucket : Option Bucket} {e : α} (h : ¬ m.closes e = true) :
    next m bucket e = some { found m bucket (m.time e) with
      count := (found m bucket (m.time e)).count + m.weight e } :=
  if_neg h

theorem isWindow_of_mem_cut (hwindow : 0 < m.windowMs) {events : List α}
    {window : Option (Int × List (α × Bucket))} {bucket : Option Bucket}
    (h : Follows m window bucket) :
    ∀ w ∈ cut (m.comap Prod.fst) window (counted m bucket events), IsWindow m w := by
  induction events generalizing window bucket with
  | nil =>
    cases h with
    | closed => exact fun w hw => absurd hw List.not_mem_nil
    | opened h =>
      intro w hw
      obtain rfl := List.mem_singleton.mp hw
      exact h.isWindow
  | cons e rest ih =>
    intro w hw
    rw [counted] at hw
    by_cases hcloses : m.closes e = true
    · rw [cut_of_closes (m := m.comap Prod.fst) (e := (e, _)) hcloses, next_of_closes hcloses] at hw
      obtain hw | hw := List.mem_append.mp hw
      · cases h with
        | closed => exact absurd hw List.not_mem_nil
        | opened h =>
          obtain rfl := List.mem_singleton.mp hw
          exact h.isWindow
      · exact ih .closed w hw
    · rw [next_of_not_closes hcloses] at hw
      cases h with
      | closed =>
        rw [cut_opens (m := m.comap Prod.fst) (e := (e, _)) hcloses] at hw
        exact ih (.opened (holds_opened hwindow e)) w hw
      | @opened opened held bucket h =>
        by_cases htime : m.time e < opened + m.windowMs
        · rw [cut_inside (m := m.comap Prod.fst) (e := (e, _)) hcloses htime,
            found_of_lt (by rwa [h.resetAt])] at hw
          exact ih (.opened (h.append htime)) w hw
        · rw [cut_after (m := m.comap Prod.fst) (e := (e, _)) hcloses htime,
            found_of_le (by rw [h.resetAt]; exact not_lt.mp htime)] at hw
          obtain rfl | hw := List.mem_cons.mp hw
          · exact h.isWindow
          · exact ih (.opened (holds_opened hwindow e)) w hw

/-- The windows of events are those of the counted events. -/
theorem exists_counted_window (hwindow : 0 < m.windowMs) {events w : List α}
    (h : w ∈ windows m events) :
    ∃ held, held.map Prod.fst = w ∧ IsWindow m held ∧
      held.Sublist ((counted m none events).filter fun p => !m.closes p.1) := by
  rw [← map_fst_counted (m := m) none events, ← windows_map] at h
  obtain ⟨held, hheld, rfl⟩ := List.mem_map.mp h
  refine ⟨held, rfl, isWindow_of_mem_cut hwindow .closed held hheld, ?_⟩
  have hflat : held.Sublist (windows (m.comap Prod.fst) (counted m none events)).flatten :=
    List.sublist_flatten_of_mem hheld
  rwa [flatten_windows] at hflat

/-! ## Few events find little -/

/-- In a window the buckets that are found grow. -/
theorem length_filter_count_lt {held : List (α × Bucket)} (h : held.Pairwise (Before m))
    (hweight : ∀ p ∈ held, 0 < m.weight p.1) (limit : Nat) :
    (held.filter fun p => decide (p.2.count < limit)).length ≤ limit := by
  have hgrow : (held.map fun p => p.2.count).Pairwise (· < ·) := by
    rw [List.pairwise_map]
    refine h.imp_of_mem fun hp _ hbefore => ?_
    exact (Nat.lt_add_of_pos_right (hweight _ hp)).trans_le hbefore.1
  have hfew : ((held.map fun p => p.2.count).filter fun n => decide (n < limit)).Subperm
      (List.range limit) :=
    List.subperm_of_subset ((hgrow.imp Nat.ne_of_lt).filter _) fun n hn =>
      List.mem_range.mpr (of_decide_eq_true (List.mem_filter.mp hn).2)
  have hlength := hfew.length_le
  rw [List.filter_map, List.length_map, List.length_range] at hlength
  exact hlength

section

variable {events : List α} {admitted : α → Bool} {limit : Nat}

theorem length_filter_map_fst (held : List (α × Bucket)) :
    ((held.map Prod.fst).filter admitted).length = held.countP fun p => admitted p.1 := by
  rw [← List.countP_eq_length_filter, List.countP_map]
  rfl

theorem mem_of_sublist_counted {held : List (α × Bucket)} {p : α × Bucket}
    (h : held.Sublist ((counted m none events).filter fun p => !m.closes p.1)) (hp : p ∈ held) :
    p ∈ counted m none events ∧ p.1 ∈ events ∧ m.closes p.1 = false := by
  obtain ⟨hcounted, hcloses⟩ := List.mem_filter.mp (h.subset hp)
  refine ⟨hcounted, ?_, by simpa using hcloses⟩
  rw [← map_fst_counted (m := m) none events]
  exact List.mem_map_of_mem hcounted

/-- Where only events are admitted that find less than the limit, no window has more of them. -/
theorem length_filter_le (hwindow : 0 < m.windowMs) (hweight : ∀ e ∈ events, 0 < m.weight e)
    (h : ∀ p ∈ counted m none events, m.closes p.1 = false → admitted p.1 = true →
      p.2.count < limit) :
    ∀ w ∈ windows m events, (w.filter admitted).length ≤ limit := by
  intro w hw
  obtain ⟨held, rfl, hheld, hsub⟩ := exists_counted_window hwindow hw
  have hfew := length_filter_count_lt hheld.pairwise
    (fun p hp => hweight _ (mem_of_sublist_counted hsub hp).2.1) limit
  rw [← List.countP_eq_length_filter] at hfew
  rw [length_filter_map_fst]
  refine (List.countP_mono_left fun p hp hadmitted => decide_eq_true ?_).trans hfew
  obtain ⟨hcounted, -, hcloses⟩ := mem_of_sublist_counted hsub hp
  exact h p hcounted hcloses hadmitted

/-- The same where an event is admitted if it leaves less than the limit, or if the window is over
when it ends; the next event begins after it has ended. -/
theorem length_filter_le_of_ends (hwindow : 0 < m.windowMs) (hweight : ∀ e ∈ events, 0 < m.weight e)
    (hlimit : 0 < limit) {ends : α → Int}
    (horder : events.Pairwise fun a b =>
      m.closes a = false → m.closes b = false → ends a ≤ m.time b)
    (h : ∀ p ∈ counted m none events, m.closes p.1 = false → admitted p.1 = true →
      p.2.count + m.weight p.1 < limit ∨ p.2.resetAt ≤ ends p.1) :
    ∀ w ∈ windows m events, (w.filter admitted).length ≤ limit := by
  intro w hw
  obtain ⟨held, rfl, hheld, hsub⟩ := exists_counted_window hwindow hw
  rw [length_filter_map_fst]
  obtain rfl | ⟨earlier, last, rfl⟩ := List.eq_nil_or_concat' held
  · exact Nat.zero_le _
  · have hlater : (counted m none events).Pairwise fun p q =>
        m.closes p.1 = false → m.closes q.1 = false → ends p.1 ≤ m.time q.1 := by
      rw [← map_fst_counted (m := m) none events, List.pairwise_map] at horder
      exact horder
    obtain ⟨-, -, hends⟩ := List.pairwise_append.mp
      (hlater.sublist (hsub.trans List.filter_sublist))
    obtain ⟨hpairs, -, hbefore⟩ := List.pairwise_append.mp hheld.pairwise
    have hlast : last ∈ [last] := List.mem_singleton_self last
    have hmem : ∀ p ∈ earlier, p ∈ earlier ++ [last] := fun p hp => List.mem_append_left _ hp
    -- before the last event the window was not over
    have hfew := length_filter_count_lt hpairs
      (fun p hp => hweight _ (mem_of_sublist_counted hsub (hmem p hp)).2.1) (limit - 1)
    have hearlier : earlier.countP (fun p => admitted p.1) ≤
        earlier.countP fun p => decide (p.2.count < limit - 1) := by
      refine List.countP_mono_left fun p hp hadmitted => decide_eq_true ?_
      obtain ⟨hcounted, hevent, hcloses⟩ := mem_of_sublist_counted hsub (hmem p hp)
      have hopen : ends p.1 < p.2.resetAt := by
        have hin := hheld.inside last (List.mem_append_right _ hlast)
        have hreset := (hbefore p hp last hlast).2
        have hend := hends p hp last hlast hcloses
          (mem_of_sublist_counted hsub (List.mem_append_right _ hlast)).2.2
        omega
      have hleft := (h p hcounted hcloses hadmitted).resolve_right (not_le.mpr hopen)
      have hpos := hweight _ hevent
      omega
    rw [← List.countP_eq_length_filter] at hfew
    have hone : [last].countP (fun p => admitted p.1) ≤ 1 := List.countP_le_length
    rw [List.countP_append]
    omega

end

/-! ## Many keys -/

section

variable {κ : Type} (meter : κ → Meter α) (touches : κ → α → Bool)

/-- The buckets of all keys after an event. -/
def enter (buckets : κ → Option Bucket) (e : α) (key : κ) : Option Bucket :=
  if touches key e then next (meter key) (buckets key) e else buckets key

def ledgers (buckets : κ → Option Bucket) : List α → List (α × (κ → Option Bucket))
  | [] => []
  | e :: rest => (e, buckets) :: ledgers (enter meter touches buckets e) rest

variable {touches}

/-- The events of a key find the buckets of the ledger. -/
theorem exists_ledger_of_mem_counted (buckets : κ → Option Bucket) {events : List α} {key : κ}
    {p : α × Bucket} (h : p ∈ counted (meter key) (buckets key) (events.filter (touches key))) :
    touches key p.1 = true ∧ ∃ before, (p.1, before) ∈ ledgers meter touches buckets events ∧
      p.2 = found (meter key) (before key) ((meter key).time p.1) := by
  induction events generalizing buckets with
  | nil => exact absurd h List.not_mem_nil
  | cons e rest ih =>
    have hlater : p ∈ counted (meter key) (enter meter touches buckets e key)
          (rest.filter (touches key)) →
        touches key p.1 = true ∧ ∃ before,
          (p.1, before) ∈ ledgers meter touches buckets (e :: rest) ∧
          p.2 = found (meter key) (before key) ((meter key).time p.1) := by
      intro hp
      obtain ⟨htouches, before, hbefore, hfound⟩ := ih _ hp
      exact ⟨htouches, before, List.mem_cons_of_mem _ hbefore, hfound⟩
    by_cases htouches : touches key e = true
    · rw [List.filter_cons_of_pos htouches, counted] at h
      obtain rfl | h := List.mem_cons.mp h
      · exact ⟨htouches, buckets, List.mem_cons_self .., rfl⟩
      · exact hlater (by rwa [enter, if_pos htouches])
    · rw [List.filter_cons_of_neg htouches] at h
      exact hlater (by rwa [enter, if_neg htouches])

end

end FixedWindow
