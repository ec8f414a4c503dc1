import Himitsu.Library.AssocList

/-!
# Sorting and grouping

* `Comparator` — a three-way comparison that is a total preorder; `thenBy` breaks its ties.
* `Comparator.sort` — the stable sort; `head?_sort` says which element comes first.
* `Listing` — the sorted duplicate-free list of what satisfies a predicate; there is one at most.
* `groupBy` — the elements of a list by a key, in the order in which the keys first occur.
-/

set_option autoImplicit false

namespace Sorting

/-! ## Comparators -/

structure Comparator (α : Type) where
  compare : α → α → Int
  symm : ∀ a b, compare a b < 0 ↔ 0 < compare b a
  trans : ∀ a b c, compare a b ≤ 0 → compare b c ≤ 0 → compare a c ≤ 0

namespace Comparator

variable {α β : Type}

theorem total (c : Comparator α) (a b : α) : c.compare a b ≤ 0 ∨ c.compare b a ≤ 0 := by
  have h := c.symm b a
  omega

/-- The comparison of a total preorder. -/
def ofLE [LE α] [DecidableLE α] [Std.Total (α := α) (· ≤ ·)] [IsTrans α (· ≤ ·)] :
    Comparator α where
  compare a b := if a ≤ b then if b ≤ a then 0 else -1 else 1
  symm a b := by
    have h := Std.Total.total (r := fun a b : α => a ≤ b) a b
    grind
  trans a b d := by
    have h := IsTrans.trans (r := fun a b : α => a ≤ b) a b d
    grind

def on (c : Comparator β) (f : α → β) : Comparator α where
  compare a b := c.compare (f a) (f b)
  symm a b := c.symm (f a) (f b)
  trans a b d := c.trans (f a) (f b) (f d)

/-- `c.compare(a, b) || d.compare(a, b)`. -/
def thenBy (c d : Comparator α) : Comparator α where
  compare a b := if c.compare a b = 0 then d.compare a b else c.compare a b
  symm a b := by
    have hc := c.symm a b
    have hc' := c.symm b a
    have hd := d.symm a b
    split <;> split <;> omega
  trans a b e hab hbe := by
    have hc := c.trans a b e
    have hbea := c.trans b e a
    have heab := c.trans e a b
    have hd := d.trans a b e
    have hsab := c.symm a b
    have hsba := c.symm b a
    have hsbe := c.symm b e
    have hseb := c.symm e b
    have hsae := c.symm a e
    have hsea := c.symm e a
    split at hab <;> split at hbe <;> split <;> omega

theorem thenBy_eq_zero {c d : Comparator α} {a b : α} :
    (c.thenBy d).compare a b = 0 ↔ c.compare a b = 0 ∧ d.compare a b = 0 := by
  simp only [thenBy]
  split <;> omega

/-! ## The stable sort -/

def le (c : Comparator α) (a b : α) : Prop := c.compare a b ≤ 0

instance (c : Comparator α) : DecidableRel c.le := fun _ _ => inferInstanceAs (Decidable (_ ≤ _))

instance (c : Comparator α) : Std.Total c.le := ⟨c.total⟩

instance (c : Comparator α) : IsTrans α c.le := ⟨c.trans⟩

/-- `sort((a, b) => c.compare(a, b))`. -/
def sort (c : Comparator α) (xs : List α) : List α := xs.insertionSort c.le

theorem sort_perm (c : Comparator α) (xs : List α) : (c.sort xs).Perm xs :=
  List.perm_insertionSort _ _

@[simp] theorem mem_sort {c : Comparator α} {xs : List α} {a : α} : a ∈ c.sort xs ↔ a ∈ xs :=
  List.mem_insertionSort _

theorem pairwise_sort (c : Comparator α) (xs : List α) : (c.sort xs).Pairwise c.le :=
  List.pairwise_insertionSort _ _

/-- Where no two elements tie, the sort does not see the order of its input. -/
theorem sort_eq_of_perm (c : Comparator α) {xs ys : List α} (h : xs.Perm ys)
    (hseparates : ∀ a ∈ xs, ∀ b ∈ xs, c.compare a b = 0 → a = b) : c.sort xs = c.sort ys := by
  have hperm : (c.sort xs).Perm (c.sort ys) := (c.sort_perm xs).trans (h.trans (c.sort_perm ys).symm)
  refine hperm.eq_of_pairwise (fun a b ha hb hab hba => ?_) (c.pairwise_sort xs) (c.pairwise_sort ys)
  have ha : a ∈ xs := mem_sort.mp ha
  have hb : b ∈ xs := h.mem_iff.mpr (mem_sort.mp hb)
  have hsymm := c.symm a b
  unfold le at hab hba
  exact hseparates a ha b hb (by omega)

/-- `a` comes before everything that it ties with, and after nothing. -/
def First (c : Comparator α) (a : α) (xs : List α) : Prop :=
  ∃ before after, xs = before ++ a :: after ∧ (∀ b ∈ before, c.compare a b < 0) ∧
    ∀ b ∈ after, c.compare a b ≤ 0

theorem head?_sort_cons (c : Comparator α) (x : α) (xs : List α) :
    (c.sort (x :: xs)).head? =
      match (c.sort xs).head? with
      | none => some x
      | some b => if c.compare x b ≤ 0 then some x else some b := by
  unfold sort
  rw [List.insertionSort_cons]
  cases xs.insertionSort c.le with
  | nil => rfl
  | cons b rest =>
    rw [List.orderedInsert_cons]
    by_cases hle : c.le x b
    · rw [if_pos hle]
      exact (if_pos hle).symm
    · rw [if_neg hle]
      exact (if_neg hle).symm

theorem head?_sort_le {c : Comparator α} {xs : List α} {a : α} (h : (c.sort xs).head? = some a) :
    ∀ b ∈ xs, c.compare a b ≤ 0 := by
  intro b hb
  have hsorted := c.pairwise_sort xs
  rw [← mem_sort (c := c)] at hb
  cases hsort : c.sort xs with
  | nil => rw [hsort] at h; cases h
  | cons first rest =>
    rw [hsort, List.head?_cons] at h
    obtain rfl := Option.some.inj h
    rw [hsort, List.pairwise_cons] at hsorted
    rw [hsort, List.mem_cons] at hb
    obtain rfl | hb := hb
    · exact (c.total b b).elim id id
    · exact hsorted.1 b hb

/-- The sort puts first what comes first. -/
theorem head?_sort {c : Comparator α} {xs : List α} {a : α} :
    (c.sort xs).head? = some a ↔ c.First a xs := by
  induction xs with
  | nil =>
    constructor
    · intro h
      cases h
    · rintro ⟨before, after, h, -⟩
      cases before <;> cases h
  | cons x xs ih =>
    rw [head?_sort_cons]
    cases hhead : (c.sort xs).head? with
    | none =>
      have hnil : xs = [] := by
        have hlength := (c.sort_perm xs).length_eq
        rw [List.head?_eq_none_iff.mp hhead] at hlength
        exact List.length_eq_zero_iff.mp hlength.symm
      subst hnil
      constructor
      · rintro h
        obtain rfl := Option.some.inj h
        exact ⟨[], [], rfl, by simp, by simp⟩
      · rintro ⟨before, after, h, -⟩
        cases before with
        | nil => rw [(List.cons.inj h).1]
        | cons _ before => cases before <;> cases (List.cons.inj h).2
    | some b =>
      have hleast := head?_sort_le hhead
      rw [hhead] at ih
      simp only
      constructor
      · intro h
        split at h
        · rename_i hle
          obtain rfl := Option.some.inj h
          exact ⟨[], xs, rfl, by simp, fun d hd => c.trans _ b d hle (hleast d hd)⟩
        · rename_i hle
          obtain ⟨before, after, rfl, hbefore, hafter⟩ := ih.mp h
          obtain rfl := Option.some.inj h
          have hlt : c.compare b x < 0 := by
            have hsymm := c.symm b x
            omega
          refine ⟨x :: before, after, rfl, fun d hd => ?_, hafter⟩
          obtain rfl | hd := List.mem_cons.mp hd
          · exact hlt
          · exact hbefore d hd
      · rintro ⟨before, after, h, hbefore, hafter⟩
        cases before with
        | nil =>
          obtain ⟨rfl, rfl⟩ := List.cons.inj h
          have hb : b ∈ xs := mem_sort.mp (List.mem_of_head? hhead)
          rw [if_pos (hafter b hb)]
        | cons y before =>
          obtain ⟨rfl, rfl⟩ := List.cons.inj h
          obtain rfl : b = a := Option.some.inj (ih.mpr
            ⟨before, after, rfl, fun d hd => hbefore d (List.mem_cons_of_mem _ hd), hafter⟩)
          have hlt := hbefore x (List.mem_cons_self ..)
          have hsymm := c.symm b x
          rw [if_neg (by omega)]

end Comparator

/-! ## Duplicate-free lists -/

section

variable {α : Type}

theorem nodup_eraseDups [BEq α] [LawfulBEq α] (xs : List α) : xs.eraseDups.Nodup := by
  induction hn : xs.length using Nat.strong_induction_on generalizing xs with
  | _ n ih =>
    cases xs with
    | nil => exact List.nodup_nil
    | cons a xs =>
      rw [List.eraseDups_cons, List.nodup_cons]
      refine ⟨by simp, ih _ ?_ _ rfl⟩
      have hle := List.length_filter_le (fun b => !b == a) xs
      rw [List.length_cons] at hn
      omega

variable [LE α] [DecidableLE α] [Std.Total (α := α) (· ≤ ·)] [IsTrans α (· ≤ ·)]
  [Std.Antisymm (α := α) (· ≤ ·)]

structure Listing (xs : List α) (p : α → Prop) : Prop where
  nodup : xs.Nodup
  sorted : xs.Pairwise (· ≤ ·)
  mem : ∀ a, a ∈ xs ↔ p a

omit [DecidableLE α] [Std.Total (α := α) (· ≤ ·)] [IsTrans α (· ≤ ·)] in
theorem Listing.eq {xs ys : List α} {p : α → Prop} (hx : Listing xs p) (hy : Listing ys p) :
    xs = ys := by
  have hperm : xs.Perm ys := (List.perm_ext_iff_of_nodup hx.nodup hy.nodup).mpr fun a =>
    (hx.mem a).trans (hy.mem a).symm
  exact hperm.eq_of_pairwise (fun a b _ _ hab hba => Std.Antisymm.antisymm a b hab hba)
    hx.sorted hy.sorted

omit [Std.Antisymm (α := α) (· ≤ ·)] in
/-- `[...xs].sort()`. -/
theorem listing_insertionSort {xs : List α} (h : xs.Nodup) {p : α → Prop}
    (hmem : ∀ a, a ∈ xs ↔ p a) : Listing (xs.insertionSort (· ≤ ·)) p :=
  ⟨(List.perm_insertionSort _ xs).nodup_iff.mpr h, List.pairwise_insertionSort _ _,
    fun a => (List.mem_insertionSort _).trans (hmem a)⟩

omit [DecidableLE α] [Std.Total (α := α) (· ≤ ·)] [IsTrans α (· ≤ ·)]
  [Std.Antisymm (α := α) (· ≤ ·)] in
theorem Listing.filter {xs : List α} {p : α → Prop} (h : Listing xs p) (q : α → Bool) :
    Listing (xs.filter q) fun a => p a ∧ q a = true :=
  ⟨h.nodup.filter q, h.sorted.filter q, fun a => by rw [List.mem_filter, h.mem]⟩

omit [DecidableLE α] [Std.Total (α := α) (· ≤ ·)] [IsTrans α (· ≤ ·)]
  [Std.Antisymm (α := α) (· ≤ ·)] in
theorem Listing.congr {xs : List α} {p q : α → Prop} (h : Listing xs p) (hpq : ∀ a, p a ↔ q a) :
    Listing xs q :=
  ⟨h.nodup, h.sorted, fun a => (h.mem a).trans (hpq a)⟩

end

/-! ## Groups -/

section

variable {κ α : Type} [DecidableEq κ]

/-- A `Map` from the keys to the elements that have them. -/
def groupBy (f : α → κ) (xs : List α) : List (κ × List α) :=
  xs.foldl (fun groups x => AssocList.set groups (f x) (((groups.lookup (f x)).getD []) ++ [x])) []

theorem groupBy_append_singleton (f : α → κ) (xs : List α) (x : α) :
    groupBy f (xs ++ [x]) =
      AssocList.set (groupBy f xs) (f x) (((groupBy f xs).lookup (f x)).getD [] ++ [x]) := by
  rw [groupBy, List.foldl_append]
  rfl

theorem lookup_groupBy (f : α → κ) (xs : List α) (key : κ) :
    (groupBy f xs).lookup key =
      if xs.filter (f · = key) = [] then none else some (xs.filter (f · = key)) := by
  induction xs using List.reverseRecOn with
  | nil => rfl
  | append_singleton xs x ih =>
    rw [groupBy_append_singleton, AssocList.lookup_set, List.filter_append]
    by_cases hkey : key = f x
    · subst hkey
      rw [if_pos rfl, ih]
      by_cases hnil : xs.filter (f · = f x) = []
      · rw [if_pos hnil, hnil]
        simp
      · rw [if_neg hnil]
        simp
    · have hne : f x ≠ key := Ne.symm hkey
      rw [if_neg hkey, ih]
      simp [hne]

theorem nodup_keys_groupBy (f : α → κ) (xs : List α) : ((groupBy f xs).map (·.1)).Nodup := by
  induction xs using List.reverseRecOn with
  | nil => exact List.nodup_nil
  | append_singleton xs x ih =>
    rw [groupBy_append_singleton]
    exact AssocList.nodup_set ih _ _

theorem mem_groupBy_iff_lookup {f : α → κ} {xs : List α} {key : κ} {group : List α} :
    (key, group) ∈ groupBy f xs ↔ (groupBy f xs).lookup key = some group := by
  constructor
  · exact fun hmem => AssocList.lookup_of_mem (nodup_keys_groupBy f xs) hmem
  · intro hlookup
    obtain ⟨before, after, hsplit, -⟩ := List.lookup_eq_some_iff.mp hlookup
    rw [hsplit]
    simp

theorem mem_groupBy {f : α → κ} {xs : List α} {key : κ} {group : List α} :
    (key, group) ∈ groupBy f xs ↔ group = xs.filter (f · = key) ∧ group ≠ [] := by
  rw [mem_groupBy_iff_lookup, lookup_groupBy]
  split
  · rename_i hnil
    constructor
    · intro h
      cases h
    · rintro ⟨rfl, hne⟩
      exact absurd hnil hne
  · rename_i hne
    constructor
    · intro h
      obtain rfl := Option.some.inj h
      exact ⟨rfl, hne⟩
    · rintro ⟨rfl, -⟩
      rfl

end

end Sorting
