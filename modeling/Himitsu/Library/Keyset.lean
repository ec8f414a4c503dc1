import Mathlib

/-!
# Keyset paging

A reader walks a list of rows in descending order of a key.  Each page holds at most `limit`
rows; the next page starts below a cursor made from the last row shown.  The cursor may lie
below that row's key, as when the key loses precision on its way through the reader.

* `drain` — the rows that the walk shows, page after page.
* `drain_terminates` — the walk ends.
* `drain_sublist` — it shows no row twice and none out of order.
* `drain_eq_iff` — it shows every row exactly when no page boundary skips one (`Boundaries`).
-/

set_option autoImplicit false

namespace Keyset

variable {ρ K : Type} [LinearOrder K] (key cursor : ρ → K) (limit : Nat)

/-- Rows in strictly descending order of their keys. -/
def Descending (rows : List ρ) : Prop := rows.Pairwise fun a b => key b < key a

/-- What is left to show after a page that ends with `last`. -/
def below (last : ρ) (rows : List ρ) : List ρ := rows.filter fun row => key row < cursor last

/-- The rows shown from `rest` on; `none` when the fuel does not suffice. -/
def drain : Nat → List ρ → Option (List ρ)
  | 0, _ => none
  | fuel + 1, rest =>
    if limit < rest.length then
      match (rest.take limit).getLast? with
      | none => some []
      | some last => (drain fuel (below key cursor last rest)).map (rest.take limit ++ ·)
    else some rest

/-- At every page boundary the first row of the next page lies below the cursor. -/
def Boundaries (rows : List ρ) : Prop :=
  ∀ k last next, rows[(k + 1) * limit - 1]? = some last → rows[(k + 1) * limit]? = some next →
    key next < cursor last

variable {key cursor limit}

theorem Descending.sublist {rows sub : List ρ} (h : Descending key rows) (hs : sub.Sublist rows) :
    Descending key sub :=
  List.Pairwise.sublist hs h

theorem below_sublist (last : ρ) (rows : List ρ) : (below key cursor last rows).Sublist rows :=
  List.filter_sublist

theorem below_below {prev last : ρ} (h : cursor last ≤ cursor prev) (rows : List ρ) :
    below key cursor last (below key cursor prev rows) = below key cursor last rows := by
  unfold below
  rw [List.filter_filter]
  refine List.filter_congr fun row _ => ?_
  simpa using fun hlt => lt_of_lt_of_le hlt h

/-- Two descending lists of the same rows are equal. -/
theorem Descending.eq_of_perm {rows rows' : List ρ} (h : Descending key rows)
    (h' : Descending key rows') (hp : rows.Perm rows') : rows = rows' :=
  List.Perm.eq_of_pairwise (fun _ _ _ _ hab hba => absurd hba (lt_asymm hab)) h h' hp

/-- A full page is not shown again. -/
theorem below_eq_drop {rows : List ρ} (hd : Descending key rows) (hc : ∀ r, cursor r ≤ key r)
    {last : ρ} (hlast : (rows.take limit).getLast? = some last) :
    below key cursor last rows = below key cursor last (rows.drop limit) := by
  have hpage : ∀ row ∈ rows.take limit, cursor last ≤ key row := by
    intro row hrow
    have htake : Descending key (rows.take limit) := hd.sublist (List.take_sublist _ _)
    rw [List.getLast?_eq_some_iff] at hlast
    obtain ⟨init, hinit⟩ := hlast
    rw [hinit] at hrow htake
    rcases List.mem_append.mp hrow with hrow | hrow
    · have hlt := (List.pairwise_append.mp htake).2.2 row hrow last (by simp)
      exact (hc last).trans hlt.le
    · rw [List.mem_singleton.mp hrow]
      exact hc last
  have hnone : (rows.take limit).filter (fun row => key row < cursor last) = [] := by
    rw [List.filter_eq_nil_iff]
    intro row hrow
    simpa using hpage row hrow
  unfold below
  conv_lhs => rw [← List.take_append_drop limit rows]
  rw [List.filter_append, hnone, List.nil_append]

/-- The first row below the cursor makes all later ones lie below it. -/
theorem below_eq_self {rows : List ρ} (hd : Descending key rows) {last next : ρ}
    (hhead : rows.head? = some next) (hlt : key next < cursor last) :
    below key cursor last rows = rows := by
  cases rows with
  | nil => rfl
  | cons row rows =>
    cases Option.some.inj hhead
    unfold below
    rw [List.filter_eq_self]
    intro r hr
    rcases List.mem_cons.mp hr with rfl | hr
    · simpa using hlt
    · simpa using (List.rel_of_pairwise_cons hd hr).trans hlt

theorem getLast_take {rows : List ρ} (hpos : 0 < limit) (hlt : limit < rows.length) :
    ∃ last, (rows.take limit).getLast? = some last ∧ rows[limit - 1]? = some last := by
  have hget : limit - 1 < rows.length := by omega
  refine ⟨rows[limit - 1], ?_, List.getElem?_eq_getElem hget⟩
  rw [List.getLast?_eq_getElem?, List.length_take, Nat.min_eq_left hlt.le,
    List.getElem?_take_of_lt (by omega), List.getElem?_eq_getElem hget]

/-- One page of the walk. -/
theorem drain_step {rows : List ρ} (hd : Descending key rows) (hc : ∀ r, cursor r ≤ key r)
    (hpos : 0 < limit) (hlt : limit < rows.length) (fuel : Nat) :
    ∃ last, rows[limit - 1]? = some last ∧
      drain key cursor limit (fuel + 1) rows =
        (drain key cursor limit fuel (below key cursor last (rows.drop limit))).map
          (rows.take limit ++ ·) := by
  obtain ⟨last, hlast, hget⟩ := getLast_take hpos hlt
  refine ⟨last, hget, ?_⟩
  rw [drain, if_pos hlt, hlast]
  simp only [below_eq_drop hd hc hlast]

theorem drain_last {rows : List ρ} (hle : rows.length ≤ limit) (fuel : Nat) :
    drain key cursor limit (fuel + 1) rows = some rows := by
  rw [drain, if_neg (Nat.not_lt.mpr hle)]

/-- **The walk ends**: fuel for one page per row suffices. -/
theorem drain_terminates (hc : ∀ r, cursor r ≤ key r) (hpos : 0 < limit) {fuel : Nat}
    {rows : List ρ} (hd : Descending key rows) (hfuel : rows.length < fuel) :
    ∃ out, drain key cursor limit fuel rows = some out := by
  induction fuel generalizing rows with
  | zero => omega
  | succ fuel ih =>
    rcases Nat.lt_or_ge limit rows.length with hlt | hle
    · obtain ⟨last, -, hstep⟩ := drain_step hd hc hpos hlt fuel
      have hsub : (below key cursor last (rows.drop limit)).Sublist (rows.drop limit) :=
        below_sublist _ _
      have hlen := hsub.length_le
      rw [List.length_drop] at hlen
      obtain ⟨out, hout⟩ := ih (hd.sublist (hsub.trans (List.drop_sublist _ _))) (by omega)
      exact ⟨rows.take limit ++ out, by rw [hstep, hout]; rfl⟩
    · exact ⟨rows, drain_last hle fuel⟩

/-- **Every row shown is shown once and in order.** -/
theorem drain_sublist (hc : ∀ r, cursor r ≤ key r) (hpos : 0 < limit) {fuel : Nat}
    {rows out : List ρ} (hd : Descending key rows)
    (h : drain key cursor limit fuel rows = some out) : out.Sublist rows := by
  induction fuel generalizing rows out with
  | zero => cases h
  | succ fuel ih =>
    rcases Nat.lt_or_ge limit rows.length with hlt | hle
    · obtain ⟨last, -, hstep⟩ := drain_step hd hc hpos hlt fuel
      rw [hstep, Option.map_eq_some_iff] at h
      obtain ⟨rest, hrest, rfl⟩ := h
      have hsub : (below key cursor last (rows.drop limit)).Sublist (rows.drop limit) :=
        below_sublist _ _
      have htail := (ih (hd.sublist (hsub.trans (List.drop_sublist _ _))) hrest).trans hsub
      conv_rhs => rw [← List.take_append_drop limit rows]
      exact htail.append_left _
    · rw [drain_last hle] at h
      cases h
      exact List.Sublist.refl _

/-- The boundaries of a list are the first one and those of the rows after the first page. -/
theorem boundaries_iff {rows : List ρ} {last next : ρ} (hpos : 0 < limit)
    (hlast : rows[limit - 1]? = some last) (hnext : rows[limit]? = some next) :
    Boundaries key cursor limit rows ↔
      key next < cursor last ∧ Boundaries key cursor limit (rows.drop limit) := by
  have hshift : ∀ k, limit + ((k + 1) * limit - 1) = (k + 1 + 1) * limit - 1 ∧
      limit + (k + 1) * limit = (k + 1 + 1) * limit := by
    intro k
    have hmul : (k + 1 + 1) * limit = (k + 1) * limit + limit := Nat.succ_mul _ _
    have hle : 0 < (k + 1) * limit := by positivity
    omega
  constructor
  · intro h
    refine ⟨h 0 last next (by simpa using hlast) (by simpa using hnext), ?_⟩
    intro k l n hl hn
    rw [List.getElem?_drop] at hl hn
    exact h (k + 1) l n ((hshift k).1 ▸ hl) ((hshift k).2 ▸ hn)
  · rintro ⟨hhead, htail⟩ k l n hl hn
    cases k with
    | zero =>
      simp only [Nat.zero_add, Nat.one_mul] at hl hn
      rw [hlast] at hl
      rw [hnext] at hn
      cases hl
      cases hn
      exact hhead
    | succ k =>
      refine htail k l n ?_ ?_
      · rw [List.getElem?_drop, (hshift k).1]
        exact hl
      · rw [List.getElem?_drop, (hshift k).2]
        exact hn

/-- **The walk shows every row exactly when no page boundary skips one.** -/
theorem drain_eq_iff (hc : ∀ r, cursor r ≤ key r) (hpos : 0 < limit) {fuel : Nat}
    {rows out : List ρ} (hd : Descending key rows)
    (h : drain key cursor limit fuel rows = some out) :
    out = rows ↔ Boundaries key cursor limit rows := by
  induction fuel generalizing rows out with
  | zero => cases h
  | succ fuel ih =>
    rcases Nat.lt_or_ge limit rows.length with hlt | hle
    · obtain ⟨last, hlast, hstep⟩ := drain_step hd hc hpos hlt fuel
      have hnext : rows[limit]? = some rows[limit] := List.getElem?_eq_getElem hlt
      have htail : Descending key (rows.drop limit) := hd.sublist (List.drop_sublist _ _)
      have hhead : (rows.drop limit).head? = some rows[limit] := by
        rw [List.head?_drop, hnext]
      rw [hstep, Option.map_eq_some_iff] at h
      obtain ⟨rest, hrest, rfl⟩ := h
      rw [boundaries_iff hpos hlast hnext]
      have hcancel : rows.take limit ++ rest = rows ↔ rest = rows.drop limit := by
        conv_lhs => rhs; rw [← List.take_append_drop limit rows]
        exact List.append_right_inj _
      rw [hcancel]
      by_cases hkey : key rows[limit] < cursor last
      · rw [below_eq_self htail hhead hkey] at hrest
        simp only [hkey, true_and]
        exact ih htail hrest
      · -- the row at the boundary is skipped, so what follows is too short
        have hsub := drain_sublist hc hpos (htail.sublist (below_sublist _ _)) hrest
        simp only [hkey, false_and, iff_false]
        rintro rfl
        have hmem : rows[limit] ∈ rows.drop limit := List.mem_of_mem_head? hhead
        have hbelow := hsub.subset hmem
        simp only [below, List.mem_filter, decide_eq_true_eq] at hbelow
        exact hkey hbelow.2
    · rw [drain_last hle] at h
      cases h
      simp only [true_iff]
      intro k l n _ hn
      have hlen := (List.getElem?_eq_some_iff.mp hn).1
      have hmul : limit ≤ (k + 1) * limit := Nat.le_mul_of_pos_left limit (by omega)
      omega

end Keyset
