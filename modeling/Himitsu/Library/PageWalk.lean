import Mathlib

/-!
# Walking a collection page by page

A client that asks for one page after the other, from the offset that it has reached, and puts them
together until it takes the collection to be complete.

* `walk` — the loop of a client, over any server; `none` is a loop that has not ended yet.
* `Completes` — a loop that returns the collection after some number of requests, and no earlier.
* `completes_walk` — a walk over the slices of a collection, where the client stops exactly when it
  has all of it.
-/

set_option autoImplicit false

namespace PageWalk

variable {α ε : Type}

/-- A page, and the number of items in all if the server says. -/
structure Page (α : Type) where
  data : List α
  total : Option Nat

section

variable (request : Nat → Except ε (Page α)) (stops : Page α → List α → Bool)

/-- From an offset on, with the items that are already there. -/
def walk : Nat → List α → Nat → Option (Except ε (List α))
  | 0, _, _ => none
  | fuel + 1, all, offset =>
    match request offset with
    | .error error => some (.error error)
    | .ok page =>
      let all := all ++ page.data
      if stops page all then some (.ok all) else walk fuel all (offset + page.data.length)

end

/-- A loop that ends with a collection after some number of requests. -/
structure Completes (loop : Nat → Option (Except ε (List α))) (requests : Nat)
    (collection : List α) : Prop where
  returns : ∀ fuel, requests ≤ fuel → loop fuel = some (.ok collection)
  pending : ∀ fuel, fuel < requests → loop fuel = none

/-- The pages of a collection; an empty one has a page, too. -/
def pages (size length : Nat) : Nat := max 1 ((length + size - 1) / size)

theorem pages_le_iff {size length fuel : Nat} (hsize : 0 < size) :
    pages size length ≤ fuel ↔ 0 < fuel ∧ length ≤ fuel * size := by
  rw [pages, max_le_iff, Nat.div_le_iff_le_mul_add_pred hsize, Nat.mul_comm size fuel]
  constructor
  · rintro ⟨hone, hlength⟩
    exact ⟨hone, by omega⟩
  · rintro ⟨hone, hlength⟩
    exact ⟨hone, by omega⟩

variable {request : Nat → Except ε (Page α)} {stops : Page α → List α → Bool}
  {collection : List α} {size : Nat}

/-- What a server of slices and its client agree on: the client stops when it has everything. -/
def Agrees (request : Nat → Except ε (Page α)) (stops : Page α → List α → Bool) (size : Nat)
    (collection : List α) : Prop :=
  ∀ offset ≤ collection.length, ∃ total,
    request offset = .ok ⟨(collection.drop offset).take size, total⟩ ∧
      stops ⟨(collection.drop offset).take size, total⟩ (collection.take (offset + size)) =
        decide (collection.length ≤ offset + size)

theorem walk_eq (h : Agrees request stops size collection) {offset : Nat}
    (hoffset : offset ≤ collection.length) (fuel : Nat) :
    walk request stops fuel (collection.take offset) offset =
      if 0 < fuel ∧ collection.length ≤ offset + fuel * size then some (.ok collection)
      else none := by
  induction fuel generalizing offset with
  | zero => rfl
  | succ fuel ih =>
    obtain ⟨total, hrequest, hstops⟩ := h offset hoffset
    have hpage : collection.take offset ++ (collection.drop offset).take size =
        collection.take (offset + size) := List.take_add.symm
    rw [walk, hrequest]
    dsimp only
    rw [hpage, hstops]
    by_cases hlast : collection.length ≤ offset + size
    · have hall : collection.length ≤ offset + (fuel + 1) * size := by
        rw [Nat.succ_mul]
        omega
      rw [if_pos (decide_eq_true hlast), if_pos ⟨Nat.succ_pos fuel, hall⟩,
        List.take_of_length_le hlast]
    · have hlength : ((collection.drop offset).take size).length = size := by
        rw [List.length_take, List.length_drop]
        omega
      rw [if_neg (by simpa using hlast), hlength, ih (by omega)]
      refine if_congr ?_ rfl rfl
      rw [Nat.succ_mul]
      constructor
      · rintro ⟨-, hlength⟩
        exact ⟨Nat.succ_pos fuel, by omega⟩
      · rintro ⟨-, hlength⟩
        refine ⟨Nat.pos_of_ne_zero ?_, by omega⟩
        rintro rfl
        omega

/-- **Every item is returned once, in order**, after one request for each page. -/
theorem completes_walk (hsize : 0 < size) (h : Agrees request stops size collection) :
    Completes (fun fuel => walk request stops fuel [] 0) (pages size collection.length)
      collection := by
  have hwalk := walk_eq h (Nat.zero_le _)
  rw [List.take_zero] at hwalk
  constructor
  · intro fuel hfuel
    rw [hwalk, Nat.zero_add, if_pos ((pages_le_iff hsize).mp hfuel)]
  · intro fuel hfuel
    rw [hwalk, Nat.zero_add, if_neg fun hall => absurd ((pages_le_iff hsize).mpr hall) (by omega)]

end PageWalk
