import Mathlib.Data.List.Basic
import Mathlib.Logic.Function.Basic

/-!
# Entries laid over a partial map

* `overlay` — the entries of a list over a partial map, one after another.
* `overlay_concat`, `isSome_overlay` — one entry more, and the keys that have a value keep one.
-/

set_option autoImplicit false

namespace Overlay

variable {κ ν : Type} [DecidableEq κ]

def overlay (m : κ → Option ν) (entries : List (κ × ν)) : κ → Option ν :=
  entries.foldl (fun m entry => Function.update m entry.1 (some entry.2)) m

theorem overlay_concat (m : κ → Option ν) (entries : List (κ × ν)) (entry : κ × ν) :
    overlay m (entries ++ [entry]) =
      Function.update (overlay m entries) entry.1 (some entry.2) :=
  List.foldl_concat ..

/-- A key that has a value keeps one. -/
theorem isSome_overlay {m : κ → Option ν} {key : κ} (h : (m key).isSome = true)
    (entries : List (κ × ν)) : (overlay m entries key).isSome = true := by
  induction entries generalizing m with
  | nil => exact h
  | cons entry entries ih =>
    refine ih ?_
    dsimp only
    by_cases heq : key = entry.1
    · rw [heq, Function.update_self]
      rfl
    · rwa [Function.update_of_ne heq]

end Overlay
