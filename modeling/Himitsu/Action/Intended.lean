import Himitsu.Action.Run
import Himitsu.Library.AssocList

/-!
# What a run is to write

The names and the values that a step asks for, said of the fetched secrets and of the inputs.

* `Filters.Allows` — `include` and `exclude` let a key through; `kept` is the secrets with such
  keys, and `assigned` those that an object takes.
* `named` — secrets in the order of their keys, each with its value under its name.
* `intendedVariables`, `intendedOutputs` — the names and values for the two files of the runner.

Principal results: `selectSecrets_eq_assigned`, `exportedPairs_eq` — what a run selects, and what
its loops go over.
-/

set_option autoImplicit false

namespace Himitsu.Action

open JsString

/-! ## The reference -/

/-- An empty `include` lets every key through. -/
def Filters.Allows (filters : Filters) (key : JsString) : Prop :=
  (filters.included = [] ∨ key ∈ filters.included) ∧ key ∉ filters.excluded

instance (filters : Filters) (key : JsString) : Decidable (filters.Allows key) :=
  inferInstanceAs (Decidable ((_ ∨ _) ∧ _))

/-- The secrets that the filters let through. -/
def kept (inputs : Inputs) (secrets : Secrets.SecretRecord) : List Pair :=
  secrets.entries.filter fun entry => inputs.filters.Allows entry.1

/-- The kept secrets but for `__proto__`, which an assignment to an object does not add. -/
def assigned (inputs : Inputs) (secrets : Secrets.SecretRecord) : List Pair :=
  (kept inputs secrets).filter fun secret => secret.1 ≠ PROTO

def byKey (secrets : List Pair) : List Pair := secrets.insertionSort fun a b => a.1 ≤ b.1

/-- The name of a secret is its key behind the prefix. -/
def named (keyPrefix : KeyPrefix) (secrets : List Pair) : List Pair :=
  (byKey secrets).map fun secret => (keyPrefix.val ++ secret.1, secret.2)

/-- A secret whose name is no name of a variable is left out. -/
def intendedVariables (inputs : Inputs) (secrets : List Pair) : List Pair :=
  if inputs.exportTo = .env then
    (named inputs.keyPrefix secrets).filter fun pair => isEnvName pair.1
  else []

/-- The outputs of the action itself. -/
def ownOutputs (configVersion : Nat) (secrets : List Pair) : List Pair :=
  [(ofAscii "secret-count", ofNat secrets.length),
    (ofAscii "config-version", ofNat configVersion),
    (ofAscii "keys", (ofAscii ",").intercalate ((byKey secrets).map (·.1)))]

def intendedOutputs (inputs : Inputs) (configVersion : Nat) (secrets : List Pair) : List Pair :=
  (if inputs.exportTo = .outputs then named inputs.keyPrefix secrets else []) ++
    ownOutputs configVersion secrets

/-! ## What a run selects and names -/

theorem keeps_iff {filters : Filters} {key : JsString} :
    filters.keeps key = true ↔ filters.Allows key := by
  simp [Filters.keeps, Filters.Allows, List.isEmpty_iff]

/-- **A run selects the kept secrets, but for `__proto__`.** -/
theorem selectSecrets_eq_assigned (inputs : Inputs) (secrets : Secrets.SecretRecord) :
    selectSecrets inputs.filters secrets = assigned inputs secrets := by
  rw [selectSecrets_eq, assigned, kept, List.filter_filter]
  refine List.filter_congr fun entry _ => ?_
  rw [Bool.eq_iff_iff, Filters.selects, Bool.and_eq_true, Bool.and_eq_true, keeps_iff,
    decide_eq_true_eq, decide_eq_true_eq, and_comm]

theorem kept_sublist {inputs : Inputs} {secrets : Secrets.SecretRecord} :
    (kept inputs secrets).Sublist secrets.entries := List.filter_sublist

theorem kept_nodup (inputs : Inputs) (secrets : Secrets.SecretRecord) :
    ((kept inputs secrets).map (·.1)).Nodup :=
  secrets.nodup.sublist (kept_sublist.map _)

theorem assigned_nodup (inputs : Inputs) (secrets : Secrets.SecretRecord) :
    ((assigned inputs secrets).map (·.1)).Nodup :=
  (kept_nodup inputs secrets).sublist (List.filter_sublist.map _)

theorem byKey_perm (secrets : List Pair) : (byKey secrets).Perm secrets :=
  List.perm_insertionSort _ _

theorem sortedKeys_eq (secrets : List Pair) : sortedKeys secrets = (byKey secrets).map (·.1) :=
  (List.map_insertionSort _ _ Prod.fst secrets fun _ _ _ _ => Iff.rfl).symm

/-- **The loops of a run go over the secrets by their keys, each with its own value.** -/
theorem namedPairs_eq (keyPrefix : KeyPrefix) {secrets : List Pair}
    (h : (secrets.map (·.1)).Nodup) :
    namedPairs keyPrefix secrets = named keyPrefix secrets := by
  rw [namedPairs, named, sortedKeys_eq, List.map_map]
  refine List.map_congr_left fun secret hsecret => ?_
  have hlookup := AssocList.lookup_of_mem h ((byKey_perm secrets).subset hsecret)
  rw [Function.comp, valueOf, hlookup, Option.getD_some]

theorem summary_eq (configVersion : Nat) (secrets : List Pair) :
    summary configVersion (sortedKeys secrets) = ownOutputs configVersion secrets := by
  have hlength : (sortedKeys secrets).length = secrets.length := by
    rw [sortedKeys_eq, List.length_map, (byKey_perm secrets).length_eq]
  rw [summary, hlength, sortedKeys_eq]
  rfl

/-- The pairs of a run, in the order in which it writes them. -/
theorem exportedPairs_eq (inputs : Inputs) (configVersion : Nat) {secrets : List Pair}
    (h : (secrets.map (·.1)).Nodup) :
    exportedPairs inputs.exportTo (namedPairs inputs.keyPrefix secrets) ++
        summary configVersion (sortedKeys secrets) =
      intendedVariables inputs secrets ++ intendedOutputs inputs configVersion secrets := by
  rw [namedPairs_eq inputs.keyPrefix h, summary_eq]
  unfold exportedPairs intendedVariables intendedOutputs
  cases inputs.exportTo <;> rfl

end Himitsu.Action
