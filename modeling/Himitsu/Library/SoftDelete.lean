import Mathlib

/-!
# Soft deletion in a tree

A node is deleted by a mark and can be restored. The deletion hides the active nodes that lie in
the deleted one, and the restoration brings back the nodes that this deletion hid.

* `Status`, `Forest` — the nodes with what they lie in, and their marks.
* `Action`, `Moves` — a node is created, deleted or restored, and runs of such actions.
* `WellFormed` — what holds of every forest that a run reaches; in particular an active node lies
  in active nodes only.

Principal results: `WellFormed.moves`; `frozen_of_deleted` — nothing in a deleted node changes
before it is restored; `restore_undoes_delete` — the restoration of a node brings every node in it
back to the status before the deletion.
-/

set_option autoImplicit false

namespace SoftDelete

variable {ι : Type}

/-- `hidden x` is the mark of a node that the deletion of `x` has deleted with it. -/
inductive Status (ι : Type) where
  | active
  | deleted
  | hidden (ancestor : ι)
  deriving DecidableEq

/-- A node without a status does not exist. -/
@[ext] structure Forest (ι : Type) where
  ancestors : ι → List ι
  status : ι → Option (Status ι)

inductive Action (ι : Type) where
  | insert (node : ι) (ancestors : List ι)
  | delete (node : ι)
  | restore (node : ι)

section

variable [DecidableEq ι]

def Forest.insert (F : Forest ι) (node : ι) (ancestors : List ι) : Forest ι where
  ancestors := Function.update F.ancestors node ancestors
  status := Function.update F.status node (some .active)

def Forest.delete (F : Forest ι) (x : ι) : Forest ι where
  ancestors := F.ancestors
  status n :=
    if F.status n = some .active then
      if n = x then some .deleted else if x ∈ F.ancestors n then some (.hidden x) else some .active
    else F.status n

def Forest.restore (F : Forest ι) (x : ι) : Forest ι where
  ancestors := F.ancestors
  status n := if n = x ∨ F.status n = some (.hidden x) then some .active else F.status n

def Action.apply : Action ι → Forest ι → Forest ι
  | .insert node ancestors, F => F.insert node ancestors
  | .delete node, F => F.delete node
  | .restore node, F => F.restore node

end

/-- A new node lies in active nodes, with all that they lie in; only the root of a deletion is
restored, and only into active nodes. -/
def Action.Enabled (F : Forest ι) : Action ι → Prop
  | .insert node ancestors => F.status node = none ∧
      (∀ a ∈ ancestors, F.status a = some .active ∧ ∀ b ∈ F.ancestors a, b ∈ ancestors) ∧
      ∀ a ∈ ancestors, ∀ b ∈ ancestors, a = b ∨ a ∈ F.ancestors b ∨ b ∈ F.ancestors a
  | .delete node => F.status node = some .active
  | .restore node => F.status node = some .deleted ∧
      ∀ a ∈ F.ancestors node, F.status a = some .active

/-- What a node lies in is a chain of nodes; a hidden node lies in a deleted one, with hidden nodes
between the two. -/
structure WellFormed (F : Forest ι) : Prop where
  closed : ∀ n, F.status n ≠ none → ∀ a ∈ F.ancestors n,
    F.status a ≠ none ∧ ∀ b ∈ F.ancestors a, b ∈ F.ancestors n
  irrefl : ∀ n, F.status n ≠ none → n ∉ F.ancestors n
  chain : ∀ n, F.status n ≠ none → ∀ a ∈ F.ancestors n, ∀ b ∈ F.ancestors n,
    a = b ∨ a ∈ F.ancestors b ∨ b ∈ F.ancestors a
  active : ∀ n, F.status n = some .active → ∀ a ∈ F.ancestors n, F.status a = some .active
  hidden : ∀ n x, F.status n = some (.hidden x) → x ∈ F.ancestors n ∧
    F.status x = some .deleted ∧
    ∀ b ∈ F.ancestors n, x ∈ F.ancestors b → F.status b = some (.hidden x)

theorem ne_none_of_eq {α : Type} {o : Option α} {a : α} (h : o = some a) : o ≠ none := by
  rw [h]
  exact Option.some_ne_none a

/-! ## One action -/

section

variable [DecidableEq ι] {F : Forest ι}

theorem delete_status_ne_none (x n : ι) :
    (F.delete x).status n ≠ none ↔ F.status n ≠ none := by
  simp only [Forest.delete]
  split
  · rename_i hactive
    simp only [hactive, ne_eq, reduceCtorEq, not_false_iff, iff_true]
    split
    · exact Option.some_ne_none _
    · split <;> exact Option.some_ne_none _
  · exact Iff.rfl

theorem restore_status_ne_none {x : ι} (hx : F.status x = some .deleted) (n : ι) :
    (F.restore x).status n ≠ none ↔ F.status n ≠ none := by
  simp only [Forest.restore]
  split
  · rename_i h
    refine iff_of_true (Option.some_ne_none _) ?_
    rcases h with rfl | h
    · exact ne_none_of_eq hx
    · exact ne_none_of_eq h
  · exact Iff.rfl

theorem delete_of_not_active {x n : ι} (h : F.status n ≠ some .active) :
    (F.delete x).status n = F.status n :=
  if_neg h

theorem restore_of_active {x n : ι} (h : F.status n = some .active) :
    (F.restore x).status n = some .active := by
  simp only [Forest.restore]
  split
  · rfl
  · exact h

theorem insert_of_ne {node : ι} {ancestors : List ι} {n : ι} (h : n ≠ node) :
    (F.insert node ancestors).status n = F.status n ∧
      (F.insert node ancestors).ancestors n = F.ancestors n :=
  ⟨Function.update_of_ne h _ _, Function.update_of_ne h _ _⟩

theorem insert_same (node : ι) (ancestors : List ι) :
    (F.insert node ancestors).status node = some .active ∧
      (F.insert node ancestors).ancestors node = ancestors :=
  ⟨Function.update_self .., Function.update_self ..⟩

theorem WellFormed.insert (h : WellFormed F) {node : ι} {ancestors : List ι}
    (henabled : Action.Enabled F (.insert node ancestors)) :
    WellFormed (F.insert node ancestors) := by
  obtain ⟨hfresh, hactive, hchain⟩ := henabled
  have hold : ∀ {a : ι}, F.status a ≠ none → a ≠ node := by
    rintro a ha rfl
    exact ha hfresh
  -- the ancestors of every node were there before
  have hanc : ∀ n, (F.insert node ancestors).status n ≠ none →
      ∀ a ∈ (F.insert node ancestors).ancestors n, F.status a ≠ none := by
    intro n hn a ha
    by_cases hnode : n = node
    · subst hnode
      rw [(insert_same ..).2] at ha
      exact ne_none_of_eq (hactive a ha).1
    · rw [(insert_of_ne hnode).1] at hn
      rw [(insert_of_ne hnode).2] at ha
      exact (h.closed n hn a ha).1
  refine ⟨fun n hn a ha => ?_, fun n hn hmem => ?_, fun n hn a ha b hb => ?_, fun n hn a ha => ?_,
    fun n x hn => ?_⟩
  · have hne := hold (hanc n hn a ha)
    rw [(insert_of_ne hne).1, (insert_of_ne hne).2]
    refine ⟨hanc n hn a ha, fun b hb => ?_⟩
    by_cases hnode : n = node
    · subst hnode
      rw [(insert_same ..).2] at ha ⊢
      exact (hactive a ha).2 b hb
    · rw [(insert_of_ne hnode).1] at hn
      rw [(insert_of_ne hnode).2] at ha ⊢
      exact (h.closed n hn a ha).2 b hb
  · have hne := hold (hanc n hn n hmem)
    rw [(insert_of_ne hne).1] at hn
    rw [(insert_of_ne hne).2] at hmem
    exact h.irrefl n hn hmem
  · have hnea := hold (hanc n hn a ha)
    have hneb := hold (hanc n hn b hb)
    rw [(insert_of_ne hnea).2, (insert_of_ne hneb).2]
    by_cases hnode : n = node
    · subst hnode
      rw [(insert_same ..).2] at ha hb
      exact hchain a ha b hb
    · rw [(insert_of_ne hnode).1] at hn
      rw [(insert_of_ne hnode).2] at ha hb
      exact h.chain n hn a ha b hb
  · rw [(insert_of_ne (hold (hanc n (ne_none_of_eq hn) a ha))).1]
    by_cases hnode : n = node
    · subst hnode
      rw [(insert_same ..).2] at ha
      exact (hactive a ha).1
    · rw [(insert_of_ne hnode).1] at hn
      rw [(insert_of_ne hnode).2] at ha
      exact h.active n hn a ha
  · by_cases hnode : n = node
    · subst hnode
      rw [(insert_same ..).1] at hn
      cases hn
    · have hanc' := hanc n (ne_none_of_eq hn)
      rw [(insert_of_ne hnode).1] at hn
      rw [(insert_of_ne hnode).2] at hanc' ⊢
      obtain ⟨hmem, hdeleted, hbetween⟩ := h.hidden n x hn
      rw [(insert_of_ne (hold (hanc' x hmem))).1]
      refine ⟨hmem, hdeleted, fun b hb hx => ?_⟩
      rw [(insert_of_ne (hold (hanc' b hb))).2] at hx
      rw [(insert_of_ne (hold (hanc' b hb))).1]
      exact hbetween b hb hx

theorem WellFormed.delete (h : WellFormed F) {x : ι} (hx : F.status x = some .active) :
    WellFormed (F.delete x) := by
  refine ⟨fun n hn a ha => ?_, fun n hn => ?_, fun n hn => ?_, fun n hn a ha => ?_,
    fun n y hn => ?_⟩
  · rw [delete_status_ne_none] at hn ⊢
    exact h.closed n hn a ha
  · exact h.irrefl n ((delete_status_ne_none x n).mp hn)
  · exact h.chain n ((delete_status_ne_none x n).mp hn)
  · -- a node that is still active does not lie in `x`, and neither does what it lies in
    simp only [Forest.delete] at hn ha ⊢
    split at hn
    · rename_i hactive
      split at hn
      · cases hn
      · split at hn
        · cases hn
        · rename_i hout
          have hclosed := h.closed n (ne_none_of_eq hactive) a ha
          rw [if_pos (h.active n hactive a ha), if_neg, if_neg fun hmem => hout (hclosed.2 x hmem)]
          rintro rfl
          exact hout ha
    · exact absurd hn ‹_›
  · by_cases hactive : F.status n = some .active
    · simp only [Forest.delete, if_pos hactive] at hn
      split at hn
      · cases hn
      · split at hn
        · rename_i hne hmem
          cases hn
          refine ⟨hmem, ?_, fun b hb hxb => ?_⟩
          · simp [Forest.delete, hx]
          · have hb' := h.active n hactive b hb
            have hbx : b ≠ x := by
              rintro rfl
              exact h.irrefl b (ne_none_of_eq hb') hxb
            simp only [Forest.delete] at hxb ⊢
            rw [if_pos hb', if_neg hbx, if_pos hxb]
        · cases hn
    · rw [delete_of_not_active hactive] at hn
      obtain ⟨hmem, hdeleted, hbetween⟩ := h.hidden n y hn
      refine ⟨hmem, ?_, fun b hb hyb => ?_⟩
      · rw [delete_of_not_active (by simp [hdeleted]), hdeleted]
      · have hb' := hbetween b hb hyb
        rw [delete_of_not_active (by simp [hb']), hb']

theorem WellFormed.restore (h : WellFormed F) {x : ι}
    (henabled : Action.Enabled F (.restore x)) : WellFormed (F.restore x) := by
  obtain ⟨hx, hanc⟩ := henabled
  refine ⟨fun n hn a ha => ?_, fun n hn => ?_, fun n hn => ?_, fun n hn a ha => ?_,
    fun n y hn => ?_⟩
  · rw [restore_status_ne_none hx] at hn ⊢
    exact h.closed n hn a ha
  · exact h.irrefl n ((restore_status_ne_none hx n).mp hn)
  · exact h.chain n ((restore_status_ne_none hx n).mp hn)
  · by_cases hback : n = x ∨ F.status n = some (.hidden x)
    · rcases hback with rfl | hhidden
      · exact restore_of_active (hanc a ha)
      · obtain ⟨hmem, -, hbetween⟩ := h.hidden n x hhidden
        rcases h.chain n (ne_none_of_eq hhidden) a ha x hmem with rfl | habove | hbelow
        · simp [Forest.restore]
        · exact restore_of_active (hanc a habove)
        · simp [Forest.restore, hbetween a ha hbelow]
    · simp only [Forest.restore, if_neg hback] at hn
      exact restore_of_active (h.active n hn a ha)
  · simp only [Forest.restore] at hn
    split at hn
    · cases hn
    · rename_i hback
      rw [not_or] at hback
      have hyx : y ≠ x := by
        rintro rfl
        exact hback.2 hn
      obtain ⟨hmem, hdeleted, hbetween⟩ := h.hidden n y hn
      refine ⟨hmem, ?_, fun b hb hyb => ?_⟩
      · simp [Forest.restore, hyx, hdeleted]
      · have hb' := hbetween b hb hyb
        have hbx : b ≠ x := by
          rintro rfl
          rw [hx] at hb'
          cases hb'
        simp [Forest.restore, hbx, hb', hyx]

theorem WellFormed.apply (h : WellFormed F) {a : Action ι} (henabled : a.Enabled F) :
    WellFormed (a.apply F) := by
  cases a with
  | insert node ancestors => exact h.insert henabled
  | delete node => exact h.delete henabled
  | restore node => exact h.restore henabled

/-- **Nothing in a deleted node changes before it is restored.** -/
theorem frozen_of_deleted (h : WellFormed F) {a : Action ι} (henabled : a.Enabled F) {x n : ι}
    (hx : F.status x = some .deleted) (hne : a ≠ .restore x) (hn : F.status n ≠ none)
    (hin : n = x ∨ x ∈ F.ancestors n) :
    (a.apply F).status n = F.status n ∧ (a.apply F).ancestors n = F.ancestors n := by
  cases a with
  | insert node ancestors =>
    refine insert_of_ne ?_
    rintro rfl
    exact hn henabled.1
  | delete y =>
    refine ⟨delete_of_not_active fun hactive => ?_, rfl⟩
    rcases hin with rfl | hmem
    · rw [hx] at hactive
      cases hactive
    · have hxactive := h.active n hactive x hmem
      rw [hx] at hxactive
      cases hxactive
  | restore y =>
    have hyx : y ≠ x := by
      rintro rfl
      exact hne rfl
    refine ⟨if_neg ?_, rfl⟩
    rintro (rfl | hhidden)
    · rcases hin with rfl | hmem
      · exact hyx rfl
      · have hxactive := henabled.2 x hmem
        rw [hx] at hxactive
        cases hxactive
    · obtain ⟨hmem', -, hbetween⟩ := h.hidden n y hhidden
      rcases hin with rfl | hmem
      · rw [hx] at hhidden
        cases hhidden
      · rcases h.chain n hn x hmem y hmem' with heq | habove | hbelow
        · exact hyx heq.symm
        · have hxactive := henabled.2 x habove
          rw [hx] at hxactive
          cases hxactive
        · have hxhidden := hbetween x hmem hbelow
          rw [hx] at hxhidden
          cases hxhidden

end

/-! ## Runs -/

section

variable [DecidableEq ι] {allowed : Action ι → Prop}

/-- One allowed action. -/
def Move (allowed : Action ι → Prop) (F F' : Forest ι) : Prop :=
  ∃ a, allowed a ∧ Action.Enabled F a ∧ F' = a.apply F

def Moves (allowed : Action ι → Prop) : Forest ι → Forest ι → Prop :=
  Relation.ReflTransGen (Move allowed)

theorem Moves.single {F : Forest ι} {a : Action ι} (ha : allowed a) (henabled : a.Enabled F) :
    Moves allowed F (a.apply F) :=
  Relation.ReflTransGen.single ⟨a, ha, henabled, rfl⟩

theorem Moves.mono {allowed' : Action ι → Prop} (h : ∀ a, allowed a → allowed' a)
    {F F' : Forest ι} (hmoves : Moves allowed F F') : Moves allowed' F F' := by
  refine Relation.ReflTransGen.mono (fun F F' hmove => ?_) _ _ hmoves
  obtain ⟨a, ha, henabled, heq⟩ := hmove
  exact ⟨a, h a ha, henabled, heq⟩

/-- **Every forest that a run reaches is well formed.** -/
theorem WellFormed.moves {F F' : Forest ι} (h : WellFormed F) (hmoves : Moves allowed F F') :
    WellFormed F' := by
  induction hmoves with
  | refl => exact h
  | tail _ hmove ih =>
    obtain ⟨a, -, henabled, rfl⟩ := hmove
    exact ih.apply henabled

theorem frozen_of_moves {F F' : Forest ι} (h : WellFormed F) {x : ι}
    (hx : F.status x = some .deleted) (hmoves : Moves (· ≠ .restore x) F F') {n : ι}
    (hn : F.status n ≠ none) (hin : n = x ∨ x ∈ F.ancestors n) :
    F'.status n = F.status n := by
  have hxin : F.status x ≠ none := ne_none_of_eq hx
  have hboth : ∀ m, F.status m ≠ none → (m = x ∨ x ∈ F.ancestors m) →
      F'.status m = F.status m ∧ F'.ancestors m = F.ancestors m := by
    induction hmoves with
    | refl => exact fun m _ _ => ⟨rfl, rfl⟩
    | tail hmoves' hmove ih =>
      rename_i G G'
      obtain ⟨a, hne, henabled, rfl⟩ := hmove
      intro m hm hmin
      have hG := ih m hm hmin
      have hfrozen := frozen_of_deleted (h.moves hmoves') henabled
        ((ih x hxin (.inl rfl)).1.trans hx) hne (by rwa [hG.1]) (by rwa [hG.2])
      exact ⟨hfrozen.1.trans hG.1, hfrozen.2.trans hG.2⟩
  exact (hboth n hn hin).1

/-- **The restoration of a node brings every node in it back to the status before the
deletion.** -/
theorem restore_undoes_delete {F F' : Forest ι} (h : WellFormed F) {x : ι}
    (hx : F.status x = some .active) (hmoves : Moves (· ≠ .restore x) (F.delete x) F') {n : ι}
    (hn : F.status n ≠ none) (hin : n = x ∨ x ∈ F.ancestors n) :
    (F'.restore x).status n = F.status n := by
  have hdeleted : (F.delete x).status x = some .deleted := by simp [Forest.delete, hx]
  have hfrozen := frozen_of_moves (h.delete hx) hdeleted hmoves
    ((delete_status_ne_none x n).mpr hn) hin
  simp only [Forest.restore, hfrozen]
  rcases hin with rfl | hmem
  · rw [if_pos (.inl rfl), hx]
  · have hnx : n ≠ x := by
      rintro rfl
      exact h.irrefl n hn hmem
    by_cases hactive : F.status n = some .active
    · rw [if_pos, hactive]
      right
      simp only [Forest.delete]
      rw [if_pos hactive, if_neg hnx, if_pos hmem]
    · -- no node was hidden by `x`, which was active
      rw [delete_of_not_active hactive, if_neg]
      rintro (rfl | hhidden)
      · exact hnx rfl
      · have hxdeleted := (h.hidden n x hhidden).2.1
        rw [hx] at hxdeleted
        cases hxdeleted

end

end SoftDelete
