import Mathlib.Data.List.Nodup

/-! # Parent maps that only grow

A map from nodes to their parents, to which each node is added when nothing is known of it yet: it is
not in the map, and nothing hangs from it. Following the map from any node then comes to the root,
and visits no node twice.
-/

namespace Forest

variable {α : Type} [DecidableEq α] (root : α)

/-- The parent of a node, the root for a node that is not in the map. -/
def parentOf (m : List (α × α)) (x : α) : α := (m.lookup x).getD root

/-- Each node was new when it was added; the last one comes first. -/
inductive Grown : List (α × α) → Prop where
  | nil : Grown []
  | cons {c p : α} {m : List (α × α)} (hroot : c ≠ root) (hnode : c ∉ m.map Prod.fst)
      (hparent : c ∉ m.map Prod.snd) (hself : c ≠ p) (hm : Grown m) : Grown ((c, p) :: m)

/-- The nodes from `x` up to the root, which does not count. -/
def lineage : List (α × α) → α → List α
  | [], x => if x = root then [] else [x]
  | (c, p) :: m, x => if x = c then c :: lineage m p else lineage m x

variable {root} {m : List (α × α)} {x y c p : α}

theorem parentOf_cons_self : parentOf root ((c, p) :: m) c = p := by
  simp [parentOf]

theorem parentOf_cons_of_ne (h : x ≠ c) :
    parentOf root ((c, p) :: m) x = parentOf root m x := by
  rw [parentOf, List.lookup_cons, beq_false_of_ne h]
  rfl

theorem parentOf_of_notMem (h : x ∉ m.map Prod.fst) : parentOf root m x = root := by
  induction m with
  | nil => rfl
  | cons e m ih =>
      rw [List.map_cons, List.mem_cons, not_or] at h
      rw [parentOf_cons_of_ne h.1, ih h.2]

/-- The map has an entry for a node whose parent is not the root. -/
theorem mem_of_parentOf_ne (h : parentOf root m x ≠ root) : (x, parentOf root m x) ∈ m := by
  induction m with
  | nil => exact absurd rfl h
  | cons e m ih =>
      obtain ⟨c, p⟩ := e
      by_cases hx : x = c
      · rw [hx, parentOf_cons_self]
        exact List.mem_cons_self
      · rw [parentOf_cons_of_ne hx] at h ⊢
        exact List.mem_cons_of_mem _ (ih h)

theorem parentOf_mem (root : α) (m : List (α × α)) (x : α) :
    parentOf root m x = root ∨ parentOf root m x ∈ m.map Prod.snd := by
  induction m with
  | nil => exact .inl rfl
  | cons e m ih =>
      obtain ⟨c, p⟩ := e
      by_cases hx : x = c
      · rw [hx, parentOf_cons_self]
        exact .inr List.mem_cons_self
      · rw [parentOf_cons_of_ne hx]
        exact ih.imp_right (List.mem_cons_of_mem p)

theorem eq_or_mem_of_mem_lineage (h : y ∈ lineage root m x) : y = x ∨ y ∈ m.map Prod.snd := by
  induction m generalizing x with
  | nil =>
      rw [lineage] at h
      split at h
      · cases h
      · exact .inl (List.mem_singleton.mp h)
  | cons e m ih =>
      obtain ⟨c, p⟩ := e
      rw [lineage] at h
      split at h
      · next hx =>
          rcases List.mem_cons.mp h with rfl | h
          · exact .inl hx.symm
          · rcases ih h with rfl | h
            · exact .inr List.mem_cons_self
            · exact .inr (List.mem_cons_of_mem p h)
      · exact (ih h).imp_right (List.mem_cons_of_mem p)

theorem lineage_root (h : Grown root m) : lineage root m root = [] := by
  induction h with
  | nil => simp [lineage]
  | cons hroot _ _ _ _ ih => rw [lineage, if_neg hroot.symm, ih]

/-- The lineage of a node is the node and the lineage of its parent. -/
theorem lineage_eq (h : Grown root m) (hx : x ≠ root) :
    lineage root m x = x :: lineage root m (parentOf root m x) := by
  induction h with
  | nil => simp [lineage, parentOf, hx]
  | @cons c p m hroot hnode hparent hself hm ih =>
      by_cases hxc : x = c
      · rw [hxc, parentOf_cons_self, lineage, if_pos rfl, lineage, if_neg hself.symm]
      · -- the parent of an older node is older than the new one
        have hne : parentOf root m x ≠ c := by
          intro heq
          rcases parentOf_mem root m x with hpar | hpar
          · exact hroot (heq.symm.trans hpar)
          · rw [heq] at hpar
            exact hparent hpar
        rw [parentOf_cons_of_ne hxc, lineage, if_neg hxc, lineage, if_neg hne]
        exact ih

/-- Only the root has nothing above it, itself included. -/
theorem lineage_eq_nil_iff (h : Grown root m) : lineage root m x = [] ↔ x = root := by
  constructor
  · intro hnil
    by_contra hx
    rw [lineage_eq h hx] at hnil
    cases hnil
  · rintro rfl
    exact lineage_root h

theorem nodup_lineage (h : Grown root m) (x : α) : (lineage root m x).Nodup := by
  induction h generalizing x with
  | nil =>
      rw [lineage]
      split <;> simp
  | @cons c p m hroot hnode hparent hself hm ih =>
      rw [lineage]
      split
      · refine List.nodup_cons.mpr ⟨fun hmem => ?_, ih p⟩
        rcases eq_or_mem_of_mem_lineage hmem with heq | hmem
        · exact hself heq
        · exact hparent hmem
      · exact ih x

omit [DecidableEq α] in
theorem Grown.ne_root (h : Grown root m) (hx : x ∈ m.map Prod.fst) : x ≠ root := by
  induction h with
  | nil => cases hx
  | cons hroot _ _ _ _ ih =>
      rcases List.mem_cons.mp hx with rfl | hx
      · exact hroot
      · exact ih hx

end Forest
