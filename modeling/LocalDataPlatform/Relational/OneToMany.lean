import LocalDataPlatform.Relational.KeyedRows

/-!
# Rows of parents

Parents under a unique key, each with a list of children that carry its key.

* `Carries` — the children carry the key of their parent.

Principal results: `nodup_children` (children that are distinct within a family are distinct),
`filter_children` (the children with the key of a parent are those of that parent).
-/

set_option autoImplicit false

namespace Relational

universe u v w

variable {α : Type u} {β : Type v} {κ : Type w}
variable {key : α → κ} {parent : β → κ} {children : α → List β} {parents : List α}

/-- The children carry the key of their parent. -/
def Carries (key : α → κ) (parent : β → κ) (children : α → List β) : Prop :=
  ∀ a, ∀ b ∈ children a, parent b = key a

/-- A child of some parent carries the key of one. -/
theorem Carries.exists_parent (h : Carries key parent children) {b : β} (hb : b ∈ parents.flatMap children) :
    ∃ a ∈ parents, key a = parent b := by
  obtain ⟨a, ha, hb⟩ := List.mem_flatMap.mp hb
  exact ⟨a, ha, (h a b hb).symm⟩

/-- **Children that are distinct within a family are distinct.** -/
theorem nodup_children (h : Carries key parent children) (hparents : UniqueOn key parents)
    (hchildren : ∀ a, (children a).Nodup) : (parents.flatMap children).Nodup := by
  induction parents with
  | nil => exact List.nodup_nil
  | cons a parents ih =>
    obtain ⟨ha, hrest⟩ := List.nodup_cons.mp hparents
    rw [List.flatMap_cons]
    refine List.nodup_append.mpr ⟨hchildren a, ih hrest, fun b hb b' hb' he => ?_⟩
    obtain ⟨a', ha', hkey⟩ := h.exists_parent hb'
    rw [← he, h a b hb] at hkey
    exact ha (hkey ▸ List.mem_map_of_mem ha')

variable [DecidableEq κ]

/-- **The children with the key of a parent** are those of that parent. -/
theorem filter_children (h : Carries key parent children) (hparents : UniqueOn key parents) {a : α}
    (ha : a ∈ parents) : (parents.flatMap children).filter (fun b => decide (parent b = key a)) = children a := by
  have hown : ∀ a', (children a').filter (fun b => decide (parent b = key a)) =
      if key a' = key a then children a' else [] := by
    intro a'
    split
    · rename_i hsame
      exact List.filter_eq_self.mpr fun b hb => decide_eq_true ((h a' b hb).trans hsame)
    · rename_i hne
      exact List.filter_eq_nil_iff.mpr fun b hb => by
        rw [h a' b hb]
        exact fun he => hne (of_decide_eq_true he)
  induction parents with
  | nil => cases ha
  | cons a' parents ih =>
    obtain ⟨hfirst, hrest⟩ := List.nodup_cons.mp hparents
    rw [List.flatMap_cons, List.filter_append, hown a']
    rcases List.mem_cons.mp ha with rfl | ha
    · have hnone : (parents.flatMap children).filter (fun b => decide (parent b = key a)) = [] := by
        refine List.filter_eq_nil_iff.mpr fun b hb he => ?_
        obtain ⟨a', ha', hkey⟩ := h.exists_parent hb
        exact hfirst (List.mem_map.mpr ⟨a', ha', hkey.trans (of_decide_eq_true he)⟩)
      rw [if_pos rfl, hnone, List.append_nil]
    · have hne : key a' ≠ key a := fun he => hfirst (he ▸ List.mem_map_of_mem ha)
      rw [if_neg hne, List.nil_append, ih hrest ha]

end Relational
