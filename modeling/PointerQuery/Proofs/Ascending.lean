import Mathlib.Data.Set.Card

namespace PointerQuery

/-- A list without repetitions that has the members of a set counts them. -/
theorem encard_eq_length {α : Type} {s : Set α} {xs : List α} (hxs : xs.Nodup)
    (hmem : ∀ x, x ∈ s ↔ x ∈ xs) : s.encard = xs.length := by
  classical
  have hs : s = xs.toFinset := by
    ext x
    rw [hmem, List.coe_toFinset, Set.mem_ofPred_eq]
  rw [hs, Set.encard_coe_eq_coe_finsetCard, List.toFinset_card_of_nodup hxs]

/-- Each member is smaller than all that stand behind it. -/
def Ascending {α : Type} [Ord α] (xs : List α) : Prop :=
  xs.Pairwise fun a b => compare a b = .lt

namespace Ascending

variable {α γ : Type} [Ord α] [Std.TransOrd α]

theorem nodup {xs : List α} (h : Ascending xs) : xs.Nodup := by
  refine List.Pairwise.imp ?_ h
  rintro a _ hlt rfl
  rw [Std.compare_self] at hlt
  cases hlt

/-- Two lists with ascending keys and the same members are equal. -/
theorem eq_of_mem_iff (key : γ → α) {xs ys : List γ} (hxs : Ascending (xs.map key)) (hys : Ascending (ys.map key))
    (hmem : ∀ x, x ∈ xs ↔ x ∈ ys) : xs = ys := by
  have hperm : xs.Perm ys :=
    (List.perm_ext_iff_of_nodup (hxs.nodup.of_map key) (hys.nodup.of_map key)).mpr hmem
  rw [Ascending, List.pairwise_map] at hxs hys
  refine hperm.eq_of_pairwise ?_ hxs hys
  intro a b _ _ hab hba
  exact absurd hba (Std.OrientedCmp.not_lt_of_lt hab)

end Ascending

end PointerQuery
