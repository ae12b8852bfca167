import Mathlib.Data.List.Sort
import SymbolIndex.FileId
import SymbolIndex.Proofs.Distinct

/-!
# Ids in ascending order

The ascending list of some ids holds each of them once. It is known by which ids it
holds, so neither their order nor how often they were named makes a difference.
-/

namespace SymbolIndex

namespace FileId

variable {id : FileId} {ids others : List FileId}

/-- Every id is greater than the ones before it. -/
def Ascending (ids : List FileId) : Prop := ids.Pairwise fun a b => a.number < b.number

theorem mem_ascending : id ∈ ascending ids ↔ id ∈ ids := by
  rw [ascending, List.mem_eraseDups, List.mem_mergeSort]

theorem le_of_mergeSort (ids : List FileId) :
    (ids.mergeSort le).Pairwise fun a b => a.number ≤ b.number :=
  (@List.pairwise_mergeSort _ le
    (fun a b c hab hbc => decide_eq_true ((of_decide_eq_true hab).trans (of_decide_eq_true hbc)))
    (fun a b => by
      rw [Bool.or_eq_true, le, le, decide_eq_true_iff, decide_eq_true_iff]
      exact Int.le_total a.number b.number) ids).imp of_decide_eq_true

theorem ascending_of_le (hle : ids.Pairwise fun a b => a.number ≤ b.number)
    (hnodup : ids.Nodup) : Ascending ids := by
  refine hle.imp₂ ?_ hnodup
  intro a b hab hne
  exact lt_of_le_of_ne hab fun heq => hne (by cases a; cases b; cases heq; rfl)

theorem ascending_ascending (ids : List FileId) : Ascending (ascending ids) :=
  ascending_of_le ((le_of_mergeSort ids).sublist (eraseDups_sublist _)) (nodup_eraseDups _)

theorem ascending_mergeSort (hnodup : ids.Nodup) : Ascending (ids.mergeSort le) :=
  ascending_of_le (le_of_mergeSort ids) ((List.mergeSort_perm ids le).nodup_iff.mpr hnodup)

theorem Ascending.nodup (h : Ascending ids) : ids.Nodup := by
  refine List.Pairwise.imp ?_ h
  rintro a b hlt rfl
  exact Int.lt_irrefl _ hlt

theorem Ascending.eq_of_mem_iff (h : Ascending ids) (hothers : Ascending others)
    (hmem : forall id, id ∈ ids ↔ id ∈ others) : ids = others := by
  have hperm := (List.perm_ext_iff_of_nodup h.nodup hothers.nodup).mpr hmem
  refine hperm.eq_of_pairwise ?_ h hothers
  intro a b _ _ hab hba
  exact absurd (hab.trans hba) (Int.lt_irrefl _)

end FileId
end SymbolIndex
