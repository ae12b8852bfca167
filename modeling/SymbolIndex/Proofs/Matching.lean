import Mathlib.Data.List.Forall2

/-!
# Lists that match

Two lists match if each element of one is related to the element of the other that stands
in its place.
-/

namespace SymbolIndex

section Matching

variable {α β : Type} {R : α -> β -> Prop} {xs ys : List α} {zs : List β}

theorem exists_left_of_forall₂ (h : List.Forall₂ R xs zs) {z : β} (hz : z ∈ zs) :
    exists x, x ∈ xs ∧ R x z := by
  rcases List.mem_iff_get.mp hz with ⟨i, rfl⟩
  have hlength := h.length_eq
  exact ⟨xs[i.val], List.getElem_mem _, h.get (by omega) i.isLt⟩

theorem exists_right_of_forall₂ (h : List.Forall₂ R xs zs) {x : α} (hx : x ∈ xs) :
    exists z, z ∈ zs ∧ R x z :=
  exists_left_of_forall₂ (R := flip R) h.flip hx

theorem exists_of_forall₂_append (h : List.Forall₂ R (xs ++ ys) zs) :
    exists us vs, zs = us ++ vs ∧ List.Forall₂ R xs us ∧ List.Forall₂ R ys vs := by
  induction xs generalizing zs with
  | nil => exact ⟨[], zs, rfl, .nil, h⟩
  | cons x rest ih =>
      cases h with
      | cons hfirst hrest =>
          rcases ih hrest with ⟨us, vs, rfl, hus, hvs⟩
          exact ⟨_ :: us, vs, rfl, .cons hfirst hus, hvs⟩

theorem forall₂_filter_filterMap {f : α -> Option β} (h : forall x y, f x = some y -> R x y)
    (xs : List α) : List.Forall₂ R (xs.filter fun x => (f x).isSome) (xs.filterMap f) := by
  induction xs with
  | nil => exact List.Forall₂.nil
  | cons x rest ih =>
      cases hx : f x with
      | none =>
          rw [List.filterMap_cons_none hx, List.filter_cons_of_neg (by simp [hx])]
          exact ih
      | some y =>
          rw [List.filterMap_cons_some hx, List.filter_cons_of_pos (by simp [hx])]
          exact List.Forall₂.cons (h x y hx) ih

end Matching

end SymbolIndex
