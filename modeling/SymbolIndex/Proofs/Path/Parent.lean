import SymbolIndex.Proofs.Path

/-!
# Parents of absolute paths

An absolute path is the root, or it is one component in its parent, which is absolute
too. Slashes and dots that say nothing make no difference to this.
-/

namespace SymbolIndex
namespace Path

variable {p : Path}

theorem componentOf_eq_none_iff (piece : List UInt8) :
    componentOf piece = none ↔ isIdle piece = true := by
  unfold componentOf
  cases isIdle piece with
  | true => simp
  | false => cases isDotDot piece <;> simp

theorem componentOf_ne_root {piece : List UInt8} {c : Component}
    (h : componentOf piece = some c) : c ≠ .root := by
  unfold componentOf at h
  split at h
  · cases h
  · split at h
    · cases h
      exact Component.noConfusion
    · cases h
      exact Component.noConfusion

theorem filterMap_dropWhile (ps : List (List UInt8)) :
    (ps.dropWhile isIdle).filterMap componentOf = ps.filterMap componentOf := by
  induction ps with
  | nil => rfl
  | cons piece rest ih =>
      rw [List.dropWhile_cons, List.filterMap_cons]
      split
      · rename_i hidle
        rw [ih, (componentOf_eq_none_iff piece).mpr hidle]
      · rw [List.filterMap_cons]

theorem bytes_of_isAbsolute (h : p.isAbsolute = true) :
    p.bytes = slash :: p.bytes.drop 1 := by
  unfold isAbsolute at h
  cases hbytes : p.bytes with
  | nil =>
      rw [hbytes] at h
      cases h
  | cons b rest =>
      rw [hbytes, List.head?_cons, beq_iff_eq] at h
      rw [Option.some.inj h]
      rfl

theorem components_of_isAbsolute (h : p.isAbsolute = true) :
    p.components = .root :: (pieces (p.bytes.drop 1)).filterMap componentOf := by
  have hpieces : pieces p.bytes = [] :: pieces (p.bytes.drop 1) := by
    rw [bytes_of_isAbsolute h, pieces, if_pos rfl]
    rfl
  unfold components
  rw [hpieces]
  dsimp only
  rw [h, if_pos rfl]

theorem components_slash_joined {said : List (List UInt8)}
    (h : forall piece, piece ∈ said -> slash ∉ piece) :
    (Path.mk (slash :: joined said)).components = .root :: said.filterMap componentOf := by
  rw [components_of_isAbsolute rfl]
  cases said with
  | nil => rfl
  | cons first more =>
      rw [List.drop_one, List.tail_cons, pieces_joined (List.cons_ne_nil first more) h]

/-- An absolute path without a parent is the root, any other one ends with a component. -/
theorem parent_of_isAbsolute (h : p.isAbsolute = true) :
    (p.parent = none ∧ p.components = [.root]) ∨
      exists parent c, p.parent = some parent ∧ parent.isAbsolute = true ∧ c ≠ .root ∧
        p.components = parent.components ++ [c] := by
  rw [components_of_isAbsolute h]
  unfold parent frontAndRegion
  rw [h, if_pos rfl]
  dsimp only
  generalize hps : pieces (p.bytes.drop 1) = ps
  have hslashes : forall piece, piece ∈ ps -> slash ∉ piece := fun piece hpiece =>
    slash_notMem_of_mem_pieces (hps ▸ hpiece)
  -- the components are those of the pieces up to the last one that says something
  have hsaid : ps.filterMap componentOf =
      ((ps.reverse.dropWhile isIdle).filterMap componentOf).reverse := by
    rw [filterMap_dropWhile, List.filterMap_reverse, List.reverse_reverse]
  rw [hsaid]
  cases hdropped : ps.reverse.dropWhile isIdle with
  | nil => exact Or.inl ⟨by simp, rfl⟩
  | cons last before =>
      right
      have hlast : isIdle last = false := by
        have hhead := List.head?_dropWhile_not isIdle ps.reverse
        rw [hdropped] at hhead
        simpa using hhead
      have hsays : componentOf last ≠ none := by
        rw [Ne, componentOf_eq_none_iff, hlast]
        exact Bool.false_ne_true
      rcases Option.ne_none_iff_exists'.mp hsays with ⟨c, hc⟩
      have hbefore : forall piece, piece ∈ (before.dropWhile isIdle).reverse -> slash ∉ piece := by
        intro piece hpiece
        apply hslashes
        rw [← List.mem_reverse]
        apply (List.dropWhile_suffix isIdle).subset
        rw [hdropped]
        exact List.mem_cons_of_mem _
          ((List.dropWhile_suffix isIdle).subset (List.mem_reverse.mp hpiece))
      refine ⟨_, c, rfl, rfl, componentOf_ne_root hc, ?_⟩
      have hparent := components_slash_joined hbefore
      rw [List.filterMap_reverse, filterMap_dropWhile] at hparent
      rw [List.filterMap_cons, hc]
      simp [hparent]

end Path
end SymbolIndex
