import SymbolIndex.Overlay
import SymbolIndex.Proofs.Table

/-!
# Contents after a change

What an overlay has for a path after a content was set or removed. Every path is known by
its normal form.
-/

namespace SymbolIndex
namespace Overlay

variable {o : Overlay} {p q : Path} {content : String}

theorem get?_congr (o : Overlay) (h : p.normalize = q.normalize) : o.get? p = o.get? q := by
  rw [get?, get?, h]

theorem contains_congr (o : Overlay) (h : p.normalize = q.normalize) :
    o.contains p = o.contains q := by
  rw [contains, contains, get?_congr o h]

theorem holds_congr (o : Overlay) (h : p.normalize = q.normalize) (content : String) :
    o.holds p content = o.holds q content := by
  rw [holds, holds, get?_congr o h]

theorem insert_congr (o : Overlay) (h : p.normalize = q.normalize) (content : String) :
    o.insert p content = o.insert q content := by
  rw [insert, insert, holds_congr o h, h]

theorem erase_congr (o : Overlay) (h : p.normalize = q.normalize) : o.erase p = o.erase q := by
  rw [erase, erase, h]

theorem holds_iff : o.holds p content = true ↔ o.content? p = some content := by
  unfold holds content?
  cases o.get? p with
  | none => simp
  | some file => simp

theorem contains_of_holds (h : o.holds p content = true) : o.contains p = true := by
  rcases Option.map_eq_some_iff.mp (holds_iff.mp h) with ⟨file, hfile, -⟩
  exact Option.isSome_iff_exists.mpr ⟨file, hfile⟩

/-!
# Setting and removing
-/

theorem insert_of_holds (h : o.holds p content = true) : o.insert p content = o := by
  rw [insert, if_pos h]

theorem insert_of_not_holds (h : o.holds p content = false) : o.insert p content =
    ⟨o.files.insert p.normalize ⟨content, o.revision + 1⟩, o.revision + 1⟩ := by
  rw [insert, if_neg (by rw [h]; exact Bool.false_ne_true)]

theorem get?_insert_of_not_holds (h : o.holds p content = false) (q : Path) :
    (o.insert p content).get? q =
      if p.normalize = q.normalize then some ⟨content, (o.insert p content).revision⟩
      else o.get? q := by
  rw [insert_of_not_holds h]
  exact Table.get?_insert _ _ _ _

theorem get?_erase (o : Overlay) (p q : Path) :
    (o.erase p).get? q = if p.normalize = q.normalize then none else o.get? q :=
  Table.get?_erase _ _ _

theorem contains_insert (o : Overlay) (p q : Path) (content : String) :
    (o.insert p content).contains q = true ↔
      p.normalize = q.normalize ∨ o.contains q = true := by
  cases hholds : o.holds p content with
  | true =>
      rw [insert_of_holds hholds]
      constructor
      · exact Or.inr
      · intro h
        rcases h with hsame | hold
        · rw [← contains_congr o hsame]
          exact contains_of_holds hholds
        · exact hold
  | false =>
      rw [contains, get?_insert_of_not_holds hholds]
      by_cases hsame : p.normalize = q.normalize
      · simp [hsame]
      · simp [hsame, contains]

theorem contains_erase (o : Overlay) (p q : Path) :
    (o.erase p).contains q = true ↔ p.normalize ≠ q.normalize ∧ o.contains q = true := by
  rw [contains, get?_erase]
  by_cases hsame : p.normalize = q.normalize
  · simp [hsame]
  · simp [hsame, contains]

end Overlay
end SymbolIndex
