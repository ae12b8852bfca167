import Mathlib.Data.List.Basic
import SymbolIndex.Symbol

/-!
# Results built definition by definition

A definition finds its symbol by the key, or appends it. Indices handed out earlier keep
their meaning, so every location can be read with the results as they are in the end.
-/

namespace SymbolIndex
namespace Results

/-- The keys of the symbols. -/
def usrs (r : Results) : List String := r.symbols.map (·.usr)

variable {r : Results} {symbol : CollectedSymbol} {line column : UInt32} {usr : String} {i : Nat}

/-!
# Indices
-/

theorem symbolIndex_eq_none_iff : r.symbolIndex usr = none ↔ usr ∉ r.usrs := by
  rw [symbolIndex, List.findIdx?_eq_none_iff, usrs]
  simp

theorem exists_symbolIndex (h : usr ∈ r.usrs) : exists i, r.symbolIndex usr = some i := by
  cases hindex : r.symbolIndex usr with
  | none => exact absurd h (symbolIndex_eq_none_iff.mp hindex)
  | some i => exact ⟨i, rfl⟩

theorem getElem?_usrs_symbolIndex (h : r.symbolIndex usr = some i) : r.usrs[i]? = some usr := by
  rw [symbolIndex, List.findIdx?_eq_some_iff_getElem] at h
  rcases h with ⟨hi, hkey, -⟩
  rw [usrs, List.getElem?_map, List.getElem?_eq_getElem hi, Option.map_some, beq_iff_eq.mp hkey]

theorem symbolIndex_lt (h : r.symbolIndex usr = some i) : i < r.symbols.length := by
  rw [symbolIndex, List.findIdx?_eq_some_iff_getElem] at h
  exact h.1

theorem symbolIndex_of_getElem? (hdistinct : r.usrs.Nodup) (h : r.usrs[i]? = some usr) :
    r.symbolIndex usr = some i := by
  rcases exists_symbolIndex (List.mem_of_getElem? h) with ⟨j, hj⟩
  have hsame : r.usrs[j]? = r.usrs[i]? := by rw [getElem?_usrs_symbolIndex hj, h]
  have hlt : j < r.usrs.length := by
    rw [usrs, List.length_map]
    exact symbolIndex_lt hj
  rw [hj, (List.getElem?_inj hlt hdistinct).mp hsame]

/-!
# One more definition
-/

theorem symbols_define :
    (r.define symbol line column).symbols =
      if symbol.usr ∈ r.usrs then r.symbols else r.symbols ++ [symbol] := by
  rw [define]
  split
  · rename_i index hindex
    have hmem := List.mem_of_getElem? (getElem?_usrs_symbolIndex hindex)
    rw [if_pos hmem]
    rfl
  · rename_i hindex
    rw [if_neg (symbolIndex_eq_none_iff.mp hindex)]
    rfl

theorem usrs_define :
    (r.define symbol line column).usrs =
      if symbol.usr ∈ r.usrs then r.usrs else r.usrs ++ [symbol.usr] := by
  rw [usrs, symbols_define]
  split
  · rfl
  · rw [List.map_append, usrs, List.map_singleton]

theorem symbolIndex_define_of_some (h : r.symbolIndex usr = some i) :
    (r.define symbol line column).symbolIndex usr = some i := by
  rw [symbolIndex, symbols_define]
  split
  · exact h
  · rw [List.findIdx?_append, ← symbolIndex, h, Option.some_or]

theorem locations_define (r : Results) (symbol : CollectedSymbol) (line column : UInt32) :
    exists i, (r.define symbol line column).symbolIndex symbol.usr = some i ∧
      (r.define symbol line column).locations = r.locations ++ [⟨i, line, column, .definition⟩] := by
  cases hindex : r.symbolIndex symbol.usr with
  | some index =>
      refine ⟨index, symbolIndex_define_of_some hindex, ?_⟩
      rw [define, hindex]
      rfl
  | none =>
      refine ⟨r.symbols.length, ?_, ?_⟩
      · have hnew := symbolIndex_eq_none_iff.mp hindex
        rw [symbolIndex, symbols_define, if_neg hnew, List.findIdx?_append, ← symbolIndex, hindex]
        simp
      · rw [define, hindex]
        rfl

theorem nodup_usrs_define (h : r.usrs.Nodup) : (r.define symbol line column).usrs.Nodup := by
  rw [usrs_define]
  split
  · exact h
  · rename_i hnew
    exact (List.perm_append_singleton _ _).nodup_iff.mpr (List.nodup_cons.mpr ⟨hnew, h⟩)

end Results
end SymbolIndex
