import SymbolIndex.Data
import SymbolIndex.Table

/-!
# Forms as data

How values are written as data and read back. Reading gives back what was written:
`ofData?_toData` is part of what it means to be readable.
-/

namespace SymbolIndex

/-- Values that can be written as data. -/
class ToData (α : Type) where
  toData : α -> Data

/-- Values that can be written as data and read back. -/
class OfData (α : Type) extends ToData α where
  ofData? : Data -> Option α
  ofData?_toData (a : α) : ofData? (toData a) = some a

export ToData (toData)
export OfData (ofData? ofData?_toData)

section Instances

variable {α β : Type}

instance : OfData Data where
  toData d := d
  ofData? := some
  ofData?_toData _ := rfl

instance : OfData String where
  toData := .text
  ofData? := Data.asText?
  ofData?_toData _ := rfl

instance : OfData Bool where
  toData := .boolean
  ofData?
    | .boolean b => some b
    | _ => none
  ofData?_toData _ := rfl

instance : OfData Int where
  toData := .integer
  ofData? := Data.asInt?
  ofData?_toData _ := rfl

instance : OfData Nat where
  toData n := .integer n
  ofData? := Data.asNat?
  ofData?_toData n := by simp [Data.asNat?]

instance : OfData UInt32 where
  toData n := .integer n.toNat
  ofData? d := d.asNat?.map UInt32.ofNat
  ofData?_toData n := by simp [Data.asNat?]

instance [ToData α] : ToData (Option α) where
  toData
    | some a => toData a
    | none => .null

instance [ToData α] : ToData (List α) where
  toData items := .list (items.map toData)

theorem mapM_ofData? [OfData α] (items : List α) : (items.map toData).mapM ofData? = some items := by
  induction items with
  | nil => rfl
  | cons a rest ih => simp [List.mapM_cons, ih, ofData?_toData]

instance [OfData α] : OfData (List α) where
  ofData? d := d.asList?.bind fun items => items.mapM ofData?
  ofData?_toData items := mapM_ofData? items

instance [OfData α] [OfData β] : OfData (α × β) where
  toData p := .list [toData p.1, toData p.2]
  ofData?
    | .list [a, b] => do pure (← ofData? a, ← ofData? b)
    | _ => none
  ofData?_toData p := by simp [ofData?_toData]

end Instances

/-!
# Tables
-/

namespace Table

variable {κ α : Type}

theorem put_of_notMem [DecidableEq κ] (k : κ) (v : α) (es : List (κ × α))
    (h : k ∉ es.map Prod.fst) : put k v es = es ++ [(k, v)] := by
  induction es with
  | nil => rfl
  | cons e rest ih =>
      simp only [List.map_cons, List.mem_cons, not_or] at h
      have hk : ¬ e.1 = k := fun e' => h.1 e'.symm
      simp [put, hk, ih h.2]

theorem entries_foldl_insert [DecidableEq κ] (es : List (κ × α)) (t : Table κ α)
    (h : ((t.entries ++ es).map Prod.fst).Nodup) :
    (es.foldl (fun t e => t.insert e.1 e.2) t).entries = t.entries ++ es := by
  induction es generalizing t with
  | nil => simp
  | cons e rest ih =>
      have hnew : e.1 ∉ t.entries.map Prod.fst := by
        intro hm
        simp only [List.map_append, List.map_cons, List.nodup_append] at h
        exact h.2.2 e.1 hm e.1 (by simp) rfl
      have hput : (t.insert e.1 e.2).entries = t.entries ++ [e] := put_of_notMem e.1 e.2 t.entries hnew
      rw [List.foldl_cons, ih (t.insert e.1 e.2) (by rw [hput]; simpa using h), hput]
      simp

theorem ofList_entries [DecidableEq κ] (t : Table κ α) : ofList t.entries = t := by
  apply ext
  have h := entries_foldl_insert t.entries empty (by simpa [empty] using t.nodup)
  simpa [ofList, empty] using h

instance [DecidableEq κ] [OfData κ] [OfData α] : OfData (Table κ α) where
  toData t := toData t.entries
  ofData? d := (ofData? d).map ofList
  ofData?_toData t := by simp [ofData?_toData, ofList_entries]

end Table
end SymbolIndex
