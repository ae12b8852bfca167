/-!
# Finite tables

A table is a finite map kept as the list of its entries, every key once, in the
order in which the keys arrived. Each operation is described by what it does to
`get?`: `insert` changes one key, `erase` drops one, `restrict` keeps the
entries that satisfy a test and `adjust` changes the value at one key.
-/

namespace SymbolIndex

/-- A finite map as a list of entries without repeated keys. -/
structure Table (κ : Type) (α : Type) where
  entries : List (κ × α)
  nodup : (entries.map Prod.fst).Nodup

namespace Table

variable {κ : Type} {α : Type}

instance [DecidableEq κ] [DecidableEq α] : DecidableEq (Table κ α) := fun s t =>
  if h : s.entries = t.entries then
    isTrue (by cases s; cases t; simp_all)
  else
    isFalse (fun e => h (by rw [e]))

theorem ext {s t : Table κ α} (h : s.entries = t.entries) : s = t := by
  cases s
  cases t
  simp_all

def empty : Table κ α := ⟨[], by simp⟩

instance : EmptyCollection (Table κ α) := ⟨empty⟩

instance : Inhabited (Table κ α) := ⟨empty⟩

def size (t : Table κ α) : Nat := t.entries.length

def isEmpty (t : Table κ α) : Bool := t.entries.isEmpty

def keys (t : Table κ α) : List κ := t.entries.map Prod.fst

def values (t : Table κ α) : List α := t.entries.map Prod.snd

section Lookup

variable [DecidableEq κ]

def lookup (k : κ) : List (κ × α) -> Option α
  | [] => none
  | (k', v) :: rest => if k' = k then some v else lookup k rest

def get? (t : Table κ α) (k : κ) : Option α := lookup k t.entries

def contains (t : Table κ α) (k : κ) : Bool := (t.get? k).isSome

/-- The entries with the value at `k` replaced in place, or appended when `k` is new. -/
def put (k : κ) (v : α) : List (κ × α) -> List (κ × α)
  | [] => [(k, v)]
  | (k', v') :: rest => if k' = k then (k, v) :: rest else (k', v') :: put k v rest

theorem mem_keys_put (k x : κ) (v : α) (es : List (κ × α)) :
    x ∈ (put k v es).map Prod.fst ↔ x = k ∨ x ∈ es.map Prod.fst := by
  induction es with
  | nil => simp [put]
  | cons e rest ih =>
      rw [put]
      split
      · rename_i h
        simp only [List.map_cons, List.mem_cons, h]
        constructor
        · exact fun hx => hx.elim Or.inl (fun hx => Or.inr (Or.inr hx))
        · exact fun hx => hx.elim Or.inl id
      · simp only [List.map_cons, List.mem_cons, ih]
        constructor
        · exact fun hx => hx.elim (fun h => Or.inr (Or.inl h))
            (fun h => h.elim Or.inl (fun h => Or.inr (Or.inr h)))
        · exact fun hx => hx.elim (fun h => Or.inr (Or.inl h))
            (fun h => h.elim Or.inl (fun h => Or.inr (Or.inr h)))

theorem nodup_keys_put (k : κ) (v : α) (es : List (κ × α))
    (h : (es.map Prod.fst).Nodup) : ((put k v es).map Prod.fst).Nodup := by
  induction es with
  | nil => simp [put]
  | cons e rest ih =>
      simp only [List.map_cons, List.nodup_cons] at h
      rw [put]
      split
      · rename_i hk
        simp only [List.map_cons, List.nodup_cons]
        exact ⟨hk ▸ h.1, h.2⟩
      · rename_i hk
        simp only [List.map_cons, List.nodup_cons]
        refine ⟨fun hm => ?_, ih h.2⟩
        exact ((mem_keys_put k e.1 v rest).mp hm).elim hk h.1

def insert (t : Table κ α) (k : κ) (v : α) : Table κ α :=
  ⟨put k v t.entries, nodup_keys_put k v t.entries t.nodup⟩

end Lookup

theorem nodup_keys_sublist {es fs : List (κ × α)} (s : fs.Sublist es)
    (h : (es.map Prod.fst).Nodup) : (fs.map Prod.fst).Nodup :=
  List.Nodup.sublist (s.map Prod.fst) h

/-- Keep the entries that satisfy `p`. -/
def restrict (t : Table κ α) (p : κ -> α -> Bool) : Table κ α :=
  ⟨t.entries.filter fun e => p e.1 e.2, nodup_keys_sublist List.filter_sublist t.nodup⟩

def erase [DecidableEq κ] (t : Table κ α) (k : κ) : Table κ α :=
  t.restrict fun k' _ => decide (k' ≠ k)

def eraseAll [DecidableEq κ] (t : Table κ α) (ks : List κ) : Table κ α :=
  t.restrict fun k _ => !ks.contains k

/-- Change the value at `k`, if there is one. -/
def adjust [DecidableEq κ] (t : Table κ α) (k : κ) (f : α -> α) : Table κ α :=
  ⟨t.entries.map fun e => if e.1 = k then (e.1, f e.2) else e, by
    have h : (t.entries.map fun e => if e.1 = k then (e.1, f e.2) else e).map Prod.fst
        = t.entries.map Prod.fst := by
      rw [List.map_map]
      apply List.map_congr_left
      intro e _
      simp only [Function.comp]
      split <;> rfl
    rw [h]
    exact t.nodup⟩

def ofList [DecidableEq κ] (es : List (κ × α)) : Table κ α :=
  es.foldl (fun t e => t.insert e.1 e.2) empty

/-!
# Lookups after an operation
-/

section Laws

variable [DecidableEq κ]

theorem lookup_put (k x : κ) (v : α) (es : List (κ × α)) :
    lookup x (put k v es) = if k = x then some v else lookup x es := by
  induction es with
  | nil => simp [put, lookup]
  | cons e rest ih =>
      by_cases hx : k = x
      · subst hx
        by_cases hk : e.1 = k
        · simp [put, lookup, hk]
        · simpa [put, lookup, hk] using ih
      · by_cases hk : e.1 = k
        · simp [put, lookup, hk, hx]
        · simp [put, lookup, hk, ih, hx]

theorem lookup_eq_none_iff (k : κ) (es : List (κ × α)) :
    lookup k es = none ↔ k ∉ es.map Prod.fst := by
  induction es with
  | nil => simp [lookup]
  | cons e rest ih =>
      by_cases h : e.1 = k
      · simp [lookup, h]
      · have : ¬ k = e.1 := fun e' => h e'.symm
        simp [lookup, h, this, ih]

theorem lookup_filter_key (p : κ -> Bool) (k : κ) (es : List (κ × α)) :
    lookup k (es.filter fun e => p e.1) = if p k then lookup k es else none := by
  induction es with
  | nil => simp [lookup]
  | cons e rest ih =>
      by_cases hp : p e.1 = true
      · by_cases hk : e.1 = k
        · subst hk
          simp [lookup, hp]
        · simp [hp, lookup, hk, ih]
      · by_cases hk : e.1 = k
        · subst hk
          simp [hp, ih]
        · simp [hp, lookup, hk, ih]

@[simp] theorem get?_empty (k : κ) : (empty : Table κ α).get? k = none := rfl

theorem get?_insert (t : Table κ α) (k x : κ) (v : α) :
    (t.insert k v).get? x = if k = x then some v else t.get? x :=
  lookup_put k x v t.entries

@[simp] theorem get?_insert_self (t : Table κ α) (k : κ) (v : α) :
    (t.insert k v).get? k = some v := by
  simp [get?_insert]

theorem get?_erase (t : Table κ α) (k x : κ) :
    (t.erase k).get? x = if k = x then none else t.get? x := by
  have h := lookup_filter_key (fun k' => decide (k' ≠ k)) x t.entries
  rw [get?, erase, restrict]
  rw [h]
  by_cases hx : k = x
  · simp [hx]
  · have : ¬ x = k := fun e => hx e.symm
    simp [hx, this, get?]

theorem get?_eraseAll (t : Table κ α) (ks : List κ) (x : κ) :
    (t.eraseAll ks).get? x = if ks.contains x then none else t.get? x := by
  have h := lookup_filter_key (fun k => !ks.contains k) x t.entries
  rw [get?, eraseAll, restrict]
  rw [h]
  by_cases hx : ks.contains x = true
  · rw [hx]
    simp
  · simp only [Bool.not_eq_true] at hx
    rw [hx]
    simp [get?]

end Laws

end Table
end SymbolIndex
