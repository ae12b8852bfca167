import SymbolIndex.Table

/-!
# More laws of tables

What is stored at a key is the entry that stands in the list, and every operation is
known by what it does to the value at each key.
-/

namespace SymbolIndex
namespace Table

variable {κ α : Type} [DecidableEq κ]

theorem lookup_of_mem {k : κ} {v : α} {es : List (κ × α)}
    (hnodup : (es.map Prod.fst).Nodup) (h : (k, v) ∈ es) : lookup k es = some v := by
  induction es with
  | nil => cases h
  | cons e rest ih =>
      rw [List.map_cons, List.nodup_cons] at hnodup
      rcases List.mem_cons.mp h with rfl | hrest
      · simp [lookup]
      · have hkey : k ∈ rest.map Prod.fst := List.mem_map.mpr ⟨(k, v), hrest, rfl⟩
        have hne : e.1 ≠ k := fun heq => hnodup.1 (heq ▸ hkey)
        rw [lookup, if_neg hne]
        exact ih hnodup.2 hrest

theorem mem_of_lookup {k : κ} {v : α} {es : List (κ × α)} (h : lookup k es = some v) :
    (k, v) ∈ es := by
  induction es with
  | nil => cases h
  | cons e rest ih =>
      by_cases hk : e.1 = k
      · rw [lookup, if_pos hk] at h
        cases h
        rw [← hk]
        exact List.mem_cons_self
      · rw [lookup, if_neg hk] at h
        exact List.mem_cons_of_mem _ (ih h)

theorem mem_entries_iff (t : Table κ α) (k : κ) (v : α) :
    (k, v) ∈ t.entries ↔ t.get? k = some v :=
  ⟨lookup_of_mem t.nodup, mem_of_lookup⟩

theorem contains_iff (t : Table κ α) (k : κ) :
    t.contains k = true ↔ exists v, t.get? k = some v := by
  rw [contains, Option.isSome_iff_exists]

theorem contains_eq_false_iff (t : Table κ α) (k : κ) :
    t.contains k = false ↔ t.get? k = none := by
  rw [contains, Option.isSome_eq_false_iff, Option.isNone_iff_eq_none]

theorem mem_keys_iff (t : Table κ α) (k : κ) : k ∈ t.keys ↔ t.contains k = true := by
  rw [← Decidable.not_iff_not, Bool.not_eq_true, contains_eq_false_iff, get?,
    lookup_eq_none_iff, keys]

theorem isEmpty_iff (t : Table κ α) : t.isEmpty = true ↔ forall k, t.get? k = none := by
  rw [isEmpty, List.isEmpty_iff]
  constructor
  · intro h k
    rw [get?, h]
    rfl
  · intro h
    cases hentries : t.entries with
    | nil => rfl
    | cons e rest =>
        have hmem : (e.1, e.2) ∈ t.entries := by rw [hentries]; exact List.mem_cons_self
        rw [mem_entries_iff, h e.1] at hmem
        cases hmem

@[simp] theorem get?_emptyCollection (k : κ) : (∅ : Table κ α).get? k = none := rfl

theorem get?_restrict (t : Table κ α) (p : κ -> α -> Bool) (k : κ) :
    (t.restrict p).get? k = (t.get? k).filter (p k) := by
  cases hget : t.get? k with
  | none =>
      rw [Option.filter_none, get?, lookup_eq_none_iff]
      rw [get?, lookup_eq_none_iff] at hget
      intro hmem
      exact hget ((List.filter_sublist.map Prod.fst).subset hmem)
  | some v =>
      have hmem := (mem_entries_iff t k v).mpr hget
      rw [Option.filter_some]
      cases hp : p k v with
      | true =>
          rw [if_pos rfl, ← mem_entries_iff]
          exact List.mem_filter.mpr ⟨hmem, hp⟩
      | false =>
          rw [if_neg Bool.false_ne_true, get?, lookup_eq_none_iff]
          intro hkey
          rcases List.mem_map.mp hkey with ⟨⟨k', v'⟩, hentry, rfl⟩
          rcases List.mem_filter.mp hentry with ⟨hold, hkept⟩
          have hvalue := (mem_entries_iff t k' v').mp hold
          rw [hget] at hvalue
          cases hvalue
          rw [hp] at hkept
          cases hkept

theorem get?_adjust (t : Table κ α) (k : κ) (f : α -> α) (x : κ) :
    (t.adjust k f).get? x = if k = x then (t.get? x).map f else t.get? x := by
  simp only [get?, adjust]
  induction t.entries with
  | nil => simp [lookup]
  | cons e rest ih =>
      by_cases hk : e.1 = k
      · by_cases hx : e.1 = x
        · simp [lookup, hx, hk.symm.trans hx]
        · simp [lookup, hk, hk ▸ hx, ih]
      · by_cases hx : e.1 = x
        · have hne : ¬ x = k := fun heq => hk (hx.trans heq)
          simp [lookup, hx, hne, Ne.symm hne]
        · simp [lookup, hk, hx, ih]

theorem get?_foldl_insert (files : List κ) (t : Table κ α) (v : α) (x : κ) :
    (files.foldl (fun t file => t.insert file v) t).get? x =
      if x ∈ files then some v else t.get? x := by
  induction files generalizing t with
  | nil => simp
  | cons file rest ih =>
      rw [List.foldl_cons, ih, get?_insert]
      by_cases hrest : x ∈ rest
      · simp [hrest]
      · by_cases hfile : file = x
        · simp [hfile]
        · simp [hrest, hfile, Ne.symm hfile]

theorem put_eq_self {k : κ} {v : α} {es : List (κ × α)} (h : lookup k es = some v) :
    put k v es = es := by
  induction es with
  | nil => cases h
  | cons e rest ih =>
      by_cases hk : e.1 = k
      · rw [lookup, if_pos hk] at h
        cases h
        rw [put, if_pos hk, ← hk]
      · rw [lookup, if_neg hk] at h
        rw [put, if_neg hk, ih h]

theorem insert_eq_self {t : Table κ α} {k : κ} {v : α} (h : t.get? k = some v) :
    t.insert k v = t :=
  ext (put_eq_self h)

theorem erase_eq_restrict (t : Table κ α) (k : κ) :
    t.erase k = t.restrict fun k' _ => !decide (k' = k) := by
  simp only [erase, ne_eq, decide_not]

theorem restrict_eq_self {t : Table κ α} {p : κ -> α -> Bool}
    (h : forall k v, t.get? k = some v -> p k v = true) : t.restrict p = t :=
  ext (List.filter_eq_self.mpr fun e he => h e.1 e.2 ((mem_entries_iff t e.1 e.2).mp he))

theorem erase_eq_self {t : Table κ α} {k : κ} (h : t.get? k = none) : t.erase k = t := by
  apply restrict_eq_self
  intro k' v hstored
  apply decide_eq_true
  rintro rfl
  rw [h] at hstored
  cases hstored

omit [DecidableEq κ] in
theorem restrict_all (t : Table κ α) : (t.restrict fun _ _ => true) = t :=
  ext (List.filter_eq_self.mpr fun _ _ => rfl)

omit [DecidableEq κ] in
theorem restrict_restrict (t : Table κ α) (first second : κ -> α -> Bool) :
    (t.restrict first).restrict second = t.restrict fun k v => first k v && second k v := by
  apply ext
  simp only [restrict, List.filter_filter, Bool.and_comm]

omit [DecidableEq κ] in
theorem restrict_eq_self_of_size {t : Table κ α} {p : κ -> α -> Bool}
    (h : ¬ (t.restrict p).size < t.size) : t.restrict p = t := by
  apply ext
  exact List.filter_sublist.eq_of_length_le (Nat.le_of_not_lt h)

end Table
end SymbolIndex
