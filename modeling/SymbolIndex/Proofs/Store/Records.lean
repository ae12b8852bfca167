import Mathlib.Data.List.Nodup
import SymbolIndex.Store.Mutation

/-!
# The records of a file

The symbols and locations of one file stand scattered in two tables of the store. They
are looked at file by file: which symbols are dropped decides which locations go, and a
result set that was stored can be read back up to the numbers of its symbols.
-/

namespace SymbolIndex
namespace Store

/-- The rows of a file: its symbols and its locations. -/
def recordsAt (s : Store) (file : FileId) : List SymbolRow × List LocationRow :=
  (s.symbols.filter fun row => decide (row.file = file),
    s.locations.filter fun l => decide (l.file = file))

/-- What is recorded about a file is a result set of a part, up to the numbers of its symbols. -/
def Records (s : Store) (file : FileId) (part : PartId) (r : Results) : Prop :=
  exists first : Nat, s.recordsAt file =
    (symbolRows file part first r.symbols, r.locations.map (locationRow file first))

/-- Symbols have numbers of their own, and every location names a symbol of its file. -/
structure Linked (s : Store) : Prop where
  distinct : (s.symbols.map SymbolRow.id).Nodup
  issued : forall row, row ∈ s.symbols -> row.id.number < s.nextSymbol
  anchored : forall l, l ∈ s.locations ->
    exists row, row ∈ s.symbols ∧ row.id = l.symbol ∧ row.file = l.file

theorem linked_empty : empty.Linked where
  distinct := List.nodup_nil
  issued := by
    intro row hrow
    cases hrow
  anchored := by
    intro l hl
    cases hl

theorem Linked.eq_of_id_eq {s : Store} (h : s.Linked) {row other : SymbolRow}
    (hrow : row ∈ s.symbols) (hother : other ∈ s.symbols) (heq : row.id = other.id) :
    row = other :=
  List.inj_on_of_nodup_map h.distinct hrow hother heq

theorem Linked.of_rows_eq {s t : Store} (h : s.Linked) (hsymbols : t.symbols = s.symbols)
    (hlocations : t.locations = s.locations) (hnext : t.nextSymbol = s.nextSymbol) :
    t.Linked where
  distinct := by rw [hsymbols]; exact h.distinct
  issued := by rw [hsymbols, hnext]; exact h.issued
  anchored := by rw [hsymbols, hlocations]; exact h.anchored

theorem recordsAt_of_rows_eq {s t : Store} (hsymbols : t.symbols = s.symbols)
    (hlocations : t.locations = s.locations) (file : FileId) :
    t.recordsAt file = s.recordsAt file := by
  rw [recordsAt, hsymbols, hlocations, recordsAt]

theorem Records.of_recordsAt_eq {s t : Store} {file : FileId} {part : PartId} {r : Results}
    (h : s.Records file part r) (heq : t.recordsAt file = s.recordsAt file) :
    t.Records file part r := by
  rcases h with ⟨first, hfirst⟩
  exact ⟨first, heq.trans hfirst⟩

/-!
# Dropping symbols
-/

theorem mem_locations_dropSymbols {s : Store} {doomed : SymbolRow -> Bool} {l : LocationRow} :
    l ∈ (s.dropSymbols doomed).locations ↔
      l ∈ s.locations ∧ forall row, row ∈ s.symbols -> row.id = l.symbol -> doomed row = false := by
  simp only [dropSymbols, List.mem_filter, Bool.not_eq_true', List.contains_eq_mem,
    decide_eq_false_iff_not, List.mem_map, not_exists, not_and]
  constructor
  · rintro ⟨hl, hkept⟩
    refine ⟨hl, ?_⟩
    intro row hrow hid
    cases hdoomed : doomed row with
    | false => rfl
    | true => exact absurd hid (hkept row ⟨hrow, hdoomed⟩)
  · rintro ⟨hl, hkept⟩
    refine ⟨hl, ?_⟩
    rintro row ⟨hrow, hdoomed⟩ hid
    rw [hkept row hrow hid] at hdoomed
    cases hdoomed

theorem Linked.dropSymbols {s : Store} (h : s.Linked) (doomed : SymbolRow -> Bool) :
    (s.dropSymbols doomed).Linked where
  distinct := h.distinct.sublist (List.filter_sublist.map _)
  issued := by
    intro row hrow
    exact h.issued row (List.mem_of_mem_filter hrow)
  anchored := by
    intro l hl
    rcases mem_locations_dropSymbols.mp hl with ⟨hold, hkept⟩
    rcases h.anchored l hold with ⟨row, hrow, hid, hfile⟩
    refine ⟨row, List.mem_filter.mpr ⟨hrow, ?_⟩, hid, hfile⟩
    rw [hkept row hrow hid]
    rfl

theorem Linked.recordsAt_dropSymbols_of_kept {s : Store} (h : s.Linked)
    {doomed : SymbolRow -> Bool} {file : FileId}
    (hkept : forall row, row ∈ s.symbols -> row.file = file -> doomed row = false) :
    (s.dropSymbols doomed).recordsAt file = s.recordsAt file := by
  apply Prod.ext
  · simp only [recordsAt, Store.dropSymbols, List.filter_filter]
    apply List.filter_congr
    intro row hrow
    by_cases hfile : row.file = file
    · simp [hfile, hkept row hrow hfile]
    · simp [hfile]
  · simp only [recordsAt, Store.dropSymbols, List.filter_filter]
    apply List.filter_congr
    intro l hl
    by_cases hfile : l.file = file
    · have hmem : l ∈ (s.dropSymbols doomed).locations := by
        refine mem_locations_dropSymbols.mpr ⟨hl, ?_⟩
        intro row hrow hid
        rcases h.anchored l hl with ⟨anchor, hanchor, hanchorId, hanchorFile⟩
        rw [h.eq_of_id_eq hrow hanchor (hid.trans hanchorId.symm)]
        exact hkept anchor hanchor (hanchorFile.trans hfile)
      have hpass := (List.mem_filter.mp hmem).2
      rw [hpass, Bool.and_true]
    · simp [hfile]

theorem Linked.recordsAt_dropSymbols_of_doomed {s : Store} (h : s.Linked)
    {doomed : SymbolRow -> Bool} {file : FileId}
    (hdoomed : forall row, row ∈ s.symbols -> row.file = file -> doomed row = true) :
    (s.dropSymbols doomed).recordsAt file = ([], []) := by
  apply Prod.ext
  · apply List.filter_eq_nil_iff.mpr
    intro row hrow hfile
    rcases List.mem_filter.mp hrow with ⟨hold, hkept⟩
    rw [hdoomed row hold (by simpa using hfile)] at hkept
    cases hkept
  · apply List.filter_eq_nil_iff.mpr
    intro l hl hfile
    rcases mem_locations_dropSymbols.mp hl with ⟨hold, hkept⟩
    rcases h.anchored l hold with ⟨row, hrow, hid, hrowFile⟩
    have hgone := hdoomed row hrow (hrowFile.trans (by simpa using hfile))
    rw [hkept row hrow hid] at hgone
    cases hgone

/-!
# Rows of a result set
-/

theorem strayLocation?_eq_none_iff (r : Results) :
    strayLocation? r = none ↔ forall l, l ∈ r.locations -> l.symbol < r.symbols.length := by
  simp [strayLocation?, List.find?_eq_none]

theorem mem_symbolRows {file : FileId} {part : PartId} {first : Nat}
    {symbols : List CollectedSymbol} {row : SymbolRow}
    (h : row ∈ symbolRows file part first symbols) :
    row.file = file ∧ row.part = part ∧
      first ≤ row.id.number ∧ row.id.number < first + symbols.length := by
  induction symbols generalizing first with
  | nil => cases h
  | cons symbol rest ih =>
      rcases List.mem_cons.mp h with rfl | hrest
      · refine ⟨rfl, rfl, Int.le_refl _, ?_⟩
        simp only [List.length_cons]
        omega
      · rcases ih hrest with ⟨hfile, hpart, hlow, hhigh⟩
        simp only [List.length_cons]
        exact ⟨hfile, hpart, by omega, by omega⟩

theorem Records.part_of_mem {s : Store} {file : FileId} {part : PartId} {r : Results}
    (h : s.Records file part r) {row : SymbolRow} (hrow : row ∈ s.symbols)
    (hfile : row.file = file) : row.part = part := by
  rcases h with ⟨first, hfirst⟩
  have hmem : row ∈ (s.recordsAt file).1 := List.mem_filter.mpr ⟨hrow, by simpa using hfile⟩
  rw [hfirst] at hmem
  exact (mem_symbolRows hmem).2.1

theorem exists_mem_symbolRows (file : FileId) (part : PartId) (first : Nat)
    {symbols : List CollectedSymbol} {n : Nat} (h : n < symbols.length) :
    exists row, row ∈ symbolRows file part first symbols ∧ row.id = ⟨(first + n : Nat)⟩ := by
  induction symbols generalizing first n with
  | nil => cases h
  | cons symbol rest ih =>
      cases n with
      | zero => exact ⟨_, List.mem_cons_self, rfl⟩
      | succ n =>
          rcases ih (first + 1) (Nat.lt_of_succ_lt_succ h) with ⟨row, hrow, hid⟩
          refine ⟨row, List.mem_cons_of_mem _ hrow, ?_⟩
          rw [hid, show first + 1 + n = first + (n + 1) by omega]

theorem nodup_symbolRows (file : FileId) (part : PartId) (first : Nat)
    (symbols : List CollectedSymbol) :
    ((symbolRows file part first symbols).map SymbolRow.id).Nodup := by
  induction symbols generalizing first with
  | nil => exact List.nodup_nil
  | cons symbol rest ih =>
      rw [symbolRows, List.map_cons, List.nodup_cons]
      refine ⟨?_, ih (first + 1)⟩
      intro hmem
      rcases List.mem_map.mp hmem with ⟨row, hrow, hid⟩
      have hlow := (mem_symbolRows hrow).2.2.1
      rw [hid] at hlow
      simp only at hlow
      omega

theorem kindText_injective : Function.Injective SymbolKind.text := by
  intro a b h
  cases a <;> cases b <;> first | rfl | exact absurd h (by decide)

theorem roleText_injective : Function.Injective Role.text := by
  intro a b h
  cases a <;> cases b <;> first | rfl | exact absurd h (by decide)

theorem symbolRows_injective {file : FileId} {part part' : PartId} {first first' : Nat}
    {symbols symbols' : List CollectedSymbol}
    (h : symbolRows file part first symbols = symbolRows file part' first' symbols') :
    symbols = symbols' ∧ (symbols ≠ [] -> first = first') := by
  induction symbols generalizing first first' symbols' with
  | nil =>
      cases symbols' with
      | nil => exact ⟨rfl, fun hne => absurd rfl hne⟩
      | cons symbol rest => cases h
  | cons symbol rest ih =>
      cases symbols' with
      | nil => cases h
      | cons symbol' rest' =>
          rcases symbol with ⟨usr, kind, name⟩
          rcases symbol' with ⟨usr', kind', name'⟩
          simp only [symbolRows, List.cons.injEq, SymbolRow.mk.injEq, SymbolId.mk.injEq,
            Int.natCast_inj] at h
          rcases h with ⟨⟨hfirst, rfl, rfl, hkind, -, -⟩, hrest⟩
          rw [kindText_injective hkind, (ih hrest).1]
          exact ⟨rfl, fun _ => hfirst⟩

theorem locationRow_injective (file : FileId) (first : Nat) :
    Function.Injective (locationRow file first) := by
  intro a b h
  rcases a with ⟨symbol, line, column, role⟩
  rcases b with ⟨symbol', line', column', role'⟩
  simp only [locationRow, LocationRow.mk.injEq, SymbolId.mk.injEq, Int.natCast_inj,
    Nat.add_left_cancel_iff] at h
  rcases h with ⟨rfl, -, rfl, rfl, hrole⟩
  rw [roleText_injective hrole]

theorem Records.unique {s : Store} {file : FileId} {part part' : PartId} {r r' : Results}
    (h : s.Records file part r) (h' : s.Records file part' r')
    (hr' : strayLocation? r' = none) : r = r' := by
  rcases h with ⟨first, hfirst⟩
  rcases h' with ⟨first', hfirst'⟩
  have heq := hfirst.symm.trans hfirst'
  rcases symbolRows_injective (Prod.ext_iff.mp heq).1 with ⟨hsymbols, hsame⟩
  have hlocations := (Prod.ext_iff.mp heq).2
  rcases r with ⟨symbols, locations⟩
  rcases r' with ⟨symbols', locations'⟩
  simp only at hsymbols hsame hlocations
  subst hsymbols
  cases symbols with
  | nil =>
      -- without symbols there are no locations
      have hnone : locations' = [] := by
        apply List.eq_nil_iff_forall_not_mem.mpr
        intro l hl
        exact absurd ((strayLocation?_eq_none_iff _).mp hr' l hl) (Nat.not_lt_zero _)
      rw [hnone, List.map_nil] at hlocations
      rw [hnone, List.map_eq_nil_iff.mp hlocations]
  | cons symbol rest =>
      rw [hsame (List.cons_ne_nil symbol rest)] at hlocations
      rw [(locationRow_injective file first').list_map hlocations]

/-!
# Replacing the records of a file
-/

theorem Linked.replaceRecords {s : Store} (h : s.Linked) (file : FileId) (part : PartId)
    {r : Results} (hr : strayLocation? r = none) : (s.replaceRecords file part r).Linked where
  distinct := by
    simp only [Store.replaceRecords, List.map_append]
    refine List.nodup_append.mpr
      ⟨(h.dropSymbols _).distinct, nodup_symbolRows file part s.nextSymbol r.symbols, ?_⟩
    intro id hid other hother heq
    rcases List.mem_map.mp hid with ⟨row, hrow, rfl⟩
    rcases List.mem_map.mp hother with ⟨new, hnew, rfl⟩
    have hold := h.issued row (List.mem_of_mem_filter hrow)
    have hlow := (mem_symbolRows hnew).2.2.1
    rw [heq] at hold
    omega
  issued := by
    intro row hrow
    simp only [Store.replaceRecords, List.mem_append] at hrow ⊢
    rcases hrow with hold | hnew
    · have hissued := h.issued row (List.mem_of_mem_filter hold)
      omega
    · have hhigh := (mem_symbolRows hnew).2.2.2
      omega
  anchored := by
    intro l hl
    simp only [Store.replaceRecords, List.mem_append] at hl ⊢
    rcases hl with hold | hnew
    · rcases (h.dropSymbols _).anchored l hold with ⟨row, hrow, hid, hfile⟩
      exact ⟨row, Or.inl hrow, hid, hfile⟩
    · rcases List.mem_map.mp hnew with ⟨place, hplace, rfl⟩
      have hbound := (strayLocation?_eq_none_iff r).mp hr place hplace
      rcases exists_mem_symbolRows file part s.nextSymbol hbound with ⟨row, hrow, hid⟩
      exact ⟨row, Or.inr hrow, hid, (mem_symbolRows hrow).1⟩

theorem Linked.recordsAt_replaceRecords_self {s : Store} (h : s.Linked) (file : FileId)
    (part : PartId) (r : Results) :
    (s.replaceRecords file part r).recordsAt file =
      (symbolRows file part s.nextSymbol r.symbols,
        r.locations.map (locationRow file s.nextSymbol)) := by
  have hblank : (s.dropSymbols fun row => decide (row.file = file)).recordsAt file = ([], []) :=
    h.recordsAt_dropSymbols_of_doomed (by simp)
  rcases Prod.ext_iff.mp hblank with ⟨hsymbols, hlocations⟩
  apply Prod.ext
  · simp only [recordsAt] at hsymbols
    simp only [recordsAt, Store.replaceRecords, List.filter_append, hsymbols, List.nil_append]
    apply List.filter_eq_self.mpr
    intro row hrow
    simpa using (mem_symbolRows hrow).1
  · simp only [recordsAt] at hlocations
    simp only [recordsAt, Store.replaceRecords, List.filter_append, hlocations, List.nil_append]
    apply List.filter_eq_self.mpr
    intro l hl
    rcases List.mem_map.mp hl with ⟨place, _hplace, rfl⟩
    simp [locationRow]

theorem Linked.records_replaceRecords {s : Store} (h : s.Linked) (file : FileId) (part : PartId)
    (r : Results) : (s.replaceRecords file part r).Records file part r :=
  ⟨s.nextSymbol, h.recordsAt_replaceRecords_self file part r⟩

theorem Linked.recordsAt_replaceRecords {s : Store} (h : s.Linked) {file other : FileId}
    (hne : other ≠ file) (part : PartId) (r : Results) :
    (s.replaceRecords file part r).recordsAt other = s.recordsAt other := by
  have hkept : (s.dropSymbols fun row => decide (row.file = file)).recordsAt other =
      s.recordsAt other := by
    apply h.recordsAt_dropSymbols_of_kept
    intro row _hrow hrowFile
    simp [hrowFile, hne]
  rw [← hkept]
  apply Prod.ext
  · simp only [recordsAt, Store.replaceRecords, List.filter_append]
    refine List.append_right_eq_self.mpr (List.filter_eq_nil_iff.mpr ?_)
    intro row hrow hfile
    exact hne ((of_decide_eq_true hfile).symm.trans (mem_symbolRows hrow).1)
  · simp only [recordsAt, Store.replaceRecords, List.filter_append]
    refine List.append_right_eq_self.mpr (List.filter_eq_nil_iff.mpr ?_)
    intro l hl hfile
    rcases List.mem_map.mp hl with ⟨place, _hplace, rfl⟩
    exact hne (of_decide_eq_true hfile).symm

end Store
end SymbolIndex
