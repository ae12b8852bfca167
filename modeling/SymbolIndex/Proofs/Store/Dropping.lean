import SymbolIndex.Proofs.Store.Showing
import SymbolIndex.Proofs.Store.Sound

/-!
# What is left of the records

Whatever takes records away from the store picks symbols and statuses by file and part,
and the locations of a symbol go with it. Queries then show what they showed before,
less the records that were picked, and in the same order.
-/

namespace SymbolIndex

/-!
# Lists of which some elements are dropped
-/

section Lists

variable {α β ε : Type}

theorem mergeSort_cons_eq {le : α -> α -> Bool}
    (htrans : forall a b c, le a b = true -> le b c = true -> le a c = true)
    (htotal : forall a b, (le a b || le b a) = true) (a : α) (l : List α) :
    (a :: l).mergeSort le =
      (l.mergeSort le).filter (fun b => !le a b) ++ a :: (l.mergeSort le).filter (le a) := by
  rcases List.mergeSort_cons htrans htotal a l with ⟨before, after, hcons, hrest, hbefore⟩
  have hsorted := List.pairwise_mergeSort htrans htotal (a :: l)
  rw [hcons] at hsorted
  have hafter := (List.pairwise_cons.mp (List.pairwise_append.mp hsorted).2.1).1
  rw [hcons, hrest, List.filter_append, List.filter_append,
    List.filter_eq_self.mpr hbefore, List.filter_eq_self.mpr hafter,
    List.filter_eq_nil_iff.mpr (fun b hb => by simp [hafter b hb]),
    List.filter_eq_nil_iff.mpr (fun b hb => by simpa using hbefore b hb),
    List.append_nil, List.nil_append]

theorem mergeSort_filter {le : α -> α -> Bool}
    (htrans : forall a b c, le a b = true -> le b c = true -> le a c = true)
    (htotal : forall a b, (le a b || le b a) = true) (keep : α -> Bool) (l : List α) :
    (l.filter keep).mergeSort le = (l.mergeSort le).filter keep := by
  induction l with
  | nil => simp
  | cons a rest ih =>
      cases ha : keep a with
      | true =>
          rw [List.filter_cons_of_pos ha, mergeSort_cons_eq htrans htotal, ih,
            mergeSort_cons_eq htrans htotal, List.filter_append, List.filter_cons_of_pos ha]
          simp only [List.filter_filter, Bool.and_comm]
      | false =>
          have hskip : ¬ keep a = true := by simp [ha]
          rcases List.mergeSort_cons htrans htotal a rest with ⟨before, after, hcons, hrest, -⟩
          rw [List.filter_cons_of_neg hskip, ih, hcons, hrest, List.filter_append,
            List.filter_append, List.filter_cons_of_neg hskip]

variable {f : α -> Except ε β} {l : List α}

theorem exists_mapM (h : forall x, x ∈ l -> exists y, f x = .ok y) :
    exists ys, l.mapM f = .ok ys := by
  induction l with
  | nil => exact ⟨[], rfl⟩
  | cons x rest ih =>
      rcases h x List.mem_cons_self with ⟨y, hy⟩
      rcases ih fun z hz => h z (List.mem_cons_of_mem x hz) with ⟨ys, hys⟩
      exact ⟨y :: ys, by rw [List.mapM_cons, hy, hys]; rfl⟩

theorem mapM_filter {keep : α -> Bool} {kept : β -> Bool} {ys : List β}
    (h : l.mapM f = .ok ys) (hkept : forall x y, f x = .ok y -> kept y = keep x) :
    (l.filter keep).mapM f = .ok (ys.filter kept) := by
  induction l generalizing ys with
  | nil =>
      cases h
      rfl
  | cons x rest ih =>
      rw [List.mapM_cons] at h
      cases hx : f x with
      | error e =>
          rw [hx] at h
          cases h
      | ok y =>
          cases hrest : rest.mapM f with
          | error e =>
              rw [hx, hrest] at h
              cases h
          | ok zs =>
              rw [hx, hrest] at h
              cases h
              rw [List.filter_cons, List.filter_cons, hkept x y hx]
              cases keep x with
              | true =>
                  rw [if_pos rfl, if_pos rfl, List.mapM_cons, hx, ih hrest]
                  rfl
              | false => exact ih hrest

end Lists

namespace Store

/--
`t` is left of `s` once the symbols and statuses whose file and part are `gone` were
dropped, and with the symbols their locations.
-/
structure Leaves (gone : FileId -> PartId -> Bool) (s t : Store) : Prop where
  symbols : t.symbols = s.symbols.filter fun row => !gone row.file row.part
  locations : t.locations = s.locations.filter fun l =>
    !s.symbols.any fun row => decide (row.id = l.symbol) && gone row.file row.part
  statuses : t.statuses = s.statuses.restrict fun file row => !gone file row.part
  sources : t.sources = s.sources
  nextSymbol : t.nextSymbol = s.nextSymbol

/-!
# Whatever takes records away
-/

section Takes

variable {s t : Store}

theorem locations_dropSymbols (s : Store) (doomed : SymbolRow -> Bool) :
    (s.dropSymbols doomed).locations = s.locations.filter fun l =>
      !s.symbols.any fun row => decide (row.id = l.symbol) && doomed row := by
  apply List.filter_congr
  intro l _hl
  congr 1
  rw [Bool.eq_iff_iff]
  simp only [List.contains_eq_mem, decide_eq_true_eq, List.mem_map, List.mem_filter,
    List.any_eq_true, Bool.and_eq_true]
  constructor
  · rintro ⟨row, ⟨hrow, hdoomed⟩, hid⟩
    exact ⟨row, hrow, hid, hdoomed⟩
  · rintro ⟨row, hrow, hid, hdoomed⟩
    exact ⟨row, ⟨hrow, hdoomed⟩, hid⟩

theorem leaves_updatePart {part : PartId} {arguments : List String} {files : List FileId}
    (hok : s.updatePart part arguments files = .ok t) : Leaves (takesAway part files) s t := by
  unfold updatePart at hok
  split at hok
  · cases hok
    exact ⟨rfl, locations_dropSymbols s _, rfl, rfl, rfl⟩
  · cases hok

theorem leaves_removePart (s : Store) (part : PartId) :
    Leaves (fun _ owner => decide (owner = part)) s (s.removePart part) where
  symbols := rfl
  locations := locations_dropSymbols s _
  statuses := by
    rw [removePart]
    simp only [ne_eq, decide_not]
  sources := rfl
  nextSymbol := rfl

theorem Linked.leaves_clearFile (h : s.Linked) (file : FileId) :
    Leaves (fun other _ => decide (other = file)) s (s.clearFile file) where
  symbols := rfl
  locations := (h.rows_clearFile file).2.trans (locations_dropSymbols s _)
  statuses := Table.erase_eq_restrict _ _
  sources := rfl
  nextSymbol := rfl

theorem Linked.leaves_removeFile (h : s.Linked) (file : FileId) :
    Leaves (fun other _ => decide (other = file)) s (s.removeFile file) :=
  let hclear := h.leaves_clearFile file
  ⟨hclear.symbols, hclear.locations, hclear.statuses, rfl, rfl⟩

end Takes

/-!
# Rows that can be read
-/

section Readable

variable {s : Store}

theorem Filed.status_of_mem (h : s.Filed) {row : SymbolRow} (hrow : row ∈ s.symbols) :
    exists status, s.statuses.get? row.file = some status ∧ row.part = status.part ∧
      exists r, s.Records row.file status.part r := by
  cases hstatus : s.statuses.get? row.file with
  | none =>
      have hmem : row ∈ (s.recordsAt row.file).1 := List.mem_filter.mpr ⟨hrow, by simp⟩
      rw [h.blank row.file hstatus] at hmem
      cases hmem
  | some status =>
      rcases h.indexed row.file status hstatus with ⟨r, -, -, hr⟩
      exact ⟨status, rfl, hr.part_of_mem hrow rfl, r, hr⟩

theorem readSymbol_of_mem_symbolRows {file : FileId} {part : PartId} {first : Nat}
    {symbols : List CollectedSymbol} {row : SymbolRow}
    (h : row ∈ symbolRows file part first symbols) :
    exists record, readSymbol row = .ok record := by
  induction symbols generalizing first with
  | nil => cases h
  | cons symbol rest ih =>
      rcases List.mem_cons.mp h with rfl | hrest
      · exact ⟨⟨⟨first⟩, symbol.usr, symbol.kind, symbol.name, file, part⟩, by
          rw [readSymbol, kindOfText?_text]⟩
      · exact ih hrest

theorem Filed.readSymbol_isOk (h : s.Filed) {row : SymbolRow} (hrow : row ∈ s.symbols) :
    exists record, readSymbol row = .ok record := by
  rcases h.status_of_mem hrow with ⟨status, -, -, r, first, hr⟩
  have hmem : row ∈ (s.recordsAt row.file).1 := List.mem_filter.mpr ⟨hrow, by simp⟩
  rw [hr] at hmem
  exact readSymbol_of_mem_symbolRows hmem

theorem Filed.readLocation_isOk (h : s.Filed) {l : LocationRow} (hl : l ∈ s.locations) :
    exists record, readLocation l = .ok record := by
  rcases h.linked.anchored l hl with ⟨row, hrow, -, hfile⟩
  rcases h.status_of_mem hrow with ⟨status, -, -, r, first, hr⟩
  have hmem : l ∈ (s.recordsAt row.file).2 := List.mem_filter.mpr ⟨hl, by simp [hfile]⟩
  rw [hr] at hmem
  rcases List.mem_map.mp hmem with ⟨place, -, rfl⟩
  exact ⟨_, readLocation_locationRow row.file first place⟩

theorem readSymbol_owner {row : SymbolRow} {record : SymbolRecord}
    (h : readSymbol row = .ok record) : record.file = row.file ∧ record.part = row.part := by
  unfold readSymbol at h
  split at h
  · cases h
    exact ⟨rfl, rfl⟩
  · cases h

end Readable

/-!
# What queries show of the rest
-/

/-- Queries show of `t` what they show of `s`, less what is gone, in the same order. -/
structure ShowsLess (gone : FileId -> PartId -> Bool) (s t : Store) : Prop where
  files : forall file, exists records, s.symbolsIn file = .ok records ∧
    t.symbolsIn file = .ok (records.filter fun r => !gone r.file r.part)
  names : forall name, exists records, s.symbolsNamed name = .ok records ∧
    t.symbolsNamed name = .ok (records.filter fun r => !gone r.file r.part)
  ids : forall id, exists record places,
    s.symbol? id = .ok record ∧ s.locationsOf id = .ok places ∧
    t.symbol? id = .ok (record.filter fun r => !gone r.file r.part) ∧
    t.locationsOf id = .ok (if record.any fun r => gone r.file r.part then [] else places)
  statuses : forall file,
    t.indexedFile? file = (s.indexedFile? file).filter fun f => !gone f.file f.part

section Shown

variable {gone : FileId -> PartId -> Bool} {s t : Store}

theorem Filed.read_left (h : s.Filed) (gone : FileId -> PartId -> Bool) {rows : List SymbolRow}
    (hrows : forall row, row ∈ rows -> row ∈ s.symbols) :
    exists records, rows.mapM readSymbol = .ok records ∧
      (rows.filter fun row => !gone row.file row.part).mapM readSymbol =
        .ok (records.filter fun r => !gone r.file r.part) := by
  rcases exists_mapM fun row hrow => h.readSymbol_isOk (hrows row hrow) with ⟨records, hrecords⟩
  refine ⟨records, hrecords, mapM_filter hrecords ?_⟩
  intro row record hread
  rcases readSymbol_owner hread with ⟨hfile, hpart⟩
  rw [hfile, hpart]

theorem byFile_trans (a b c : SymbolRow) (hab : byFile a b = true) (hbc : byFile b c = true) :
    byFile a c = true :=
  decide_eq_true (Int.le_trans (of_decide_eq_true hab) (of_decide_eq_true hbc))

theorem byFile_total (a b : SymbolRow) : (byFile a b || byFile b a) = true := by
  rw [Bool.or_eq_true, byFile, byFile, FileId.le, FileId.le, decide_eq_true_iff,
    decide_eq_true_iff]
  exact Int.le_total a.file.number b.file.number

theorem Leaves.linked (h : Leaves gone s t) (hlinked : s.Linked) : t.Linked :=
  (hlinked.dropSymbols fun row => gone row.file row.part).of_rows_eq h.symbols
    (h.locations.trans (locations_dropSymbols s _).symm) h.nextSymbol

theorem Linked.symbol?_of_mem (h : s.Linked) {row : SymbolRow} (hrow : row ∈ s.symbols) :
    s.symbol? row.id = (readSymbol row).map some := by
  rw [symbol?]
  cases hfind : s.symbols.find? fun other => decide (other.id = row.id) with
  | none =>
      have hne := List.find?_eq_none.mp hfind row hrow
      exact absurd (decide_eq_true rfl) hne
  | some other =>
      have hid : other.id = row.id := by simpa using List.find?_some hfind
      rw [h.eq_of_id_eq (List.mem_of_find?_eq_some hfind) hrow hid]

theorem Linked.shown_of_unknown (h : s.Linked) {id : SymbolId}
    (hnone : forall row, row ∈ s.symbols -> row.id ≠ id) :
    s.symbol? id = .ok none ∧ s.locationsOf id = .ok [] := by
  constructor
  · rw [symbol?, List.find?_eq_none.mpr fun row hrow => by simpa using hnone row hrow]
  · have hplaces : s.locations.filter (fun l => decide (l.symbol = id)) = [] := by
      apply List.filter_eq_nil_iff.mpr
      intro l hl hsymbol
      rcases h.anchored l hl with ⟨row, hrow, hid, -⟩
      exact hnone row hrow (hid.trans (of_decide_eq_true hsymbol))
    rw [locationsOf, hplaces, List.mergeSort_nil]
    rfl

theorem Leaves.locationsOf_of_kept (h : Leaves gone s t) (hlinked : s.Linked) {row : SymbolRow}
    (hrow : row ∈ s.symbols) (hkept : gone row.file row.part = false) :
    t.locationsOf row.id = s.locationsOf row.id := by
  have hplaces : t.locations.filter (fun l => decide (l.symbol = row.id)) =
      s.locations.filter fun l => decide (l.symbol = row.id) := by
    rw [h.locations, List.filter_filter]
    apply List.filter_congr
    intro l _hl
    by_cases hsymbol : l.symbol = row.id
    · have hnone : (s.symbols.any fun other =>
          decide (other.id = l.symbol) && gone other.file other.part) = false := by
        apply List.any_eq_false.mpr
        intro other hother hgone
        rw [Bool.and_eq_true, decide_eq_true_iff] at hgone
        rw [hlinked.eq_of_id_eq hother hrow (hgone.1.trans hsymbol), hkept] at hgone
        exact Bool.false_ne_true hgone.2
      rw [hnone, Bool.not_false, Bool.and_true]
    · rw [decide_eq_false hsymbol, Bool.false_and]
  rw [locationsOf, hplaces, locationsOf]

theorem Filed.locationsOf_isOk (h : s.Filed) (id : SymbolId) :
    exists places, s.locationsOf id = .ok places := by
  apply exists_mapM
  intro l hl
  rw [List.mem_mergeSort] at hl
  exact h.readLocation_isOk (List.mem_of_mem_filter hl)

theorem Leaves.id_shown (h : Leaves gone s t) (hfiled : s.Filed) (id : SymbolId) :
    exists record places,
      s.symbol? id = .ok record ∧ s.locationsOf id = .ok places ∧
      t.symbol? id = .ok (record.filter fun r => !gone r.file r.part) ∧
      t.locationsOf id = .ok (if record.any fun r => gone r.file r.part then [] else places) := by
  have hlinked := hfiled.linked
  have hlinked' := h.linked hlinked
  have hleft : forall row, row ∈ t.symbols ->
      row ∈ s.symbols ∧ gone row.file row.part = false := by
    intro row hrow
    rw [h.symbols, List.mem_filter, Bool.not_eq_true'] at hrow
    exact hrow
  by_cases hknown : exists row, row ∈ s.symbols ∧ row.id = id
  · rcases hknown with ⟨row, hrow, rfl⟩
    rcases hfiled.readSymbol_isOk hrow with ⟨record, hrecord⟩
    rcases readSymbol_owner hrecord with ⟨hfile, hpart⟩
    rcases hfiled.locationsOf_isOk row.id with ⟨places, hplaces⟩
    refine ⟨some record, places, ?_, hplaces, ?_⟩
    · rw [hlinked.symbol?_of_mem hrow, hrecord]
      rfl
    · rw [Option.filter_some, Option.any_some, hfile, hpart]
      cases hgone : gone row.file row.part with
      | true =>
          refine hlinked'.shown_of_unknown ?_
          intro other hother hid
          rcases hleft other hother with ⟨hold, hkept⟩
          rw [hlinked.eq_of_id_eq hold hrow hid, hgone] at hkept
          cases hkept
      | false =>
          have hmem : row ∈ t.symbols := by
            rw [h.symbols]
            exact List.mem_filter.mpr ⟨hrow, by rw [hgone]; rfl⟩
          rw [hlinked'.symbol?_of_mem hmem, hrecord, h.locationsOf_of_kept hlinked hrow hgone]
          exact ⟨rfl, hplaces⟩
  · have hnone : forall row, row ∈ s.symbols -> row.id ≠ id :=
      fun row hrow hid => hknown ⟨row, hrow, hid⟩
    rcases hlinked.shown_of_unknown hnone with ⟨hsymbol, hplaces⟩
    exact ⟨none, [], hsymbol, hplaces,
      hlinked'.shown_of_unknown fun row hrow => hnone row (hleft row hrow).1⟩

theorem Leaves.showsLess (h : Leaves gone s t) (hfiled : s.Filed) : ShowsLess gone s t where
  files := by
    intro file
    rcases hfiled.read_left gone fun row hrow => List.mem_of_mem_filter hrow with
      ⟨records, hrecords, hleft⟩
    refine ⟨records, hrecords, ?_⟩
    rw [symbolsIn, h.symbols, List.filter_comm]
    exact hleft
  names := by
    intro name
    have hrows : forall row,
        row ∈ (s.symbols.filter fun row => row.name == name).mergeSort byFile ->
          row ∈ s.symbols := by
      intro row hrow
      rw [List.mem_mergeSort] at hrow
      exact List.mem_of_mem_filter hrow
    rcases hfiled.read_left gone hrows with ⟨records, hrecords, hleft⟩
    refine ⟨records, hrecords, ?_⟩
    rw [symbolsNamed, h.symbols, List.filter_comm, mergeSort_filter byFile_trans byFile_total]
    exact hleft
  ids := h.id_shown hfiled
  statuses := by
    intro file
    rw [indexedFile?, indexedFile?, h.statuses, Table.get?_restrict, Option.filter_map]
    rfl

end Shown

/-!
# Files of a part
-/

section Parts

variable {s t : Store} {part : PartId} {keep : FileId -> Bool}

theorem membersOf_eq_filter (hmembers : forall file, t.members.get? file = some part ↔
      s.members.get? file = some part ∧ keep file = true) :
    t.membersOf part = (s.membersOf part).filter keep := by
  refine (ascending_membersOf t part).eq_of_mem_iff ((ascending_membersOf s part).filter keep) ?_
  intro file
  rw [mem_membersOf, hmembers, List.mem_filter, mem_membersOf]

theorem Owned.fetchPart_of_kept (h : s.Owned) (hpart : t.parts.get? part = s.parts.get? part)
    (hmembers : forall file, t.members.get? file = some part ↔
      s.members.get? file = some part ∧ keep file = true) :
    exists stored, s.fetchPart part = .ok stored ∧
      t.fetchPart part = .ok (stored.map fun before =>
        { before with files := before.files.filter keep }) := by
  rw [fetchPart, fetchPart, hpart, membersOf_eq_filter hmembers]
  cases hold : s.parts.get? part with
  | none => exact ⟨none, rfl, rfl⟩
  | some old =>
      rcases h.written part old hold with ⟨arguments, rfl⟩
      exact ⟨_, rfl, rfl⟩

end Parts
end Store
end SymbolIndex
