import SymbolIndex.Proofs.Storage.Consistency
import SymbolIndex.Proofs.Store.Dropping

/-!
# Deletions

A file or a part is deleted from several tables, and from each by another key. Seen as
the rows of all tables together, exactly those go that belong to it and the locations of
its symbols, and it counts as a write exactly if there was any.
-/

namespace SymbolIndex

/-- A row of one of the tables. -/
inductive Row where
  | source (text : String)
  | part (id : PartId) (arguments : StoredArguments)
  | member (file : FileId) (owner : PartId)
  | status (file : FileId) (row : StatusRow)
  | symbol (row : SymbolRow)
  | location (row : LocationRow)
deriving DecidableEq

namespace Row

/-- The status of a file, and its symbols. -/
def isRecordOf (file : FileId) : Row -> Bool
  | .status other _ => decide (other = file)
  | .symbol row => decide (row.file = file)
  | _ => false

/-- What is recorded about a file, and that it belongs to a part. -/
def isOf (file : FileId) : Row -> Bool
  | .member other _ => decide (other = file)
  | row => row.isRecordOf file

/-- A part, its memberships, and what was recorded under it. -/
def isUnder (part : PartId) : Row -> Bool
  | .part id _ => decide (id = part)
  | .member _ owner => decide (owner = part)
  | .status _ row => decide (row.part = part)
  | .symbol row => decide (row.part = part)
  | _ => false

end Row

namespace Store

/-- The rows of all tables, each table in its order. -/
def rows (s : Store) : List Row :=
  s.sources.map Row.source
    ++ s.parts.entries.map (fun e => Row.part e.1 e.2)
    ++ s.members.entries.map (fun e => Row.member e.1 e.2)
    ++ s.statuses.entries.map (fun e => Row.status e.1 e.2)
    ++ s.symbols.map Row.symbol
    ++ s.locations.map Row.location

/-- Whether a row goes when some are picked to go: locations go with their symbol. -/
def goes (s : Store) (picked : Row -> Bool) : Row -> Bool
  | .location l => s.symbols.any fun row => decide (row.id = l.symbol) && picked (.symbol row)
  | row => picked row

theorem mem_rows (s : Store) (row : Row) :
    row ∈ s.rows ↔ match row with
      | .source text => text ∈ s.sources
      | .part id arguments => s.parts.get? id = some arguments
      | .member file owner => s.members.get? file = some owner
      | .status file status => s.statuses.get? file = some status
      | .symbol symbol => symbol ∈ s.symbols
      | .location l => l ∈ s.locations := by
  cases row <;> simp [rows, Table.mem_entries_iff]

theorem rows_eq_filter {s t : Store} {picked : Row -> Bool}
    (hsources : t.sources = s.sources) (hkept : forall text, picked (.source text) = false)
    (hparts : t.parts = s.parts.restrict fun id arguments => !picked (.part id arguments))
    (hmembers : t.members = s.members.restrict fun file owner => !picked (.member file owner))
    (hstatuses : t.statuses = s.statuses.restrict fun file row => !picked (.status file row))
    (hsymbols : t.symbols = s.symbols.filter fun row => !picked (.symbol row))
    (hlocations : t.locations = s.locations.filter fun l =>
      !s.symbols.any fun row => decide (row.id = l.symbol) && picked (.symbol row)) :
    t.rows = s.rows.filter fun row => !s.goes picked row := by
  simp only [rows, List.filter_append, List.filter_map, hsources, hparts, hmembers, hstatuses,
    hsymbols, hlocations, Table.restrict, Function.comp_def, goes, hkept]
  simp

/-!
# Whether there is anything to delete
-/

theorem goes_isOf (s : Store) (file : FileId) (row : Row) :
    s.goes (Row.isOf file) row = true ↔
      s.goes (Row.isRecordOf file) row = true ∨ exists owner, row = .member file owner := by
  cases row with
  | member other owner =>
      simp only [goes, Row.isOf, Row.isRecordOf, decide_eq_true_eq, Bool.false_eq_true, false_or,
        Row.member.injEq]
      constructor
      · exact fun hother => ⟨owner, hother, rfl⟩
      · exact fun ⟨_, hother, _⟩ => hother
  | _ => simp [goes, Row.isOf, Row.isRecordOf]

theorem Linked.hasRecords_iff {s : Store} (h : s.Linked) (file : FileId) :
    s.hasRecords file = true ↔ s.rows.any (s.goes (Row.isRecordOf file)) = true := by
  simp only [hasRecords, Bool.or_eq_true, List.any_eq_true, decide_eq_true_eq, Table.contains_iff]
  constructor
  · rintro ((⟨row, hrow, hfile⟩ | ⟨l, hl, hfile⟩) | ⟨status, hstatus⟩)
    · exact ⟨.symbol row, (s.mem_rows _).mpr hrow, decide_eq_true hfile⟩
    · -- a location of the file stands for a symbol of the file
      rcases h.anchored l hl with ⟨row, hrow, -, hsame⟩
      exact ⟨.symbol row, (s.mem_rows _).mpr hrow, decide_eq_true (hsame.trans hfile)⟩
    · exact ⟨.status file status, (s.mem_rows _).mpr hstatus, decide_eq_true rfl⟩
  · rintro ⟨row, hrow, hgoes⟩
    rw [mem_rows] at hrow
    cases row with
    | status other status =>
        rw [of_decide_eq_true hgoes] at hrow
        exact Or.inr ⟨status, hrow⟩
    | symbol row => exact Or.inl (Or.inl ⟨row, hrow, of_decide_eq_true hgoes⟩)
    | location l =>
        rcases List.any_eq_true.mp hgoes with ⟨row, hmem, hboth⟩
        rw [Bool.and_eq_true] at hboth
        exact Or.inl (Or.inl ⟨row, hmem, of_decide_eq_true hboth.2⟩)
    | _ => cases hgoes

theorem Owned.isUnder_iff {s : Store} (h : s.Owned) (hfiled : s.Filed) (part : PartId) :
    s.parts.contains part = true ↔ s.rows.any (s.goes (Row.isUnder part)) = true := by
  rw [List.any_eq_true]
  constructor
  · intro hstored
    rcases (Table.contains_iff _ _).mp hstored with ⟨arguments, hget⟩
    exact ⟨.part part arguments, (s.mem_rows _).mpr hget, decide_eq_true rfl⟩
  · -- symbols name no part by themselves: it is the one of the status of their file
    have hsymbol : forall row, row ∈ s.symbols -> row.part = part ->
        s.parts.contains part = true := by
      intro row hrow hpart
      rcases hfiled.status_of_mem hrow with ⟨status, hstatus, hsame, -⟩
      rw [← hpart, hsame]
      exact h.recorded row.file status hstatus
    rintro ⟨row, hrow, hgoes⟩
    rw [mem_rows] at hrow
    cases row with
    | source text => cases hgoes
    | part id arguments =>
        rw [of_decide_eq_true hgoes] at hrow
        exact (Table.contains_iff _ _).mpr ⟨arguments, hrow⟩
    | member file owner =>
        rw [of_decide_eq_true hgoes] at hrow
        exact h.known file part hrow
    | status file status =>
        rw [← show status.part = part from of_decide_eq_true hgoes]
        exact h.recorded file status hrow
    | symbol row => exact hsymbol row hrow (of_decide_eq_true hgoes)
    | location l =>
        rcases List.any_eq_true.mp hgoes with ⟨row, hmem, hboth⟩
        rw [Bool.and_eq_true] at hboth
        exact hsymbol row hmem (of_decide_eq_true hboth.2)

theorem members_removePart (s : Store) (part : PartId) :
    (s.removePart part).members = s.members.restrict fun _ owner => !decide (owner = part) := by
  simp only [removePart, ne_eq, decide_not]

/-- Removing a part that is not stored changes no table. -/
theorem Owned.removePart_eq_self {s : Store} (h : s.Owned) (hfiled : s.Filed) {part : PartId}
    (hpart : s.parts.contains part = false) : s.removePart part = s := by
  have hnone : s.rows.any (s.goes (Row.isUnder part)) = false := by
    rw [← Bool.not_eq_true, ← h.isUnder_iff hfiled, hpart]
    exact Bool.false_ne_true
  have hstays : forall row, row ∈ s.rows -> s.goes (Row.isUnder part) row = false := by
    intro row hrow
    simpa using List.any_eq_false.mp hnone row hrow
  have hleaves := leaves_removePart s part
  have hparts : (s.removePart part).parts = s.parts :=
    Table.erase_eq_self ((Table.contains_eq_false_iff _ _).mp hpart)
  have hmembers : (s.removePart part).members = s.members := by
    refine (members_removePart s part).trans (Table.restrict_eq_self ?_)
    intro file owner howner
    exact congrArg not (hstays (.member file owner) ((s.mem_rows _).mpr howner))
  have hstatuses : (s.removePart part).statuses = s.statuses := by
    refine hleaves.statuses.trans (Table.restrict_eq_self ?_)
    intro file status hstatus
    exact congrArg not (hstays (.status file status) ((s.mem_rows _).mpr hstatus))
  have hsymbols : (s.removePart part).symbols = s.symbols := by
    refine hleaves.symbols.trans (List.filter_eq_self.mpr ?_)
    intro row hrow
    exact congrArg not (hstays (.symbol row) ((s.mem_rows _).mpr hrow))
  have hlocations : (s.removePart part).locations = s.locations := by
    refine hleaves.locations.trans (List.filter_eq_self.mpr ?_)
    intro l hl
    exact congrArg not (hstays (.location l) ((s.mem_rows _).mpr hl))
  calc
    s.removePart part = { s with
        parts := (s.removePart part).parts
        members := (s.removePart part).members
        statuses := (s.removePart part).statuses
        symbols := (s.removePart part).symbols
        locations := (s.removePart part).locations } := rfl
    _ = s := by rw [hparts, hmembers, hstatuses, hsymbols, hlocations]

end Store

namespace Storage

open Store

/-- Exactly the picked rows go and the locations of picked symbols, in one write or none. -/
structure Deletes (picked : Row -> Bool) (t left : Storage) : Prop where
  rows : left.store.rows = t.store.rows.filter fun row => !t.store.goes picked row
  nextSymbol : left.store.nextSymbol = t.store.nextSymbol
  writes : left.writes =
    if t.store.rows.any (t.store.goes picked) then t.writes + 1 else t.writes

section Deletions

variable {t : Storage}

theorem deletes_clearFile (h : t.store.Linked) (file : FileId) :
    Deletes (Row.isRecordOf file) t (t.clearFile file) where
  rows := by
    have hleaves := h.leaves_clearFile file
    exact rows_eq_filter rfl (fun _ => rfl) (Table.restrict_all _).symm
      (Table.restrict_all _).symm hleaves.statuses hleaves.symbols hleaves.locations
  nextSymbol := rfl
  writes := by
    have hwrites : t.store.hasRecords file =
        t.store.rows.any (t.store.goes (Row.isRecordOf file)) :=
      Bool.eq_iff_iff.mpr (h.hasRecords_iff file)
    rw [← hwrites]
    rfl

theorem deletes_removeFile (h : t.store.Linked) (file : FileId) :
    Deletes (Row.isOf file) t (t.removeFile file) where
  rows := by
    have hleaves := h.leaves_removeFile file
    exact rows_eq_filter rfl (fun _ => rfl) (Table.restrict_all _).symm
      (Table.erase_eq_restrict _ _) hleaves.statuses hleaves.symbols hleaves.locations
  nextSymbol := rfl
  writes := by
    have hwrites : (t.store.hasRecords file || t.store.members.contains file) =
        t.store.rows.any (t.store.goes (Row.isOf file)) := by
      rw [Bool.eq_iff_iff, Bool.or_eq_true, h.hasRecords_iff, Table.contains_iff]
      simp only [List.any_eq_true, goes_isOf]
      constructor
      · rintro (⟨row, hrow, hgoes⟩ | ⟨owner, howner⟩)
        · exact ⟨row, hrow, Or.inl hgoes⟩
        · exact ⟨.member file owner, (mem_rows _ _).mpr howner, Or.inr ⟨owner, rfl⟩⟩
      · rintro ⟨row, hrow, hgoes | ⟨owner, rfl⟩⟩
        · exact Or.inl ⟨row, hrow, hgoes⟩
        · exact Or.inr ⟨owner, (mem_rows _ _).mp hrow⟩
    rw [← hwrites]
    rfl

theorem removePart_answer (t : Storage) (part : PartId) :
    (t.removePart part).1 = t.hasPart part := by
  unfold removePart
  cases t.hasPart part with
  | true => rfl
  | false => rfl

theorem store_removePart (h : t.store.Filed) (howned : t.store.Owned) (part : PartId) :
    (t.removePart part).2.store = t.store.removePart part := by
  unfold removePart
  cases hpart : t.hasPart part with
  | true => rfl
  | false => exact (howned.removePart_eq_self h hpart).symm

theorem deletes_removePart (h : t.store.Filed) (howned : t.store.Owned) (part : PartId) :
    Deletes (Row.isUnder part) t (t.removePart part).2 where
  rows := by
    have hleaves := leaves_removePart t.store part
    rw [store_removePart h howned]
    exact rows_eq_filter rfl (fun _ => rfl) (Table.erase_eq_restrict _ _)
      (members_removePart _ _) hleaves.statuses hleaves.symbols hleaves.locations
  nextSymbol := by
    rw [store_removePart h howned]
    rfl
  writes := by
    have hstored : t.hasPart part = t.store.rows.any (t.store.goes (Row.isUnder part)) :=
      Bool.eq_iff_iff.mpr (howned.isUnder_iff h part)
    rw [← hstored, removePart]
    cases t.hasPart part with
    | true => rfl
    | false => rfl

end Deletions

/-!
# Parts after a deletion
-/

section Fetched

variable {s : Store}

theorem fetchPart_removeFile (howned : s.Owned) (file : FileId) (part : PartId) :
    exists stored, s.fetchPart part = .ok stored ∧
      (s.removeFile file).fetchPart part = .ok (stored.map fun before =>
        { before with files := before.files.filter fun other => decide (other ≠ file) }) := by
  refine howned.fetchPart_of_kept rfl ?_
  intro other
  rw [get?_members_removeFile, decide_eq_true_iff]
  by_cases hother : file = other
  · simp [hother]
  · simp [hother, Ne.symm hother]

theorem fetchPart_removePart (s : Store) (part other : PartId) :
    (s.removePart part).fetchPart other =
      if other = part then .ok none else s.fetchPart other := by
  by_cases hother : other = part
  · rw [if_pos hother, fetchPart, get?_parts_removePart, if_pos hother.symm]
  · have hmembers : (s.removePart part).membersOf other = s.membersOf other := by
      refine (ascending_membersOf _ other).eq_of_mem_iff (ascending_membersOf s other) ?_
      intro file
      rw [mem_membersOf, mem_membersOf, get?_members_removePart, Option.filter_eq_some_iff,
        decide_eq_true_iff, and_iff_left hother]
    rw [if_neg hother, fetchPart, get?_parts_removePart, if_neg (Ne.symm hother), hmembers]
    rfl

end Fetched

/--
What deletions do after any calls. Removing a file takes its symbols with their locations,
its status and its membership; clearing it takes the same except for the membership;
removing a part tells whether it was stored, and takes the part, its memberships and
whatever was recorded under it, also about files that belong to another part or to none by
now. Every other row stays where it
was, the numbers of new symbols go on as before, and it is one write exactly if a row went.
Queries show the same as before and in the same order, less what is gone.
-/
theorem deletions_are_exact (calls : List StorageCall) (file : FileId) (part : PartId) :
    let t := empty.after calls
    let s := t.store
    let removed := t.removeFile file
    let cleared := t.clearFile file
    let left := (t.removePart part).2
    -- a file is removed
    Deletes (Row.isOf file) t removed ∧
    ShowsLess (fun other _ => decide (other = file)) s removed.store ∧
    (forall id, exists stored, s.fetchPart id = .ok stored ∧
      removed.store.fetchPart id = .ok (stored.map fun before =>
        { before with files := before.files.filter fun other => decide (other ≠ file) })) ∧
    -- a file is cleared
    Deletes (Row.isRecordOf file) t cleared ∧
    ShowsLess (fun other _ => decide (other = file)) s cleared.store ∧
    (forall id, cleared.store.fetchPart id = s.fetchPart id) ∧
    -- a part is removed
    ((t.removePart part).1 = true ↔ part ∈ s.partIds) ∧
    Deletes (Row.isUnder part) t left ∧
    ShowsLess (fun _ owner => decide (owner = part)) s left.store ∧
    forall id, left.store.fetchPart id = if id = part then .ok none else s.fetchPart id := by
  intro t s removed cleared left
  have h : s.Consistent := consistent_after consistent_empty calls
  have howned : s.Owned := owned_after consistent_empty owned_empty calls
  have hlinked := h.filed.linked
  have hleft : left.store = s.removePart part := store_removePart h.filed howned part
  refine ⟨deletes_removeFile hlinked file, (hlinked.leaves_removeFile file).showsLess h.filed,
    fetchPart_removeFile howned file, deletes_clearFile hlinked file,
    (hlinked.leaves_clearFile file).showsLess h.filed, fun _ => rfl, ?_,
    deletes_removePart h.filed howned part, ?_, ?_⟩
  · rw [removePart_answer, partIds, List.mem_mergeSort, Table.mem_keys_iff]
    rfl
  · rw [hleft]
    exact (leaves_removePart s part).showsLess h.filed
  · intro id
    rw [hleft, fetchPart_removePart]

end Storage
end SymbolIndex
