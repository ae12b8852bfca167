import SymbolIndex.Proofs.Storage.Consistency
import SymbolIndex.Proofs.Store.Dropping

/-!
# Files change hands

Storing a part puts it in or renews its arguments, forgets its files, and takes the named
files over one by one: each loses what other parts recorded about it, and gets the part
for its owner. The first one whose path is not stored undoes everything. What comes of it
depends only on which files were named.
-/

namespace SymbolIndex
namespace Store

/-!
# One file after the other
-/

/-- Take a file over: what other parts recorded about it goes, and its owner is replaced. -/
def takeFile (part : PartId) (s : Store) (file : FileId) : Except Failure Store :=
  let kept := s.dropSymbols fun row => takesAway part [file] row.file row.part
  if s.hasSource file then
    .ok { kept with
      members := s.members.insert file part
      statuses := s.statuses.restrict fun other row => !takesAway part [file] other row.part }
  else .error (.storage .foreignKey)

/-- Store a part and take its files over in the order in which they are named. -/
def takeFiles (s : Store) (part : PartId) (arguments : List String) (files : List FileId) :
    Except Failure Store :=
  files.foldlM (takeFile part) { s with
    parts := s.parts.insert part (.written arguments)
    members := s.members.restrict fun _ owner => decide (owner ≠ part) }

theorem takesAway_cons (part : PartId) (file : FileId) (rest : List FileId) (other : FileId)
    (owner : PartId) :
    takesAway part (file :: rest) other owner =
      (takesAway part [file] other owner || takesAway part rest other owner) := by
  simp only [takesAway, List.contains_cons, List.contains_nil, Bool.or_false,
    Bool.and_or_distrib_right]

theorem dropSymbols_eq (s : Store) (doomed : SymbolRow -> Bool) :
    s.dropSymbols doomed =
      { s with
        symbols := s.symbols.filter fun row => !doomed row
        locations := s.locations.filter fun l =>
          !s.symbols.any fun row => decide (row.id = l.symbol) && doomed row } := by
  rw [← locations_dropSymbols]
  rfl

theorem dropSymbols_none (s : Store) : (s.dropSymbols fun _ => false) = s := by
  simp [dropSymbols]

theorem dropSymbols_dropSymbols (s : Store) (first second : SymbolRow -> Bool) :
    (s.dropSymbols first).dropSymbols second =
      s.dropSymbols fun row => first row || second row := by
  have hany : forall id : SymbolId,
      (s.symbols.any fun row => decide (row.id = id) && (first row || second row)) =
        (((s.symbols.filter fun row => !first row).any fun row =>
          decide (row.id = id) && second row) ||
          s.symbols.any fun row => decide (row.id = id) && first row) := by
    intro id
    rw [Bool.eq_iff_iff]
    simp only [Bool.or_eq_true, List.any_eq_true, Bool.and_eq_true, List.mem_filter,
      Bool.not_eq_true']
    constructor
    · rintro ⟨row, hrow, hid, hdoomed⟩
      cases hfirst : first row with
      | true => exact Or.inr ⟨row, hrow, hid, hfirst⟩
      | false =>
          rw [hfirst] at hdoomed
          exact Or.inl ⟨row, ⟨hrow, hfirst⟩, hid, hdoomed.resolve_left Bool.false_ne_true⟩
    · rintro (⟨row, ⟨hrow, -⟩, hid, hsecond⟩ | ⟨row, hrow, hid, hfirst⟩)
      · exact ⟨row, hrow, hid, Or.inr hsecond⟩
      · exact ⟨row, hrow, hid, Or.inl hfirst⟩
  simp only [dropSymbols_eq, List.filter_filter, hany, Bool.not_or]
  simp only [Bool.and_comm]

theorem foldlM_takeFile (part : PartId) (files : List FileId) (s : Store) :
    files.foldlM (takeFile part) s =
      if files.all s.hasSource then
        .ok { s.dropSymbols fun row => takesAway part files row.file row.part with
          members := files.foldl (fun t file => t.insert file part) s.members
          statuses := s.statuses.restrict fun file row => !takesAway part files file row.part }
      else .error (.storage .foreignKey) := by
  induction files generalizing s with
  | nil =>
      simp only [takesAway, List.contains_nil, Bool.false_and, Bool.not_false, dropSymbols_none,
        Table.restrict_all]
      rfl
  | cons file rest ih =>
      rw [List.foldlM_cons, takeFile, List.all_cons]
      cases hfile : s.hasSource file with
      | false => rfl
      | true =>
          simp only [if_true, Bool.true_and]
          refine (ih _).trans ?_
          simp only [takesAway_cons part file rest, Bool.not_or, ← Table.restrict_restrict,
            ← dropSymbols_dropSymbols]
          rfl

theorem takeFiles_eq (s : Store) (part : PartId) (arguments : List String) (files : List FileId) :
    s.takeFiles part arguments files = s.updatePart part arguments files := by
  rw [takeFiles, foldlM_takeFile]
  rfl

/-!
# What the new owner has, and what the others keep
-/

section Taken

variable {s t : Store} {part : PartId} {arguments : List String} {files : List FileId}

theorem takesAway_iff (part : PartId) (files : List FileId) (file : FileId) (owner : PartId) :
    takesAway part files file owner = true ↔ file ∈ files ∧ owner ≠ part := by
  rw [takesAway, Bool.and_eq_true, decide_eq_true_iff, List.contains_iff_mem]

theorem fetchPart_updatePart (hok : s.updatePart part arguments files = .ok t) :
    t.fetchPart part = .ok (some ⟨part, arguments, FileId.ascending files⟩) := by
  have hmembers : t.membersOf part = FileId.ascending files := by
    refine (ascending_membersOf t part).eq_of_mem_iff (FileId.ascending_ascending files) ?_
    intro file
    rw [mem_membersOf, get?_members_updatePart hok, FileId.mem_ascending]
    by_cases hfile : file ∈ files
    · simp [hfile]
    · simp [hfile, Option.filter_eq_some_iff]
  rw [fetchPart, get?_parts_updatePart hok, if_pos rfl, hmembers]
  rfl

theorem fetchPart_updatePart_of_ne (howned : s.Owned)
    (hok : s.updatePart part arguments files = .ok t) {other : PartId} (hne : other ≠ part) :
    exists stored, s.fetchPart other = .ok stored ∧
      t.fetchPart other = .ok (stored.map fun before =>
        { before with files := before.files.filter fun file => !files.contains file }) := by
  have hpart : t.parts.get? other = s.parts.get? other := by
    rw [get?_parts_updatePart hok, if_neg (Ne.symm hne)]
  have hmembers : forall file, t.members.get? file = some other ↔
      s.members.get? file = some other ∧ (!files.contains file) = true := by
    intro file
    rw [get?_members_updatePart hok, Bool.not_eq_true', List.contains_eq_mem,
      decide_eq_false_iff_not]
    by_cases hfile : file ∈ files
    · simp [hfile, Ne.symm hne]
    · simp [hfile, hne, Option.filter_eq_some_iff]
  exact howned.fetchPart_of_kept hpart hmembers

/-- A file loses all that was recorded about it to a new owner, and nothing to any other part. -/
theorem Filed.at_updatePart (h : s.Filed) (hok : s.updatePart part arguments files = .ok t)
    (file : FileId) :
    (forall row, s.statuses.get? file = some row -> file ∈ files -> row.part ≠ part ->
      t.recordsAt file = ([], []) ∧ t.statuses.get? file = none) ∧
    (forall row, s.statuses.get? file = some row -> file ∉ files ∨ row.part = part ->
      t.recordsAt file = s.recordsAt file ∧ t.statuses.get? file = some row) ∧
    (s.statuses.get? file = none ->
      s.recordsAt file = ([], []) ∧ t.recordsAt file = ([], []) ∧
        t.statuses.get? file = none) := by
  have hstatus := get?_statuses_updatePart hok file
  have hrecords := h.recordsAt_drop (takesAway part files) file
  rw [← hstatus, ← recordsAt_updatePart hok] at hrecords
  refine ⟨?_, ?_, ?_⟩
  · intro row hrow hfile hne
    rw [hrow, Option.filter_some, (takesAway_iff part files file row.part).mpr ⟨hfile, hne⟩]
      at hstatus
    rw [hrecords, hstatus]
    exact ⟨rfl, rfl⟩
  · intro row hrow hkept
    have hstays : takesAway part files file row.part = false := by
      rw [← Bool.not_eq_true, takesAway_iff]
      rintro ⟨hfile, hne⟩
      exact hkept.elim (fun hnot => hnot hfile) hne
    rw [hrow, Option.filter_some, hstays] at hstatus
    rw [hrecords, hstatus]
    exact ⟨rfl, rfl⟩
  · intro hnone
    rw [hnone, Option.filter_none] at hstatus
    rw [hrecords, hstatus]
    exact ⟨h.blank file hnone, rfl, rfl⟩

end Taken

end Store

namespace Storage

open Store

theorem updatePart_eq (t : Storage) (part : PartId) (arguments : List String)
    (files : List FileId) :
    t.updatePart part arguments files =
      (t.store.takeFiles part arguments files).map (t.advance true) := by
  rw [takeFiles_eq]
  rfl

theorem updatePart_of_missing (t : Storage) (part : PartId) (arguments : List String)
    {files : List FileId} {file : FileId} (hfile : file ∈ files)
    (hmissing : t.store.source? file = none) :
    t.updatePart part arguments files = .error (.storage .foreignKey) := by
  have hall : ¬ files.all t.store.hasSource = true := by
    intro hall
    have hsource := List.all_eq_true.mp hall file hfile
    rw [hasSource, hmissing] at hsource
    cases hsource
  rw [updatePart, Store.updatePart, if_neg hall]
  rfl

/--
What storing a part does after any calls. It goes file by file, fails with the first file
whose path is not stored, and then leaves everything as it was. Otherwise the part has the
arguments and the files that it was given, each once and in order; each of them loses what
other parts recorded about it and keeps what the part itself did; the other parts lose
these files and nothing else; files that are not named keep their records, and their
owner unless that was the part; and it is one write.
-/
theorem part_takes_exactly_its_files (calls : List StorageCall) (part : PartId)
    (arguments : List String) (files : List FileId) :
    let t := empty.after calls
    let s := t.store
    -- file by file
    t.updatePart part arguments files =
      (s.takeFiles part arguments files).map (t.advance true) ∧
    -- a path is not stored
    ((exists file, file ∈ files ∧ s.source? file = none) ->
      t.updatePart part arguments files = .error (.storage .foreignKey) ∧
      t.attempt (.updatePart part arguments files) = t) ∧
    -- all paths are stored
    ((forall file, file ∈ files -> s.source? file ≠ none) -> exists left,
      t.updatePart part arguments files = .ok left ∧ left.writes = t.writes + 1 ∧
      -- the part and the other parts
      left.store.fetchPart part = .ok (some ⟨part, arguments, FileId.ascending files⟩) ∧
      (forall other, other ≠ part -> exists stored, s.fetchPart other = .ok stored ∧
        left.store.fetchPart other = .ok (stored.map fun before =>
          { before with files := before.files.filter fun file => !files.contains file })) ∧
      -- the files
      (forall file,
        (forall row, s.statuses.get? file = some row -> file ∈ files -> row.part ≠ part ->
          left.store.recordsAt file = ([], []) ∧ left.store.statuses.get? file = none) ∧
        (forall row, s.statuses.get? file = some row -> file ∉ files ∨ row.part = part ->
          left.store.recordsAt file = s.recordsAt file ∧
            left.store.statuses.get? file = some row) ∧
        (s.statuses.get? file = none ->
          s.recordsAt file = ([], []) ∧ left.store.recordsAt file = ([], []) ∧
            left.store.statuses.get? file = none) ∧
        left.store.members.get? file =
          if file ∈ files then some part
          else (s.members.get? file).filter fun owner => decide (owner ≠ part)) ∧
      -- the tables as a whole
      Leaves (takesAway part files) s left.store ∧
      ShowsLess (takesAway part files) s left.store) := by
  intro t s
  have h : s.Consistent := consistent_after consistent_empty calls
  have howned : s.Owned := owned_after consistent_empty owned_empty calls
  refine ⟨updatePart_eq t part arguments files, ?_, ?_⟩
  · rintro ⟨file, hfile, hmissing⟩
    have hfails := t.updatePart_of_missing part arguments hfile hmissing
    refine ⟨hfails, ?_⟩
    rw [attempt, perform, hfails]
  · intro hstored
    rcases updatePart_isOk part arguments fun file hfile =>
      Option.isSome_iff_ne_none.mpr (hstored file hfile) with ⟨s', hok⟩
    have hleaves := leaves_updatePart hok
    refine ⟨t.advance true s', ?_, rfl, fetchPart_updatePart hok, ?_, ?_, hleaves,
      hleaves.showsLess h.filed⟩
    · rw [updatePart, hok]
      rfl
    · intro other hne
      exact fetchPart_updatePart_of_ne howned hok hne
    · intro file
      rcases h.filed.at_updatePart hok file with ⟨hlost, hkept, hnone⟩
      exact ⟨hlost, hkept, hnone, get?_members_updatePart hok file⟩

end Storage
end SymbolIndex
