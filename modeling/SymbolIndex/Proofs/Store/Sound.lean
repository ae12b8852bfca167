import SymbolIndex.Proofs.FileId
import SymbolIndex.Proofs.Store.Records
import SymbolIndex.Proofs.Table

/-!
# Sound stores

A file has records only with a status, the status carries the part that the file belongs
to, and the records are the result set whose digest stands in the status. Every mutation
that the engine makes keeps this. What does not depend on the memberships is kept by
every mutation whatsoever.
-/

namespace SymbolIndex
namespace Store

/-- A file has the records whose digest and part stand in its status, and none without one. -/
structure Filed (s : Store) : Prop where
  linked : s.Linked
  indexed : forall file row, s.statuses.get? file = some row ->
    exists r, strayLocation? r = none ∧ r.digest = row.digest ∧ s.Records file row.part r
  blank : forall file, s.statuses.get? file = none -> s.recordsAt file = ([], [])

/-- Parts that own a file or have anything recorded are stored, and with arguments as written. -/
structure Owned (s : Store) : Prop where
  written : forall part stored, s.parts.get? part = some stored ->
    exists arguments, stored = .written arguments
  known : forall file part, s.members.get? file = some part -> s.parts.contains part = true
  recorded : forall file row, s.statuses.get? file = some row ->
    s.parts.contains row.part = true

structure Sound (s : Store) : Prop where
  linked : s.Linked
  written : forall part stored, s.parts.get? part = some stored ->
    exists arguments, stored = .written arguments
  known : forall file part, s.members.get? file = some part -> s.parts.contains part = true
  tracked : forall file row, s.statuses.get? file = some row ->
    s.members.get? file = some row.part
  indexed : forall file row, s.statuses.get? file = some row ->
    exists r, strayLocation? r = none ∧ r.digest = row.digest ∧ s.Records file row.part r
  blank : forall file, s.statuses.get? file = none -> s.recordsAt file = ([], [])

theorem Sound.filed {s : Store} (h : s.Sound) : s.Filed := ⟨h.linked, h.indexed, h.blank⟩

theorem Sound.owned {s : Store} (h : s.Sound) : s.Owned :=
  ⟨h.written, h.known, fun file row hrow => h.known file row.part (h.tracked file row hrow)⟩

theorem filed_empty : empty.Filed where
  linked := linked_empty
  indexed := by
    intro file row h
    cases h
  blank := by
    intro file _h
    rfl

theorem owned_empty : empty.Owned where
  written := by
    intro part stored h
    cases h
  known := by
    intro file part h
    cases h
  recorded := by
    intro file row h
    cases h

theorem sound_empty : empty.Sound where
  linked := filed_empty.linked
  written := owned_empty.written
  known := owned_empty.known
  tracked := by
    intro file row h
    cases h
  indexed := filed_empty.indexed
  blank := filed_empty.blank

theorem Sound.of_rest_eq {s t : Store} (h : s.Sound)
    (heq : t = { s with sources := t.sources }) : t.Sound := by
  rw [heq]
  exact
    { linked := h.linked.of_rows_eq rfl rfl rfl
      written := h.written
      known := h.known
      tracked := h.tracked
      indexed := h.indexed
      blank := h.blank }

theorem mem_membersOf (s : Store) (part : PartId) (file : FileId) :
    file ∈ s.membersOf part ↔ s.members.get? file = some part := by
  rw [membersOf, List.mem_mergeSort, List.mem_map, ← Table.mem_entries_iff]
  constructor
  · rintro ⟨⟨other, owner⟩, hmem, rfl⟩
    rcases List.mem_filter.mp hmem with ⟨hentry, howner⟩
    have heq : owner = part := of_decide_eq_true howner
    rw [← heq]
    exact hentry
  · intro hmem
    exact ⟨(file, part), List.mem_filter.mpr ⟨hmem, by simp⟩, rfl⟩

theorem ascending_membersOf (s : Store) (part : PartId) :
    FileId.Ascending (s.membersOf part) :=
  FileId.ascending_mergeSort (s.members.nodup.sublist (List.filter_sublist.map Prod.fst))

/-!
# Dropping records by file and part
-/

theorem Filed.recordsAt_drop {s : Store} (h : s.Filed) (gone : FileId -> PartId -> Bool)
    (file : FileId) :
    (s.dropSymbols fun row => gone row.file row.part).recordsAt file =
      match (s.statuses.get? file).filter fun row => !gone file row.part with
      | some _ => s.recordsAt file
      | none => ([], []) := by
  cases hstatus : s.statuses.get? file with
  | none =>
      apply h.linked.recordsAt_dropSymbols_of_doomed
      intro row hrow hfile
      have hmem : row ∈ (s.recordsAt file).1 :=
        List.mem_filter.mpr ⟨hrow, by simpa using hfile⟩
      rw [h.blank file hstatus] at hmem
      cases hmem
  | some status =>
      rcases h.indexed file status hstatus with ⟨r, -, -, hrecords⟩
      cases hgone : gone file status.part with
      | true =>
          simp only [Option.filter_some, hgone, Bool.not_true, Bool.false_eq_true, if_false]
          apply h.linked.recordsAt_dropSymbols_of_doomed
          intro row hrow hfile
          rw [hfile, hrecords.part_of_mem hrow hfile, hgone]
      | false =>
          simp only [Option.filter_some, hgone, Bool.not_false, if_true]
          apply h.linked.recordsAt_dropSymbols_of_kept
          intro row hrow hfile
          rw [hfile, hrecords.part_of_mem hrow hfile, hgone]

theorem Sound.recordsAt_drop {s : Store} (h : s.Sound) (gone : FileId -> PartId -> Bool)
    (file : FileId) :
    (s.dropSymbols fun row => gone row.file row.part).recordsAt file =
      match (s.statuses.get? file).filter fun row => !gone file row.part with
      | some _ => s.recordsAt file
      | none => ([], []) :=
  h.filed.recordsAt_drop gone file

theorem Filed.of_drop {s t : Store} (h : s.Filed) (gone : FileId -> PartId -> Bool)
    (hlinked : t.Linked)
    (hrecords : forall file, t.recordsAt file =
      (s.dropSymbols fun row => gone row.file row.part).recordsAt file)
    (hstatuses : forall file, t.statuses.get? file =
      (s.statuses.get? file).filter fun row => !gone file row.part) : t.Filed where
  linked := hlinked
  indexed := by
    intro file row hrow
    have hdrop := h.recordsAt_drop gone file
    rw [← hstatuses, hrow, ← hrecords] at hdrop
    rw [hstatuses, Option.filter_eq_some_iff] at hrow
    rcases h.indexed file row hrow.1 with ⟨r, hstray, hdigest, hr⟩
    exact ⟨r, hstray, hdigest, hr.of_recordsAt_eq hdrop⟩
  blank := by
    intro file hnone
    have hdrop := h.recordsAt_drop gone file
    rw [← hstatuses, hnone, ← hrecords] at hdrop
    exact hdrop

/--
A store from which statuses were dropped is sound, if what is left of the parts and the
memberships fits the statuses that are left.
-/
theorem Filed.sound_of_drop {s t : Store} (hfiled : t.Filed) (gone : FileId -> PartId -> Bool)
    (hstatuses : forall file, t.statuses.get? file =
      (s.statuses.get? file).filter fun row => !gone file row.part)
    (written : forall part stored, t.parts.get? part = some stored ->
      exists arguments, stored = .written arguments)
    (known : forall file part, t.members.get? file = some part -> t.parts.contains part = true)
    (tracked : forall file row, s.statuses.get? file = some row -> gone file row.part = false ->
      t.members.get? file = some row.part) : t.Sound where
  linked := hfiled.linked
  written := written
  known := known
  tracked := by
    intro file row hrow
    rw [hstatuses, Option.filter_eq_some_iff] at hrow
    exact tracked file row hrow.1 (by simpa using hrow.2)
  indexed := hfiled.indexed
  blank := hfiled.blank

/-!
# Parts
-/

section UpdatePart

variable {s t : Store} {part : PartId} {arguments : List String} {files : List FileId}

/-- Which records a part takes away when it becomes the owner of files. -/
def takesAway (part : PartId) (files : List FileId) (file : FileId) (owner : PartId) : Bool :=
  files.contains file && decide (owner ≠ part)

theorem sources_updatePart (hok : s.updatePart part arguments files = .ok t) :
    t.sources = s.sources := by
  unfold updatePart at hok
  split at hok
  · cases hok
    rfl
  · cases hok

theorem updatePart_isOk (part : PartId) (arguments : List String)
    (h : forall file, file ∈ files -> s.hasSource file = true) :
    exists t, s.updatePart part arguments files = .ok t := by
  unfold updatePart
  rw [if_pos (List.all_eq_true.mpr h)]
  exact ⟨_, rfl⟩

theorem get?_parts_updatePart (hok : s.updatePart part arguments files = .ok t) (id : PartId) :
    t.parts.get? id = if part = id then some (.written arguments) else s.parts.get? id := by
  unfold updatePart at hok
  split at hok
  · cases hok
    exact Table.get?_insert _ _ _ _
  · cases hok

theorem get?_members_updatePart (hok : s.updatePart part arguments files = .ok t)
    (file : FileId) :
    t.members.get? file =
      if file ∈ files then some part
      else (s.members.get? file).filter fun owner => decide (owner ≠ part) := by
  unfold updatePart at hok
  split at hok
  · cases hok
    simp only [Table.get?_foldl_insert, Table.get?_restrict]
  · cases hok

theorem get?_statuses_updatePart (hok : s.updatePart part arguments files = .ok t)
    (file : FileId) :
    t.statuses.get? file =
      (s.statuses.get? file).filter fun row => !takesAway part files file row.part := by
  unfold updatePart at hok
  split at hok
  · cases hok
    exact Table.get?_restrict _ _ _
  · cases hok

theorem recordsAt_updatePart (hok : s.updatePart part arguments files = .ok t)
    (file : FileId) :
    t.recordsAt file =
      (s.dropSymbols fun row => takesAway part files row.file row.part).recordsAt file := by
  unfold updatePart at hok
  split at hok
  · cases hok
    rfl
  · cases hok

theorem Filed.updatePart (h : s.Filed) (hok : s.updatePart part arguments files = .ok t) :
    t.Filed := by
  refine h.of_drop (takesAway part files) ?_ (recordsAt_updatePart hok)
    (get?_statuses_updatePart hok)
  unfold Store.updatePart at hok
  split at hok
  · cases hok
    exact (h.linked.dropSymbols _).of_rows_eq rfl rfl rfl
  · cases hok

theorem Owned.updatePart (h : s.Owned) (hok : s.updatePart part arguments files = .ok t) :
    t.Owned := by
  have hkept : forall id, s.parts.contains id = true -> id ≠ part ->
      t.parts.contains id = true := by
    intro id hstored hne
    rw [Table.contains_iff, get?_parts_updatePart hok, if_neg (Ne.symm hne)]
    exact (Table.contains_iff _ _).mp hstored
  have hpart : t.parts.contains part = true := by
    rw [Table.contains_iff, get?_parts_updatePart hok]
    exact ⟨_, if_pos rfl⟩
  refine ⟨?_, ?_, ?_⟩
  · intro id stored hstored
    rw [get?_parts_updatePart hok] at hstored
    split at hstored
    · cases hstored
      exact ⟨arguments, rfl⟩
    · exact h.written id stored hstored
  · intro file owner howner
    rw [get?_members_updatePart hok] at howner
    split at howner
    · cases howner
      exact hpart
    · rcases Option.filter_eq_some_iff.mp howner with ⟨hmember, hne⟩
      exact hkept owner (h.known file owner hmember) (of_decide_eq_true hne)
  · intro file row hrow
    rw [get?_statuses_updatePart hok, Option.filter_eq_some_iff] at hrow
    by_cases hne : row.part = part
    · rw [hne]
      exact hpart
    · exact hkept row.part (h.recorded file row hrow.1) hne

theorem Sound.updatePart (h : s.Sound) (hok : s.updatePart part arguments files = .ok t)
    (hleft : forall file, s.members.get? file = some part -> file ∉ files ->
      s.statuses.get? file = none) : t.Sound := by
  have howned := h.owned.updatePart hok
  refine (h.filed.updatePart hok).sound_of_drop (takesAway part files)
    (get?_statuses_updatePart hok) howned.written howned.known ?_
  · intro file row hrow hkept
    rw [get?_members_updatePart hok]
    have hmember := h.tracked file row hrow
    by_cases hfile : file ∈ files
    · rw [if_pos hfile]
      simp only [takesAway, List.contains_eq_mem, hfile, decide_true, Bool.true_and,
        decide_eq_false_iff_not, not_not] at hkept
      rw [hkept]
    · rw [if_neg hfile, hmember]
      by_cases hpart : row.part = part
      · rw [hpart] at hmember
        rw [hleft file hmember hfile] at hrow
        cases hrow
      · simp [hpart]

end UpdatePart

theorem get?_parts_removePart (s : Store) (part id : PartId) :
    (s.removePart part).parts.get? id = if part = id then none else s.parts.get? id :=
  Table.get?_erase _ _ _

theorem get?_members_removePart (s : Store) (part : PartId) (file : FileId) :
    (s.removePart part).members.get? file =
      (s.members.get? file).filter fun owner => decide (owner ≠ part) :=
  Table.get?_restrict _ _ _

theorem get?_statuses_removePart (s : Store) (part : PartId) (file : FileId) :
    (s.removePart part).statuses.get? file =
      (s.statuses.get? file).filter fun row => !decide (row.part = part) := by
  have hrestrict := Table.get?_restrict s.statuses (fun _ row => decide (row.part ≠ part)) file
  refine hrestrict.trans (congrArg (Option.filter · _) ?_)
  funext row
  simp

theorem Filed.removePart {s : Store} (h : s.Filed) (part : PartId) : (s.removePart part).Filed :=
  h.of_drop (fun _ owner => decide (owner = part))
    ((h.linked.dropSymbols _).of_rows_eq rfl rfl rfl) (fun _ => rfl)
    (get?_statuses_removePart s part)

theorem Owned.removePart {s : Store} (h : s.Owned) (part : PartId) : (s.removePart part).Owned := by
  have hkept : forall id, s.parts.contains id = true -> id ≠ part ->
      (s.removePart part).parts.contains id = true := by
    intro id hstored hne
    rw [Table.contains_iff, get?_parts_removePart, if_neg (Ne.symm hne)]
    exact (Table.contains_iff _ _).mp hstored
  refine ⟨?_, ?_, ?_⟩
  · intro id stored hstored
    rw [get?_parts_removePart] at hstored
    split at hstored
    · cases hstored
    · exact h.written id stored hstored
  · intro file owner howner
    rw [get?_members_removePart] at howner
    rcases Option.filter_eq_some_iff.mp howner with ⟨hmember, hne⟩
    exact hkept owner (h.known file owner hmember) (of_decide_eq_true hne)
  · intro file row hrow
    rw [get?_statuses_removePart, Option.filter_eq_some_iff] at hrow
    exact hkept row.part (h.recorded file row hrow.1) (by simpa using hrow.2)

theorem Sound.removePart {s : Store} (h : s.Sound) (part : PartId) : (s.removePart part).Sound := by
  have howned := h.owned.removePart part
  refine (h.filed.removePart part).sound_of_drop (fun _ owner => decide (owner = part))
    (get?_statuses_removePart s part) howned.written howned.known ?_
  intro file row hrow hkept
  rw [get?_members_removePart, h.tracked file row hrow]
  simpa using hkept

theorem Sound.at_removePart {s : Store} (h : s.Sound) {part : PartId}
    (hnone : forall file, s.members.get? file ≠ some part) (file : FileId) :
    (s.removePart part).members.get? file = s.members.get? file ∧
      (s.removePart part).statuses.get? file = s.statuses.get? file ∧
      (s.removePart part).recordsAt file = s.recordsAt file := by
  have hstatuses : (s.removePart part).statuses.get? file =
      (s.statuses.get? file).filter fun row => decide (row.part ≠ part) :=
    Table.get?_restrict _ _ _
  have hrecords := h.recordsAt_drop (fun _ owner => decide (owner = part)) file
  change (s.removePart part).recordsAt file = _ at hrecords
  rw [get?_members_removePart, hstatuses, hrecords]
  constructor
  · cases hmember : s.members.get? file with
    | none => rfl
    | some owner =>
        have hne : owner ≠ part := by
          intro heq
          rw [heq] at hmember
          exact hnone file hmember
        rw [Option.filter_some, if_pos (decide_eq_true hne)]
  · cases hrow : s.statuses.get? file with
    | none => exact ⟨rfl, (h.blank file hrow).symm⟩
    | some row =>
        have hne : row.part ≠ part := by
          intro heq
          apply hnone file
          rw [h.tracked file row hrow, heq]
        simp [hne, Option.filter_some]

/-!
# Files
-/

theorem get?_statuses_clearFile (s : Store) (file other : FileId) :
    (s.clearFile file).statuses.get? other =
      if file = other then none else s.statuses.get? other :=
  Table.get?_erase _ _ _

theorem Linked.rows_clearFile {s : Store} (h : s.Linked) (file : FileId) :
    (s.clearFile file).symbols = (s.dropSymbols fun row => decide (row.file = file)).symbols ∧
      (s.clearFile file).locations =
        (s.dropSymbols fun row => decide (row.file = file)).locations := by
  refine ⟨rfl, List.filter_eq_self.mpr ?_⟩
  intro l hl
  rcases (h.dropSymbols _).anchored l hl with ⟨row, hrow, -, hfile⟩
  have hkept := (List.mem_filter.mp hrow).2
  simp only [hfile, Bool.not_eq_true', decide_eq_false_iff_not] at hkept
  exact decide_eq_true hkept

theorem filter_statuses_clearFile (s : Store) (file other : FileId) :
    (s.clearFile file).statuses.get? other =
      (s.statuses.get? other).filter fun _ => !decide (other = file) := by
  rw [get?_statuses_clearFile]
  by_cases hother : file = other
  · cases s.statuses.get? other <;> simp [hother]
  · cases s.statuses.get? other <;> simp [hother, Ne.symm hother, Option.filter_some]

theorem Filed.clearFile {s : Store} (h : s.Filed) (file : FileId) : (s.clearFile file).Filed := by
  rcases h.linked.rows_clearFile file with ⟨hsymbols, hlocations⟩
  exact h.of_drop (fun other _ => decide (other = file))
    ((h.linked.dropSymbols _).of_rows_eq hsymbols hlocations rfl)
    (recordsAt_of_rows_eq hsymbols hlocations) (filter_statuses_clearFile s file)

theorem Filed.removeFile {s : Store} (h : s.Filed) (file : FileId) : (s.removeFile file).Filed where
  linked := (h.clearFile file).linked.of_rows_eq rfl rfl rfl
  indexed := (h.clearFile file).indexed
  blank := (h.clearFile file).blank

theorem Owned.of_subset {s t : Store} (h : s.Owned) (hparts : t.parts = s.parts)
    (hmembers : forall file owner, t.members.get? file = some owner ->
      s.members.get? file = some owner)
    (hstatuses : forall file row, t.statuses.get? file = some row ->
      s.statuses.get? file = some row) : t.Owned where
  written := by rw [hparts]; exact h.written
  known := by
    intro file owner howner
    rw [hparts]
    exact h.known file owner (hmembers file owner howner)
  recorded := by
    intro file row hrow
    rw [hparts]
    exact h.recorded file row (hstatuses file row hrow)

theorem status_of_clearFile {s : Store} {file other : FileId} {row : StatusRow}
    (hrow : (s.clearFile file).statuses.get? other = some row) :
    s.statuses.get? other = some row := by
  rw [filter_statuses_clearFile, Option.filter_eq_some_iff] at hrow
  exact hrow.1

theorem Owned.clearFile {s : Store} (h : s.Owned) (file : FileId) : (s.clearFile file).Owned :=
  h.of_subset rfl (fun _ _ howner => howner) (fun _ _ hrow => status_of_clearFile hrow)

theorem Sound.clear {s t : Store} (h : s.Sound) (file : FileId) (hfiled : t.Filed)
    (hstatuses : t.statuses = (s.clearFile file).statuses) (hparts : t.parts = s.parts)
    (hmembers : forall other, other ≠ file -> t.members.get? other = s.members.get? other)
    (hmember : t.members.get? file = s.members.get? file ∨ t.members.get? file = none) :
    t.Sound := by
  have hleft : forall other owner, t.members.get? other = some owner ->
      s.members.get? other = some owner := by
    intro other owner howner
    by_cases hother : other = file
    · subst hother
      rcases hmember with hsame | hnone
      · rw [← hsame]
        exact howner
      · rw [hnone] at howner
        cases howner
    · rw [← hmembers other hother]
      exact howner
  have hkept : forall other, t.statuses.get? other =
      (s.statuses.get? other).filter fun _ => !decide (other = file) := by
    rw [hstatuses]
    exact filter_statuses_clearFile s file
  refine hfiled.sound_of_drop (fun other _ => decide (other = file)) hkept ?_ ?_ ?_
  · rw [hparts]
    exact h.written
  · intro other owner howner
    rw [hparts]
    exact h.known other owner (hleft other owner howner)
  · intro other row hrow hkept
    rw [hmembers other (by simpa using hkept)]
    exact h.tracked other row hrow

theorem Sound.clearFile {s : Store} (h : s.Sound) (file : FileId) : (s.clearFile file).Sound :=
  h.clear file (h.filed.clearFile file) rfl rfl (fun _ _ => rfl) (Or.inl rfl)

theorem get?_members_removeFile (s : Store) (file other : FileId) :
    (s.removeFile file).members.get? other =
      if file = other then none else s.members.get? other :=
  Table.get?_erase _ _ _

theorem member_of_removeFile {s : Store} {file other : FileId} {owner : PartId}
    (howner : (s.removeFile file).members.get? other = some owner) :
    s.members.get? other = some owner := by
  rw [get?_members_removeFile] at howner
  split at howner
  · cases howner
  · exact howner

theorem Owned.removeFile {s : Store} (h : s.Owned) (file : FileId) : (s.removeFile file).Owned :=
  (h.clearFile file).of_subset rfl (fun _ _ howner => member_of_removeFile howner)
    (fun _ _ hrow => hrow)

theorem Sound.removeFile {s : Store} (h : s.Sound) (file : FileId) : (s.removeFile file).Sound := by
  refine h.clear file (h.filed.removeFile file) rfl rfl ?_ (Or.inr ?_)
  · intro other hother
    rw [get?_members_removeFile, if_neg (Ne.symm hother)]
  · rw [get?_members_removeFile, if_pos rfl]

theorem Linked.recordsAt_clearFile {s : Store} (h : s.Linked) {file other : FileId}
    (hne : other ≠ file) : (s.clearFile file).recordsAt other = s.recordsAt other := by
  rcases h.rows_clearFile file with ⟨hsymbols, hlocations⟩
  rw [recordsAt_of_rows_eq hsymbols hlocations]
  apply h.recordsAt_dropSymbols_of_kept
  intro row _hrow hfile
  simpa [hfile] using hne

/-!
# Results
-/

section ApplyResults

variable {s t : Store} {task : Task} {status : FileStatus} {r : Results}
  {outcome : ApplyOutcome} {wrote : Bool}

theorem isCurrent_iff (h : s.Sound) (task : Task) :
    s.isCurrent task = true ↔ s.members.get? task.file = some task.part := by
  rw [isCurrent, Bool.and_eq_true, beq_iff_eq]
  exact ⟨fun hboth => hboth.2, fun hmember => ⟨h.known task.file task.part hmember, hmember⟩⟩

/-- The status row that a task leaves behind when its results are stored. -/
def rowOf (task : Task) (status : FileStatus) (r : Results) : StatusRow :=
  .write task.part status r.digest

/-- Whether the results stored for a file have the part and the digest of new ones. -/
def Same (s : Store) (task : Task) (r : Results) : Prop :=
  exists old, s.statuses.get? task.file = some old ∧ old.part = task.part ∧
    old.digest = r.digest

/--
What storing results does: nothing for a file that left its part, the status alone for
results that are stored already, and the whole result set otherwise.
-/
theorem applyResults_eq_ok (h : s.applyResults task status r = .ok (outcome, wrote, t)) :
    (s.isCurrent task = false ∧ outcome = .stale ∧ t = s) ∨
      (s.isCurrent task = true ∧ s.Same task r ∧ outcome = .unchanged ∧
        t = s.putStatus task.file (rowOf task status r)) ∨
      (s.isCurrent task = true ∧ ¬ s.Same task r ∧ strayLocation? r = none ∧
        outcome = .applied r.symbols.length r.locations.length ∧
        t = (s.replaceRecords task.file task.part r).putStatus task.file
          (rowOf task status r)) := by
  unfold applyResults at h
  cases hcurrent : s.isCurrent task with
  | false =>
      rw [hcurrent] at h
      cases h
      exact Or.inl ⟨rfl, rfl, rfl⟩
  | true =>
      simp only [hcurrent, Bool.not_true, Bool.false_eq_true, if_false] at h
      by_cases hsame : s.Same task r
      · refine Or.inr (Or.inl ⟨rfl, hsame, ?_⟩)
        rcases hsame with ⟨old, hold, hpart, hdigest⟩
        simp only [hold, hpart, hdigest, decide_true, beq_self_eq_true, Bool.and_self, if_true]
          at h
        split at h
        · rename_i hrow
          cases h
          have hput := Table.insert_eq_self (hold.trans hrow)
          exact ⟨rfl, by rw [putStatus, rowOf, hput]⟩
        · cases h
          exact ⟨rfl, rfl⟩
      · have hnew : forall old, s.statuses.get? task.file = some old ->
            (decide (old.part = task.part) && old.digest == r.digest) = false := by
          intro old hold
          rw [Bool.eq_false_iff]
          intro htrue
          rw [Bool.and_eq_true, decide_eq_true_iff, beq_iff_eq] at htrue
          exact hsame ⟨old, hold, htrue⟩
        refine Or.inr (Or.inr ⟨rfl, hsame, ?_⟩)
        cases hold : s.statuses.get? task.file with
        | none =>
            simp only [hold, Bool.false_eq_true, if_false] at h
            split at h
            · cases h
            · rename_i hstray
              cases h
              exact ⟨hstray, rfl, rfl⟩
        | some old =>
            simp only [hold, hnew old hold, Bool.false_eq_true, if_false] at h
            split at h
            · cases h
            · rename_i hstray
              cases h
              exact ⟨hstray, rfl, rfl⟩

theorem get?_statuses_putStatus (s : Store) (file : FileId) (row : StatusRow) (other : FileId) :
    (s.putStatus file row).statuses.get? other =
      if file = other then some row else s.statuses.get? other :=
  Table.get?_insert _ _ _ _

theorem Linked.frame_applyResults (h : s.Linked)
    (hok : s.applyResults task status r = .ok (outcome, wrote, t)) :
    t.sources = s.sources ∧ t.parts = s.parts ∧ t.members = s.members ∧
      forall other, other ≠ task.file ->
        t.statuses.get? other = s.statuses.get? other ∧
          t.recordsAt other = s.recordsAt other := by
  rcases applyResults_eq_ok hok with ⟨-, -, rfl⟩ | ⟨-, -, -, rfl⟩ | ⟨-, -, -, -, rfl⟩
  · exact ⟨rfl, rfl, rfl, fun _ _ => ⟨rfl, rfl⟩⟩
  · refine ⟨rfl, rfl, rfl, ?_⟩
    intro other hother
    rw [get?_statuses_putStatus, if_neg (Ne.symm hother)]
    exact ⟨rfl, rfl⟩
  · refine ⟨rfl, rfl, rfl, ?_⟩
    intro other hother
    rw [get?_statuses_putStatus, if_neg (Ne.symm hother)]
    exact ⟨rfl, (recordsAt_of_rows_eq rfl rfl other).trans
      (h.recordsAt_replaceRecords hother task.part r)⟩

theorem get?_statuses_applyResults
    (hok : s.applyResults task status r = .ok (outcome, wrote, t))
    (hcurrent : s.isCurrent task = true) :
    t.statuses.get? task.file = some (rowOf task status r) := by
  rcases applyResults_eq_ok hok with ⟨hstale, -⟩ | ⟨-, -, -, rfl⟩ | ⟨-, -, -, -, rfl⟩
  · rw [hcurrent] at hstale
    cases hstale
  · rw [get?_statuses_putStatus, if_pos rfl]
  · rw [get?_statuses_putStatus, if_pos rfl]

theorem Filed.applyResults (h : s.Filed)
    (hok : s.applyResults task status r = .ok (outcome, wrote, t)) : t.Filed := by
  have hothers := (h.linked.frame_applyResults hok).2.2.2
  rcases applyResults_eq_ok hok with
    ⟨-, -, rfl⟩ | ⟨hcurrent, hsame, -, htarget⟩ | ⟨hcurrent, -, hstray, -, htarget⟩
  · exact h
  all_goals have hrow := get?_statuses_applyResults hok hcurrent
  · rcases hsame with ⟨old, hold, hpart, hdigest⟩
    have hrecords : forall file, t.recordsAt file = s.recordsAt file := by
      rw [htarget]
      exact recordsAt_of_rows_eq rfl rfl
    refine ⟨by rw [htarget]; exact h.linked.of_rows_eq rfl rfl rfl, ?_, ?_⟩
    · intro file row hget
      by_cases hfile : file = task.file
      · rw [hfile] at hget ⊢
        cases hrow.symm.trans hget
        rcases h.indexed task.file old hold with ⟨r', hstray, hdigest', hr'⟩
        rw [hpart] at hr'
        exact ⟨r', hstray, hdigest'.trans hdigest, hr'.of_recordsAt_eq (hrecords _)⟩
      · rcases h.indexed file row ((hothers file hfile).1.symm.trans hget) with
          ⟨r', hstray, hdigest', hr'⟩
        exact ⟨r', hstray, hdigest', hr'.of_recordsAt_eq (hrecords _)⟩
    · intro file hget
      rw [hrecords]
      by_cases hfile : file = task.file
      · rw [hfile, hrow] at hget
        cases hget
      · exact h.blank file ((hothers file hfile).1.symm.trans hget)
  · have hlinked : t.Linked := by
      rw [htarget]
      exact (h.linked.replaceRecords task.file task.part hstray).of_rows_eq rfl rfl rfl
    refine ⟨hlinked, ?_, ?_⟩
    · intro file row hget
      by_cases hfile : file = task.file
      · rw [hfile] at hget ⊢
        cases hrow.symm.trans hget
        have hr := h.linked.records_replaceRecords task.file task.part r
        rw [htarget]
        exact ⟨r, hstray, rfl, hr.of_recordsAt_eq (recordsAt_of_rows_eq rfl rfl _)⟩
      · rcases h.indexed file row ((hothers file hfile).1.symm.trans hget) with
          ⟨r', hstray', hdigest', hr'⟩
        exact ⟨r', hstray', hdigest', hr'.of_recordsAt_eq (hothers file hfile).2⟩
    · intro file hget
      by_cases hfile : file = task.file
      · rw [hfile, hrow] at hget
        cases hget
      · rw [(hothers file hfile).2]
        exact h.blank file ((hothers file hfile).1.symm.trans hget)

theorem Linked.status_of_foreign (h : s.Linked)
    (hok : s.applyResults task status r = .ok (outcome, wrote, t)) {file : FileId}
    (hforeign : s.isCurrent task = true -> file ≠ task.file) :
    t.statuses.get? file = s.statuses.get? file := by
  cases hcurrent : s.isCurrent task with
  | true => exact ((h.frame_applyResults hok).2.2.2 file (hforeign hcurrent)).1
  | false =>
      rcases applyResults_eq_ok hok with ⟨-, -, rfl⟩ | ⟨htrue, -⟩ | ⟨htrue, -⟩
      · rfl
      all_goals
        rw [hcurrent] at htrue
        cases htrue

theorem status_of_applyResults (h : s.Linked)
    (hok : s.applyResults task status r = .ok (outcome, wrote, t)) {file : FileId}
    {row : StatusRow} (hrow : t.statuses.get? file = some row) :
    s.statuses.get? file = some row ∨
      (s.isCurrent task = true ∧ file = task.file ∧ row.part = task.part) := by
  by_cases hown : s.isCurrent task = true ∧ file = task.file
  · rcases hown with ⟨hcurrent, rfl⟩
    rw [get?_statuses_applyResults hok hcurrent] at hrow
    cases hrow
    exact Or.inr ⟨hcurrent, rfl, rfl⟩
  · refine Or.inl ?_
    rw [← h.status_of_foreign hok fun hcurrent hfile => hown ⟨hcurrent, hfile⟩]
    exact hrow

theorem Owned.applyResults (h : s.Owned) (hlinked : s.Linked)
    (hok : s.applyResults task status r = .ok (outcome, wrote, t)) : t.Owned := by
  rcases hlinked.frame_applyResults hok with ⟨-, hparts, hmembers, -⟩
  refine ⟨by rw [hparts]; exact h.written, by rw [hparts, hmembers]; exact h.known, ?_⟩
  intro file row hrow
  rw [hparts]
  rcases status_of_applyResults hlinked hok hrow with hold | ⟨hcurrent, -, hpart⟩
  · exact h.recorded file row hold
  · rw [isCurrent, Bool.and_eq_true] at hcurrent
    rw [hpart]
    exact hcurrent.1

theorem Sound.applyResults (h : s.Sound)
    (hok : s.applyResults task status r = .ok (outcome, wrote, t)) : t.Sound := by
  rcases h.linked.frame_applyResults hok with ⟨-, hparts, hmembers, -⟩
  have hfiled := h.filed.applyResults hok
  refine ⟨hfiled.linked, by rw [hparts]; exact h.written, by rw [hparts, hmembers]; exact h.known,
    ?_, hfiled.indexed, hfiled.blank⟩
  intro file row hrow
  rw [hmembers]
  rcases status_of_applyResults h.linked hok hrow with hold | ⟨hcurrent, rfl, hpart⟩
  · exact h.tracked file row hold
  · rw [hpart]
    exact (isCurrent_iff h task).mp hcurrent

end ApplyResults

end Store
end SymbolIndex
