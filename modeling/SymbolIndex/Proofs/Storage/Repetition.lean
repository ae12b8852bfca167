import SymbolIndex.Proofs.PathBook
import SymbolIndex.Proofs.Storage.Answers
import SymbolIndex.Proofs.Storage.Deletion
import SymbolIndex.Proofs.Storage.Transfer

/-!
# Calls that are made again

A call that is made a second time finds the tables as the first one left them and leaves
them so, whether it stores, deletes or fails. Storing a part lets go of its files and takes
them again, so that its memberships may come to stand behind those of other parts; no call
and no query depends on where they stand.
-/

namespace SymbolIndex
namespace Store

/-!
# Tables up to the order of memberships
-/

/-- The same tables, with memberships that may have come in another order. -/
def SameTables (s t : Store) : Prop :=
  exists members : Table FileId PartId,
    (forall file, members.get? file = s.members.get? file) ∧ t = { s with members }

/-- Queries show of `t` what they show of `s`. -/
structure ShowsSame (s t : Store) : Prop where
  sources : forall file, t.source? file = s.source? file
  part : forall id, t.fetchPart id = s.fetchPart id
  partIds : t.partIds = s.partIds
  status : forall file, t.indexedFile? file = s.indexedFile? file
  files : forall file, t.symbolsIn file = s.symbolsIn file
  names : forall name, t.symbolsNamed name = s.symbolsNamed name
  symbol : forall id, t.symbol? id = s.symbol? id
  locations : forall id, t.locationsOf id = s.locationsOf id
  counts : t.counts = s.counts

namespace SameTables

variable {s t u : Store}

theorem refl (s : Store) : s.SameTables s := ⟨s.members, fun _ => rfl, rfl⟩

theorem trans (hst : s.SameTables t) (htu : t.SameTables u) : s.SameTables u := by
  rcases hst with ⟨members, hmembers, rfl⟩
  rcases htu with ⟨others, hothers, rfl⟩
  exact ⟨others, fun file => (hothers file).trans (hmembers file), rfl⟩

theorem symm (h : s.SameTables t) : t.SameTables s := by
  rcases h with ⟨members, hmembers, rfl⟩
  exact ⟨s.members, fun file => (hmembers file).symm, rfl⟩

theorem nextSymbol (h : s.SameTables t) : t.nextSymbol = s.nextSymbol := by
  rcases h with ⟨members, -, rfl⟩
  rfl

theorem perm_rows (h : s.SameTables t) : t.rows.Perm s.rows := by
  rcases h with ⟨members, hmembers, rfl⟩
  have hentries : members.entries.Perm s.members.entries := by
    refine (List.perm_ext_iff_of_nodup members.nodup.of_map s.members.nodup.of_map).mpr ?_
    rintro ⟨file, owner⟩
    rw [Table.mem_entries_iff, Table.mem_entries_iff, hmembers]
  exact ((((hentries.map _).append_left _).append_right _).append_right _).append_right _

theorem showsSame (h : s.SameTables t) : s.ShowsSame t := by
  rcases h with ⟨members, hmembers, rfl⟩
  have hfiles : forall id, ({ s with members } : Store).membersOf id = s.membersOf id := by
    intro id
    refine (ascending_membersOf _ id).eq_of_mem_iff (ascending_membersOf s id) ?_
    intro file
    rw [mem_membersOf, mem_membersOf, hmembers]
  have hpart : forall id, ({ s with members } : Store).fetchPart id = s.fetchPart id := by
    intro id
    rw [fetchPart, hfiles]
    rfl
  exact ⟨fun _ => rfl, hpart, rfl, fun _ => rfl, fun _ => rfl, fun _ => rfl, fun _ => rfl,
    fun _ => rfl, rfl⟩

/-!
# The same mutation of the same tables
-/

theorem addSource (h : s.SameTables t) (text : String) :
    (s.addSource text).SameTables (t.addSource text) := by
  rcases h with ⟨members, hmembers, rfl⟩
  have hsame : ({ s with members } : Store).sourceId? text = s.sourceId? text := rfl
  unfold Store.addSource
  rw [hsame]
  cases s.sourceId? text with
  | some id => exact ⟨members, hmembers, rfl⟩
  | none => exact ⟨members, hmembers, rfl⟩

theorem isCurrent (h : s.SameTables t) (task : Task) : t.isCurrent task = s.isCurrent task := by
  rcases h with ⟨members, hmembers, rfl⟩
  rw [Store.isCurrent, Store.isCurrent, hmembers]

theorem statuses (h : s.SameTables t) : t.statuses = s.statuses := by
  rcases h with ⟨members, -, rfl⟩
  rfl

theorem removePart (h : s.SameTables t) (part : PartId) :
    (s.removePart part).SameTables (t.removePart part) := by
  rcases h with ⟨members, hmembers, rfl⟩
  refine ⟨members.restrict fun _ owner => decide (owner ≠ part), ?_, rfl⟩
  intro file
  rw [get?_members_removePart, Table.get?_restrict, hmembers]

theorem clearFile (h : s.SameTables t) (file : FileId) :
    (s.clearFile file).SameTables (t.clearFile file) := by
  rcases h with ⟨members, hmembers, rfl⟩
  exact ⟨members, hmembers, rfl⟩

theorem removeFile (h : s.SameTables t) (file : FileId) :
    (s.removeFile file).SameTables (t.removeFile file) := by
  rcases h with ⟨members, hmembers, rfl⟩
  refine ⟨members.erase file, ?_, rfl⟩
  intro other
  rw [get?_members_removeFile, Table.get?_erase, hmembers]

theorem absorb (h : s.SameTables t) (d : Delivery) (answer : Except Failure ApplyOutcome) :
    (s.absorb d answer).SameTables (t.absorb d answer) := by
  rcases h with ⟨members, hmembers, rfl⟩
  rcases answer with failure | ⟨symbols, locations⟩ | _ | _
  all_goals exact ⟨members, hmembers, rfl⟩

end SameTables

/-!
# A second time
-/

theorem addSource_again (s : Store) (text : String) :
    (s.addSource text).addSource text = s.addSource text := by
  have hmem : text ∈ (s.addSource text).sources :=
    mem_sources_of_source? (source?_sourceId?_addSource s text)
  rcases addSource_eq (s.addSource text) text with heq | ⟨hfresh, -⟩
  · exact heq
  · exact absurd hmem hfresh

theorem dropSymbols_eq_self {s : Store} {doomed : SymbolRow -> Bool}
    (h : forall row, row ∈ s.symbols -> doomed row = false) : s.dropSymbols doomed = s := by
  have hnone : s.symbols.filter doomed = [] :=
    List.filter_eq_nil_iff.mpr fun row hrow => Bool.not_eq_true _ ▸ h row hrow
  have hall : (s.symbols.filter fun row => !doomed row) = s.symbols :=
    List.filter_eq_self.mpr fun row hrow => congrArg not (h row hrow)
  simp [dropSymbols, hnone, hall]

section UpdatePart

variable {s t : Store} {part : PartId} {arguments : List String} {files : List FileId}

theorem updatePart_eq_ok (hok : s.updatePart part arguments files = .ok t) :
    (forall file, file ∈ files -> s.hasSource file = true) ∧
      t = { s.dropSymbols fun row => takesAway part files row.file row.part with
        parts := s.parts.insert part (.written arguments)
        members := t.members
        statuses := s.statuses.restrict fun file row => !takesAway part files file row.part } := by
  unfold updatePart at hok
  split at hok
  · rename_i hall
    cases hok
    exact ⟨List.all_eq_true.mp hall, rfl⟩
  · cases hok

theorem SameTables.updatePart (h : s.SameTables t) {s' : Store}
    (hok : s.updatePart part arguments files = .ok s') :
    exists t', t.updatePart part arguments files = .ok t' ∧ s'.SameTables t' := by
  rcases h with ⟨members, hmembers, rfl⟩
  rcases updatePart_eq_ok hok with ⟨hall, hs'⟩
  rcases updatePart_isOk (s := { s with members }) part arguments hall with ⟨t', hok'⟩
  refine ⟨t', hok', t'.members, ?_, ?_⟩
  · intro file
    rw [get?_members_updatePart hok, get?_members_updatePart hok', hmembers]
  · rw [hs']
    exact (updatePart_eq_ok hok').2

theorem updatePart_again (hok : s.updatePart part arguments files = .ok t) :
    exists again, t.updatePart part arguments files = .ok again ∧ t.SameTables again := by
  rcases updatePart_eq_ok hok with ⟨hall, ht⟩
  have hagain : forall file, file ∈ files -> t.hasSource file = true := by
    intro file hfile
    rw [hasSource, source?, sources_updatePart hok]
    exact hall file hfile
  rcases updatePart_isOk part arguments hagain with ⟨again, hok'⟩
  refine ⟨again, hok', again.members, ?_, ?_⟩
  · intro file
    rw [get?_members_updatePart hok', get?_members_updatePart hok]
    by_cases hfile : file ∈ files
    · rw [if_pos hfile, if_pos hfile]
    · simp only [if_neg hfile, Option.filter_filter, Bool.and_self]
  · have hparts : t.parts.insert part (.written arguments) = t.parts :=
      Table.insert_eq_self ((get?_parts_updatePart hok part).trans (if_pos rfl))
    have hdrop : (t.dropSymbols fun row => takesAway part files row.file row.part) = t := by
      refine dropSymbols_eq_self fun row hrow => ?_
      rw [(leaves_updatePart hok).symbols, List.mem_filter] at hrow
      exact Bool.not_eq_true' _ ▸ hrow.2
    have hstatuses : (t.statuses.restrict fun file row => !takesAway part files file row.part) =
        t.statuses := by
      refine Table.restrict_eq_self fun file row hrow => ?_
      rw [get?_statuses_updatePart hok] at hrow
      exact (Option.filter_eq_some_iff.mp hrow).2
    exact (updatePart_eq_ok hok').2.trans (by rw [hparts, hdrop, hstatuses])

end UpdatePart

section Files

variable {s : Store} {file : FileId}

theorem hasRecords_clearFile (s : Store) (file : FileId) : (s.clearFile file).hasRecords file = false := by
  simp only [hasRecords, Bool.or_eq_false_iff, List.any_eq_false, decide_eq_true_eq,
    Table.contains_eq_false_iff]
  refine ⟨⟨?_, ?_⟩, (Table.get?_erase _ _ _).trans (if_pos rfl)⟩
  · intro row hrow
    exact of_decide_eq_false ((Bool.not_eq_true' _).mp (List.mem_filter.mp hrow).2)
  · intro l hl
    exact of_decide_eq_true (List.mem_filter.mp hl).2

theorem clearFile_eq_self (h : s.hasRecords file = false) : s.clearFile file = s := by
  simp only [hasRecords, Bool.or_eq_false_iff, List.any_eq_false, decide_eq_true_eq,
    Table.contains_eq_false_iff] at h
  rcases h with ⟨⟨hsymbols, hlocations⟩, hstatus⟩
  have hdrop : (s.dropSymbols fun row => decide (row.file = file)) = s :=
    dropSymbols_eq_self fun row hrow => decide_eq_false (hsymbols row hrow)
  have hplaces : (s.locations.filter fun l => decide (l.file ≠ file)) = s.locations :=
    List.filter_eq_self.mpr fun l hl => decide_eq_true (hlocations l hl)
  rw [clearFile, hdrop, hplaces, Table.erase_eq_self hstatus]

theorem removeFile_eq_self (h : s.hasRecords file = false)
    (hmember : s.members.contains file = false) : s.removeFile file = s := by
  rw [removeFile, clearFile_eq_self h,
    Table.erase_eq_self ((Table.contains_eq_false_iff _ _).mp hmember)]

end Files

end Store

namespace Storage

open Store

/-!
# Removals
-/

section Removals

variable (t : Storage)

theorem removePart_again (part : PartId) :
    (t.removePart part).2.hasPart part = false ∧
      (t.removePart part).2.removePart part = (false, (t.removePart part).2) := by
  have hgone : (t.removePart part).2.hasPart part = false := by
    unfold removePart
    split
    · exact (Table.contains_eq_false_iff _ _).mpr
        ((get?_parts_removePart t.store part part).trans (if_pos rfl))
    · rename_i hnone
      exact Bool.eq_false_iff.mpr hnone
  refine ⟨hgone, ?_⟩
  rw [removePart, hgone, if_neg Bool.false_ne_true]

theorem clearFile_again (file : FileId) :
    (t.clearFile file).clearFile file = t.clearFile file := by
  have hnone : (t.clearFile file).store.hasRecords file = false :=
    hasRecords_clearFile t.store file
  rw [clearFile, hnone, clearFile_eq_self hnone]
  rfl

theorem removeFile_again (file : FileId) :
    (t.removeFile file).removeFile file = t.removeFile file := by
  have hnone : (t.removeFile file).store.hasRecords file = false :=
    hasRecords_clearFile t.store file
  have hmember : (t.removeFile file).store.members.contains file = false :=
    (Table.contains_eq_false_iff _ _).mpr
      ((get?_members_removeFile t.store file file).trans (if_pos rfl))
  rw [removeFile, hnone, hmember, removeFile_eq_self hnone hmember]
  rfl

end Removals

/-!
# Deliveries
-/

section Deliveries

variable (t : Storage) (d : Delivery)

theorem deliver_again_of_ok
    (h : (t.deliver d).1 = .ok .unchanged ∨
      exists symbols locations, (t.deliver d).1 = .ok (.applied symbols locations)) :
    (t.deliver d).2.deliver d = (.ok .unchanged, (t.deliver d).2) := by
  have hkept : (t.deliver d).2.store.Assigned d.task ∧
      (t.deliver d).2.store.statuses.get? d.task.file =
        some (rowOf d.task d.status d.results) := by
    rw [store_deliver]
    rcases h with hunchanged | ⟨symbols, locations, happlied⟩
    · rw [hunchanged]
      exact ⟨((answer_eq_unchanged_iff t d).mp hunchanged).1, get?_statuses_absorb_put _ _⟩
    · rw [happlied]
      exact ⟨((answer_eq_applied_iff t d _ _).mp happlied).1, get?_statuses_absorb_put _ _⟩
  rcases hkept with ⟨hassigned, hrow⟩
  have hanswer : ((t.deliver d).2.deliver d).1 = .ok .unchanged :=
    (answer_eq_unchanged_iff _ d).mpr ⟨hassigned, _, hrow, rfl, rfl⟩
  refine Prod.ext hanswer ?_
  rw [deliver_eq (t.deliver d).2 d, hanswer]
  dsimp only
  rw [if_pos hrow, absorb, putStatus, Table.insert_eq_self hrow]

theorem deliver_again_of_not_ok
    (h : (t.deliver d).1 = .ok .stale ∨ exists failure, (t.deliver d).1 = .error failure) :
    (t.deliver d).2 = t ∧ (t.deliver d).2.deliver d = t.deliver d := by
  have hself := deliver_eq_self h
  exact ⟨hself, by rw [hself]⟩

theorem deliver_again : ((t.deliver d).2.deliver d).2 = (t.deliver d).2 := by
  rcases answer_cases t d with ⟨-, h⟩ | ⟨-, -, h⟩ | ⟨-, -, l, -, h⟩ | ⟨-, -, -, h⟩
  · rw [(deliver_again_of_not_ok t d (Or.inl h)).2]
  · rw [deliver_again_of_ok t d (Or.inl h)]
  · rw [(deliver_again_of_not_ok t d (Or.inr ⟨_, h⟩)).2]
  · rw [deliver_again_of_ok t d (Or.inr ⟨_, _, h⟩)]

end Deliveries

/-!
# Calls
-/

theorem attempt_applyResults (t : Storage) (task : Task) (status : FileStatus) (r : Results) :
    t.attempt (.applyResults task status r) = (t.deliver ⟨task, status, r⟩).2 := by
  rw [attempt, perform, deliver]
  cases t.applyResults task status r with
  | error failure => rfl
  | ok done => rfl

theorem store_attempt_updatePart (t : Storage) (part : PartId) (arguments : List String)
    (files : List FileId) :
    (t.attempt (.updatePart part arguments files)).store =
      match t.store.updatePart part arguments files with
      | .ok s => s
      | .error _ => t.store := by
  rw [attempt, perform, updatePart]
  cases t.store.updatePart part arguments files with
  | error failure => rfl
  | ok s => rfl

/-- Where the same tables are, a call leaves the same tables. -/
theorem sameTables_attempt {t u : Storage} (h : t.store.SameTables u.store) (call : StorageCall) :
    (t.attempt call).store.SameTables (u.attempt call).store := by
  cases call with
  | intern path => exact h.addSource _
  | updatePart part arguments files =>
      rw [store_attempt_updatePart, store_attempt_updatePart]
      cases ht : t.store.updatePart part arguments files with
      | ok s =>
          rcases h.updatePart ht with ⟨s', hu, hsame⟩
          rw [hu]
          exact hsame
      | error failure =>
          cases hu : u.store.updatePart part arguments files with
          | error failure' => exact h
          | ok s' =>
              rcases h.symm.updatePart hu with ⟨s, hok, -⟩
              rw [ht] at hok
              cases hok
  | removePart part =>
      have hpart : u.hasPart part = t.hasPart part := by
        rcases h with ⟨members, -, hstore⟩
        rw [hasPart, hstore]
        rfl
      change (t.removePart part).2.store.SameTables (u.removePart part).2.store
      rw [removePart, removePart, hpart]
      split
      · exact h.removePart part
      · exact h
  | applyResults task status r =>
      have hanswer : (u.deliver ⟨task, status, r⟩).1 = (t.deliver ⟨task, status, r⟩).1 := by
        rw [answer_eq, answer_eq, h.isCurrent, h.statuses]
      rw [attempt_applyResults, attempt_applyResults, store_deliver, store_deliver, hanswer]
      exact h.absorb _ _
  | removeFile file => exact h.removeFile file
  | clearFile file => exact h.clearFile file
  | interrupted call failure => exact h

theorem sameTables_after {t u : Storage} (h : t.store.SameTables u.store)
    (calls : List StorageCall) : (t.after calls).store.SameTables (u.after calls).store := by
  induction calls generalizing t u with
  | nil => exact h
  | cons call rest ih => exact ih (sameTables_attempt h call)

theorem updatePart_eq_ok_again {t left : Storage} {part : PartId} {arguments : List String}
    {files : List FileId} (hok : t.updatePart part arguments files = .ok left) :
    exists again, left.updatePart part arguments files = .ok again ∧
      left.store.SameTables again.store := by
  rcases updatePart_again (store_updatePart hok).1 with ⟨s, hagain, hsame⟩
  exact ⟨left.advance true s, by rw [updatePart, hagain]; rfl, hsame⟩

/-- A call that is made again leaves the tables as it left them before. -/
theorem attempt_again (t : Storage) (call : StorageCall) :
    (t.attempt call).store.SameTables ((t.attempt call).attempt call).store := by
  cases call with
  | intern path =>
      change (t.store.addSource _).SameTables ((t.store.addSource _).addSource _)
      rw [addSource_again]
      exact .refl _
  | updatePart part arguments files =>
      cases hok : t.updatePart part arguments files with
      | error failure =>
          have hself : t.attempt (.updatePart part arguments files) = t := by
            rw [attempt, perform, hok]
          rw [hself, hself]
          exact .refl _
      | ok left =>
          have hleft : t.attempt (.updatePart part arguments files) = left := by
            rw [attempt, perform, hok]
          rcases updatePart_eq_ok_again hok with ⟨again, hagain, hsame⟩
          rw [hleft, attempt, perform, hagain]
          exact hsame
  | removePart part =>
      change (t.removePart part).2.store.SameTables
        ((t.removePart part).2.removePart part).2.store
      rw [(removePart_again t part).2]
      exact .refl _
  | applyResults task status r =>
      rw [attempt_applyResults, attempt_applyResults, deliver_again]
      exact .refl _
  | removeFile file =>
      change (t.removeFile file).store.SameTables ((t.removeFile file).removeFile file).store
      rw [removeFile_again]
      exact .refl _
  | clearFile file =>
      change (t.clearFile file).store.SameTables ((t.clearFile file).clearFile file).store
      rw [clearFile_again]
      exact .refl _
  | interrupted call failure => exact .refl _

theorem sameTables_replicate (t : Storage) (call : StorageCall) (n : Nat)
    (later : List StorageCall) :
    (t.after (call :: later)).store.SameTables
      (t.after (List.replicate (n + 1) call ++ later)).store := by
  induction n generalizing t with
  | zero => exact .refl _
  | succ n ih => exact (sameTables_after (attempt_again t call) later).trans (ih (t.attempt call))

/--
Every call can be made again after any calls. Its second time, and any further one, leaves
the tables and all that queries show as the first time left them, so that what follows
does not tell how often it was made. A part that was stored can be stored again, and what
was removed or cleared is found gone and nothing is written. Results that were stored, then
or before, are unchanged the second time and nothing is written; those that were stale or
failed changed nothing, and are answered the same.
-/
theorem calls_can_be_repeated (calls : List StorageCall) :
    let t := empty.after calls
    -- the tables
    (forall call,
      let once := (t.attempt call).store
      let twice := ((t.attempt call).attempt call).store
      once.SameTables twice ∧ once.ShowsSame twice ∧ twice.rows.Perm once.rows ∧
        twice.nextSymbol = once.nextSymbol) ∧
    (forall call n later, (t.after (call :: later)).store.SameTables
      (t.after (List.replicate (n + 1) call ++ later)).store) ∧
    -- a part is stored
    (forall part arguments files,
      (forall failure, t.updatePart part arguments files = .error failure ->
        t.attempt (.updatePart part arguments files) = t) ∧
      forall left, t.updatePart part arguments files = .ok left ->
        exists again, left.updatePart part arguments files = .ok again ∧
          left.store.SameTables again.store) ∧
    -- a part or a file is removed
    (forall part,
      let left := (t.removePart part).2
      left.hasPart part = false ∧ left.removePart part = (false, left)) ∧
    (forall file,
      let left := t.removeFile file
      left.removeFile file = left) ∧
    (forall file,
      let left := t.clearFile file
      left.clearFile file = left) ∧
    -- results are delivered
    forall d,
      let answer := (t.deliver d).1
      let left := (t.deliver d).2
      (answer = .ok .unchanged ∨
          (exists symbols locations, answer = .ok (.applied symbols locations)) ->
        left.deliver d = (.ok .unchanged, left)) ∧
      (answer = .ok .stale ∨ (exists failure, answer = .error failure) ->
        left = t ∧ left.deliver d = (answer, left)) := by
  intro t
  refine ⟨?_, fun call n later => sameTables_replicate t call n later, ?_,
    fun part => removePart_again t part, fun file => removeFile_again t file,
    fun file => clearFile_again t file, ?_⟩
  · intro call once twice
    have hsame : once.SameTables twice := attempt_again t call
    exact ⟨hsame, hsame.showsSame, hsame.perm_rows, hsame.nextSymbol⟩
  · intro part arguments files
    refine ⟨?_, fun left hok => updatePart_eq_ok_again hok⟩
    intro failure herror
    rw [attempt, perform, herror]
  · intro d answer left
    refine ⟨deliver_again_of_ok t d, ?_⟩
    intro h
    rcases deliver_again_of_not_ok t d h with ⟨hself, hagain⟩
    exact ⟨hself, hagain⟩

end Storage
end SymbolIndex
