import SymbolIndex.Proofs.PathBook
import SymbolIndex.Proofs.Store.ReadBack
import SymbolIndex.Proofs.Store.Sound
import SymbolIndex.Storage.Calls

/-!
# Consistent storage

What holds of the database after any calls, whichever of them failed. The records of a
file are what its status says, a status and an owner name the same part, and the numbers
of symbols ascend in the order in which the symbols were created.
-/

namespace SymbolIndex
namespace Store

/-- A file that has both a status and an owner has the same part in both. -/
def Matched (s : Store) : Prop :=
  forall file row owner, s.statuses.get? file = some row ->
    s.members.get? file = some owner -> row.part = owner

section Matched

variable {s t : Store}

theorem Matched.of_subset (h : s.Matched)
    (hstatuses : forall file row, t.statuses.get? file = some row ->
      s.statuses.get? file = some row)
    (hmembers : forall file owner, t.members.get? file = some owner ->
      s.members.get? file = some owner) : t.Matched :=
  fun file row owner hrow howner =>
    h file row owner (hstatuses file row hrow) (hmembers file owner howner)

theorem Matched.updatePart (h : s.Matched) {part : PartId} {arguments : List String}
    {files : List FileId} (hok : s.updatePart part arguments files = .ok t) : t.Matched := by
  intro file row owner hrow howner
  rw [get?_statuses_updatePart hok, Option.filter_eq_some_iff] at hrow
  rw [get?_members_updatePart hok] at howner
  by_cases hfile : file ∈ files
  · rw [if_pos hfile] at howner
    cases howner
    simpa [takesAway, hfile] using hrow.2
  · rw [if_neg hfile, Option.filter_eq_some_iff] at howner
    exact h file row owner hrow.1 howner.1

theorem Matched.removePart (h : s.Matched) (part : PartId) : (s.removePart part).Matched := by
  refine h.of_subset ?_ ?_
  · intro file row hrow
    rw [get?_statuses_removePart, Option.filter_eq_some_iff] at hrow
    exact hrow.1
  · intro file owner howner
    rw [get?_members_removePart, Option.filter_eq_some_iff] at howner
    exact howner.1

theorem Matched.clearFile (h : s.Matched) (file : FileId) : (s.clearFile file).Matched :=
  h.of_subset (fun _ _ hrow => status_of_clearFile hrow) (fun _ _ howner => howner)

theorem Matched.removeFile (h : s.Matched) (file : FileId) : (s.removeFile file).Matched :=
  (h.clearFile file).of_subset (fun _ _ hrow => hrow)
    (fun _ _ howner => member_of_removeFile howner)

theorem Matched.applyResults (h : s.Matched) (hlinked : s.Linked) {task : Task}
    {status : FileStatus} {r : Results} {outcome : ApplyOutcome} {wrote : Bool}
    (hok : s.applyResults task status r = .ok (outcome, wrote, t)) : t.Matched := by
  intro file row owner hrow howner
  rw [(hlinked.frame_applyResults hok).2.2.1] at howner
  rcases status_of_applyResults hlinked hok hrow with hold | ⟨hcurrent, rfl, hpart⟩
  · exact h file row owner hold howner
  · rw [isCurrent, Bool.and_eq_true, beq_iff_eq, howner] at hcurrent
    rw [hpart]
    exact (Option.some.inj hcurrent.2).symm

end Matched

/-!
# Symbols that come and go
-/

def numbersOf (rows : List SymbolRow) : List Int := rows.map fun row => row.id.number

/-- The symbols of `t` are some of those of `s`, and then new ones under numbers that were free. -/
structure Renewed (s t : Store) (new : List SymbolRow) : Prop where
  rows : exists kept, kept.Sublist s.symbols ∧ t.symbols = kept ++ new
  ascending : (numbersOf new).Pairwise (· < ·)
  fresh : forall row, row ∈ new ->
    s.nextSymbol ≤ row.id.number ∧ row.id.number < t.nextSymbol
  next : s.nextSymbol ≤ t.nextSymbol

section Renewed

variable {s t : Store} {new : List SymbolRow}

theorem renewed_of_sublist (hrows : t.symbols.Sublist s.symbols)
    (hnext : t.nextSymbol = s.nextSymbol) : Renewed s t [] where
  rows := ⟨t.symbols, hrows, (List.append_nil _).symm⟩
  ascending := List.Pairwise.nil
  fresh := by
    intro row hrow
    cases hrow
  next := Nat.le_of_eq hnext.symm

theorem length_symbolRows (file : FileId) (part : PartId) (first : Nat)
    (symbols : List CollectedSymbol) :
    (symbolRows file part first symbols).length = symbols.length := by
  induction symbols generalizing first with
  | nil => rfl
  | cons symbol rest ih => rw [symbolRows, List.length_cons, ih, List.length_cons]

theorem ascending_symbolRows (file : FileId) (part : PartId) (first : Nat)
    (symbols : List CollectedSymbol) :
    (numbersOf (symbolRows file part first symbols)).Pairwise (· < ·) := by
  induction symbols generalizing first with
  | nil => exact List.Pairwise.nil
  | cons symbol rest ih =>
      refine List.Pairwise.cons ?_ (ih (first + 1))
      intro number hnumber
      rcases List.mem_map.mp hnumber with ⟨row, hrow, rfl⟩
      have hlow := (mem_symbolRows hrow).2.2.1
      simp only
      omega

theorem renewed_applyResults {task : Task} {status : FileStatus} {r : Results}
    {outcome : ApplyOutcome} {wrote : Bool}
    (hok : s.applyResults task status r = .ok (outcome, wrote, t)) :
    exists new, Renewed s t new ∧
      forall symbols locations, outcome = .applied symbols locations -> new.length = symbols := by
  rcases applyResults_eq_ok hok with
    ⟨-, rfl, rfl⟩ | ⟨-, -, rfl, rfl⟩ | ⟨-, -, -, rfl, rfl⟩
  · refine ⟨[], renewed_of_sublist (List.Sublist.refl _) rfl, ?_⟩
    intro symbols locations h
    cases h
  · refine ⟨[], renewed_of_sublist (List.Sublist.refl _) rfl, ?_⟩
    intro symbols locations h
    cases h
  · refine ⟨symbolRows task.file task.part s.nextSymbol r.symbols, ?_, ?_⟩
    · exact
        { rows := ⟨_, List.filter_sublist, rfl⟩
          ascending := ascending_symbolRows _ _ _ _
          fresh := by
            intro row hrow
            have hbounds := (mem_symbolRows hrow).2.2
            simpa [putStatus, replaceRecords] using hbounds
          next := Nat.le_add_right _ _ }
    · intro symbols locations h
      cases h
      exact length_symbolRows _ _ _ _

theorem renewed_updatePart {part : PartId} {arguments : List String} {files : List FileId}
    (hok : s.updatePart part arguments files = .ok t) : Renewed s t [] := by
  unfold updatePart at hok
  split at hok
  · cases hok
    exact renewed_of_sublist List.filter_sublist rfl
  · cases hok

theorem Renewed.ascending_symbols (h : Renewed s t new) (hlinked : s.Linked)
    (hs : (numbersOf s.symbols).Pairwise (· < ·)) : (numbersOf t.symbols).Pairwise (· < ·) := by
  rcases h.rows with ⟨kept, hkept, hrows⟩
  rw [hrows, numbersOf, List.map_append]
  refine List.pairwise_append.mpr ⟨hs.sublist (hkept.map _), h.ascending, ?_⟩
  intro old hold number hnumber
  rcases List.mem_map.mp hold with ⟨row, hrow, rfl⟩
  rcases List.mem_map.mp hnumber with ⟨other, hother, rfl⟩
  exact Int.lt_of_lt_of_le (hlinked.issued row (hkept.subset hrow)) (h.fresh other hother).1

/-- The symbols of `t` that `s` does not have. -/
def newSymbols (s t : Store) : List SymbolRow :=
  t.symbols.filter fun row => !s.symbols.contains row

theorem Renewed.newSymbols_eq (h : Renewed s t new) (hlinked : s.Linked) :
    newSymbols s t = new := by
  rcases h.rows with ⟨kept, hkept, hrows⟩
  have hold : kept.filter (fun row => !s.symbols.contains row) = [] := by
    apply List.filter_eq_nil_iff.mpr
    intro row hrow
    simp [hkept.subset hrow]
  have hnew : new.filter (fun row => !s.symbols.contains row) = new := by
    apply List.filter_eq_self.mpr
    intro row hrow
    have hfresh := (h.fresh row hrow).1
    have habsent : row ∉ s.symbols := by
      intro hmem
      have hissued := hlinked.issued row hmem
      omega
    simp [habsent]
  rw [newSymbols, hrows, List.filter_append, hold, hnew, List.nil_append]

end Renewed

/-- What every call to storage keeps. -/
structure Consistent (s : Store) : Prop where
  filed : s.Filed
  matched : s.Matched
  ascending : (numbersOf s.symbols).Pairwise (· < ·)

theorem consistent_empty : empty.Consistent where
  filed := filed_empty
  matched := by
    intro file row owner h
    cases h
  ascending := List.Pairwise.nil

theorem Consistent.of_renewed {s t : Store} {new : List SymbolRow} (h : s.Consistent)
    (hfiled : t.Filed) (hmatched : t.Matched) (hnew : Renewed s t new) : t.Consistent where
  filed := hfiled
  matched := hmatched
  ascending := hnew.ascending_symbols h.filed.linked h.ascending

end Store

namespace Storage

open Store

/-!
# One call
-/

theorem store_updatePart {t after : Storage} {part : PartId} {arguments : List String}
    {files : List FileId} (hok : t.updatePart part arguments files = .ok after) :
    t.store.updatePart part arguments files = .ok after.store ∧ after.writes = t.writes + 1 := by
  unfold updatePart at hok
  cases hstore : t.store.updatePart part arguments files with
  | error failure =>
      rw [hstore] at hok
      cases hok
  | ok s =>
      rw [hstore] at hok
      cases hok
      exact ⟨rfl, rfl⟩

theorem store_applyResults {t after : Storage} {task : Task} {status : FileStatus} {r : Results}
    (hok : (t.applyResults task status r).map Prod.snd = .ok after) :
    exists outcome wrote,
      t.store.applyResults task status r = .ok (outcome, wrote, after.store) := by
  unfold applyResults at hok
  cases hstore : t.store.applyResults task status r with
  | error failure =>
      rw [hstore] at hok
      cases hok
  | ok done =>
      rw [hstore] at hok
      cases hok
      exact ⟨done.1, done.2.1, rfl⟩

/-- What a call that went through does to consistent storage. -/
theorem perform_spec {t after : Storage} (h : t.store.Consistent) {call : StorageCall}
    (hok : t.perform call = .ok after) :
    after.store.Filed ∧ after.store.Matched ∧ exists new, Renewed t.store after.store new := by
  cases call with
  | intern path =>
      cases hok
      have hrest := (PathBook.grown_addSource t.store path.normalize.display).rest
      simp only
      rw [hrest]
      refine ⟨?_, h.matched, [], renewed_of_sublist (List.Sublist.refl _) rfl⟩
      exact ⟨h.filed.linked.of_rows_eq rfl rfl rfl, h.filed.indexed, h.filed.blank⟩
  | updatePart part arguments files =>
      have hstore := (store_updatePart hok).1
      exact ⟨h.filed.updatePart hstore, h.matched.updatePart hstore, [],
        renewed_updatePart hstore⟩
  | removePart part =>
      cases hok
      unfold removePart
      split
      · exact ⟨h.filed.removePart part, h.matched.removePart part, [],
          renewed_of_sublist List.filter_sublist rfl⟩
      · exact ⟨h.filed, h.matched, [], renewed_of_sublist (List.Sublist.refl _) rfl⟩
  | applyResults task status results =>
      rcases store_applyResults hok with ⟨outcome, wrote, hstore⟩
      rcases renewed_applyResults hstore with ⟨new, hnew, -⟩
      exact ⟨h.filed.applyResults hstore, h.matched.applyResults h.filed.linked hstore, new, hnew⟩
  | removeFile file =>
      cases hok
      exact ⟨h.filed.removeFile file, h.matched.removeFile file, [],
        renewed_of_sublist List.filter_sublist rfl⟩
  | clearFile file =>
      cases hok
      exact ⟨h.filed.clearFile file, h.matched.clearFile file, [],
        renewed_of_sublist List.filter_sublist rfl⟩
  | interrupted call failure => cases hok

theorem consistent_attempt {t : Storage} (h : t.store.Consistent) (call : StorageCall) :
    (t.attempt call).store.Consistent ∧
      exists new, Renewed t.store (t.attempt call).store new := by
  unfold attempt
  cases hok : t.perform call with
  | error failure => exact ⟨h, [], renewed_of_sublist (List.Sublist.refl _) rfl⟩
  | ok after =>
      rcases perform_spec h hok with ⟨hfiled, hmatched, new, hnew⟩
      exact ⟨h.of_renewed hfiled hmatched hnew, new, hnew⟩

theorem owned_perform {t after : Storage} (h : t.store.Consistent) (howned : t.store.Owned)
    {call : StorageCall} (hok : t.perform call = .ok after) : after.store.Owned := by
  cases call with
  | intern path =>
      cases hok
      have hrest := (PathBook.grown_addSource t.store path.normalize.display).rest
      simp only
      rw [hrest]
      exact howned.of_subset rfl (fun _ _ howner => howner) (fun _ _ hrow => hrow)
  | updatePart part arguments files =>
      exact howned.updatePart (store_updatePart hok).1
  | removePart part =>
      cases hok
      unfold removePart
      split
      · exact howned.removePart part
      · exact howned
  | applyResults task status results =>
      rcases store_applyResults hok with ⟨outcome, wrote, hstore⟩
      exact howned.applyResults h.filed.linked hstore
  | removeFile file =>
      cases hok
      exact howned.removeFile file
  | clearFile file =>
      cases hok
      exact howned.clearFile file
  | interrupted call failure => cases hok

theorem owned_attempt {t : Storage} (h : t.store.Consistent) (howned : t.store.Owned)
    (call : StorageCall) : (t.attempt call).store.Owned := by
  unfold attempt
  cases hok : t.perform call with
  | error failure => exact howned
  | ok after => exact owned_perform h howned hok

/-!
# Any number of calls
-/

theorem consistent_after {t : Storage} (h : t.store.Consistent) (calls : List StorageCall) :
    (t.after calls).store.Consistent := by
  induction calls generalizing t with
  | nil => exact h
  | cons call rest ih => exact ih (consistent_attempt h call).1

theorem owned_after {t : Storage} (h : t.store.Consistent) (howned : t.store.Owned)
    (calls : List StorageCall) : (t.after calls).store.Owned := by
  induction calls generalizing t with
  | nil => exact howned
  | cons call rest ih => exact ih (consistent_attempt h call).1 (owned_attempt h howned call)

/-- The symbols that calls create, one call after the other, in the order of their rows. -/
def creations (t : Storage) : List StorageCall -> List SymbolRow
  | [] => []
  | call :: rest =>
      newSymbols t.store (t.attempt call).store ++ creations (t.attempt call) rest

theorem creations_append (t : Storage) (calls more : List StorageCall) :
    t.creations (calls ++ more) = t.creations calls ++ (t.after calls).creations more := by
  induction calls generalizing t with
  | nil => rfl
  | cons call rest ih =>
      rw [List.cons_append, creations, ih, creations, List.append_assoc]
      rfl

theorem mem_creations {t : Storage} (calls : List StorageCall) {row : SymbolRow}
    (hrow : row ∈ (t.after calls).store.symbols) :
    row ∈ t.store.symbols ∨ row ∈ t.creations calls := by
  induction calls generalizing t with
  | nil => exact Or.inl hrow
  | cons call rest ih =>
      rcases ih hrow with hattempt | hlater
      · by_cases hold : row ∈ t.store.symbols
        · exact Or.inl hold
        · refine Or.inr (List.mem_append_left _ (List.mem_filter.mpr ⟨hattempt, ?_⟩))
          simp [hold]
      · exact Or.inr (List.mem_append_right _ hlater)

/-- Each symbol is created under a number above all those that were ever given. -/
theorem ascending_creations {t : Storage} (h : t.store.Consistent) (calls : List StorageCall) :
    (numbersOf (t.creations calls)).Pairwise (· < ·) ∧
      forall row, row ∈ t.creations calls -> t.store.nextSymbol ≤ row.id.number := by
  induction calls generalizing t with
  | nil =>
      refine ⟨List.Pairwise.nil, ?_⟩
      intro row hrow
      cases hrow
  | cons call rest ih =>
      rcases consistent_attempt h call with ⟨hnext, new, hnew⟩
      rcases ih hnext with ⟨hascending, hlater⟩
      rw [creations, hnew.newSymbols_eq h.filed.linked]
      constructor
      · rw [numbersOf, List.map_append]
        refine List.pairwise_append.mpr ⟨hnew.ascending, hascending, ?_⟩
        intro old hold number hnumber
        rcases List.mem_map.mp hold with ⟨row, hrow, rfl⟩
        rcases List.mem_map.mp hnumber with ⟨other, hother, rfl⟩
        exact Int.lt_of_lt_of_le (hnew.fresh row hrow).2 (hlater other hother)
      · intro row hrow
        rcases List.mem_append.mp hrow with hfirst | hrest
        · exact (hnew.fresh row hfirst).1
        · exact Int.le_trans (Int.ofNat_le.mpr hnew.next) (hlater row hrest)

/--
The database after any calls, failed ones included. Locations belong to a symbol of
their file; a file has one owner and one status at the most; the symbols of a file carry
the part of its status, which is the part of its owner; its digest is that of the results
its rows make up; and the symbols of all times ascend in the order of their creation.
-/
theorem database_after (calls : List StorageCall) :
    let s := (empty.after calls).store
    (forall l, l ∈ s.locations ->
      exists row, row ∈ s.symbols ∧ row.id = l.symbol ∧ row.file = l.file) ∧
    (s.members.entries.map Prod.fst).Nodup ∧
    (s.statuses.entries.map Prod.fst).Nodup ∧
    (forall row, row ∈ s.symbols ->
      exists status, s.statuses.get? row.file = some status ∧ row.part = status.part) ∧
    (forall file status owner, s.statuses.get? file = some status ->
      s.members.get? file = some owner -> status.part = owner) ∧
    (forall file status, s.statuses.get? file = some status ->
      exists r, s.readBack file = some r ∧ r.digest = status.digest) ∧
    (numbersOf s.symbols).Pairwise (· < ·) ∧
    (numbersOf (empty.creations calls)).Pairwise (· < ·) ∧
    (forall earlier later, calls = earlier ++ later ->
      forall row, row ∈ (empty.after earlier).store.symbols -> row ∈ empty.creations calls) := by
  have h := consistent_after (t := empty) consistent_empty calls
  refine ⟨h.filed.linked.anchored, Table.nodup _, Table.nodup _, ?_, h.matched, ?_, h.ascending,
    (ascending_creations consistent_empty calls).1, ?_⟩
  · intro row hrow
    have hmem : row ∈ ((empty.after calls).store.recordsAt row.file).1 :=
      List.mem_filter.mpr ⟨hrow, by simp⟩
    cases hstatus : (empty.after calls).store.statuses.get? row.file with
    | none =>
        rw [h.filed.blank _ hstatus] at hmem
        cases hmem
    | some status =>
        rcases h.filed.indexed _ status hstatus with ⟨r, -, -, hr⟩
        exact ⟨status, rfl, hr.part_of_mem hrow rfl⟩
  · intro file status hstatus
    rcases h.filed.indexed file status hstatus with ⟨r, hstray, hdigest, hr⟩
    exact ⟨r, hr.readBack hstray, hdigest⟩
  · intro earlier later hcalls row hrow
    rw [hcalls, creations_append]
    rcases mem_creations earlier hrow with hnone | hcreated
    · cases hnone
    · exact List.mem_append_left _ hcreated

end Storage
end SymbolIndex
