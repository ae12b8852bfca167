import SymbolIndex.Proofs.Storage.Order
import SymbolIndex.Proofs.Store.Insertion
import SymbolIndex.Proofs.Store.Showing

/-!
# What an answer stands for

A delivery is answered by what is stored about its task and by the results themselves:
whether the file still belongs to the part, whether the same results are stored already,
and whether every location names a symbol. What is stored afterwards is what the answer
says, and queries show it.
-/

namespace SymbolIndex
namespace Store

/-- A task's part is stored, and it owns the task's file. -/
def Assigned (s : Store) (task : Task) : Prop :=
  s.parts.contains task.part = true ∧ s.members.get? task.file = some task.part

theorem isCurrent_eq_true_iff (s : Store) (task : Task) :
    s.isCurrent task = true ↔ s.Assigned task := by
  rw [isCurrent, Bool.and_eq_true, beq_iff_eq, Assigned]

theorem same_iff (s : Store) (task : Task) (r : Results) :
    s.Same task r ↔ (s.statuses.get? task.file).any
      (fun old => decide (old.part = task.part) && old.digest == r.digest) = true := by
  cases hold : s.statuses.get? task.file with
  | none => simp [Same, hold]
  | some old => simp [Same, hold]

/-- The first location of a result set that names no symbol. -/
def IsFirstStray (r : Results) (l : CollectedLocation) : Prop :=
  exists before after, r.locations = before ++ l :: after ∧ r.symbols.length ≤ l.symbol ∧
    forall other, other ∈ before -> other.symbol < r.symbols.length

theorem strayLocation?_eq_some_iff (r : Results) (l : CollectedLocation) :
    strayLocation? r = some l ↔ IsFirstStray r l := by
  rw [strayLocation?, List.find?_eq_some_iff_append, decide_eq_true_iff]
  constructor
  · rintro ⟨hstray, before, after, hsplit, hbefore⟩
    refine ⟨before, after, hsplit, hstray, ?_⟩
    intro other hother
    simpa using hbefore other hother
  · rintro ⟨before, after, hsplit, hstray, hbefore⟩
    refine ⟨hstray, before, after, hsplit, ?_⟩
    intro other hother
    simpa using hbefore other hother

theorem get?_statuses_eq_rowOf_iff {s : Store} {task : Task} {r : Results} (h : s.Same task r)
    (status : FileStatus) :
    s.statuses.get? task.file = some (rowOf task status r) ↔
      s.indexedFile? task.file = some ⟨task.file, task.part, status⟩ := by
  rcases h with ⟨old, hold, hpart, hdigest⟩
  rw [indexedFile?, hold, Option.map_some, Option.some_inj, Option.some_inj, IndexedFile.mk.injEq]
  constructor
  · rintro rfl
    exact ⟨rfl, rfl, rfl⟩
  · rintro ⟨-, -, hstatus⟩
    rw [rowOf, ← hpart, ← hdigest, ← hstatus, StatusRow.write_status]

end Store

namespace Storage

open Store

/-!
# The four answers
-/

section Answers

variable (t : Storage) (d : Delivery)

theorem answer_cases :
    (¬ t.store.Assigned d.task ∧ (t.deliver d).1 = .ok .stale) ∨
    (t.store.Assigned d.task ∧ t.store.Same d.task d.results ∧
      (t.deliver d).1 = .ok .unchanged) ∨
    (t.store.Assigned d.task ∧ ¬ t.store.Same d.task d.results ∧
      exists l, strayLocation? d.results = some l ∧
        (t.deliver d).1 = .error (strayFailure l)) ∨
    (t.store.Assigned d.task ∧ ¬ t.store.Same d.task d.results ∧
      strayLocation? d.results = none ∧
      (t.deliver d).1 =
        .ok (.applied d.results.symbols.length d.results.locations.length)) := by
  rw [answer_eq, Delivery.answer, ← isCurrent_eq_true_iff, same_iff]
  cases t.store.isCurrent d.task with
  | false => exact Or.inl ⟨Bool.false_ne_true, rfl⟩
  | true =>
      refine Or.inr ?_
      rw [Bool.not_true, if_neg Bool.false_ne_true]
      split
      · rename_i hsame
        exact Or.inl ⟨rfl, hsame, rfl⟩
      · rename_i hdiffers
        cases hstray : strayLocation? d.results with
        | some l => exact Or.inr (Or.inl ⟨rfl, hdiffers, l, rfl, rfl⟩)
        | none => exact Or.inr (Or.inr ⟨rfl, hdiffers, rfl, rfl⟩)

theorem answer_eq_stale_iff : (t.deliver d).1 = .ok .stale ↔ ¬ t.store.Assigned d.task := by
  rcases answer_cases t d with
    ⟨hnone, h⟩ | ⟨hassigned, -, h⟩ | ⟨hassigned, -, l, -, h⟩ | ⟨hassigned, -, -, h⟩
  · simp [h, hnone]
  all_goals simp [h, hassigned]

theorem answer_eq_unchanged_iff :
    (t.deliver d).1 = .ok .unchanged ↔
      t.store.Assigned d.task ∧ t.store.Same d.task d.results := by
  rcases answer_cases t d with
    ⟨hnone, h⟩ | ⟨hassigned, hsame, h⟩ | ⟨-, hdiffers, l, -, h⟩ | ⟨-, hdiffers, -, h⟩
  · simp [h, hnone]
  · simp [h, hassigned, hsame]
  all_goals simp [h, hdiffers]

theorem answer_eq_error_iff (failure : Failure) :
    (t.deliver d).1 = .error failure ↔
      t.store.Assigned d.task ∧ ¬ t.store.Same d.task d.results ∧
        exists l, IsFirstStray d.results l ∧ failure = strayFailure l := by
  simp only [← strayLocation?_eq_some_iff]
  rcases answer_cases t d with
    ⟨hnone, h⟩ | ⟨-, hsame, h⟩ | ⟨hassigned, hdiffers, l, hl, h⟩ | ⟨-, -, hplain, h⟩
  · simp [h, hnone]
  · simp [h, hsame]
  · simp [h, hassigned, hdiffers, hl, eq_comm]
  · simp [h, hplain]

theorem answer_eq_applied_iff (symbols locations : Nat) :
    (t.deliver d).1 = .ok (.applied symbols locations) ↔
      t.store.Assigned d.task ∧ ¬ t.store.Same d.task d.results ∧
        (forall l, l ∈ d.results.locations -> l.symbol < d.results.symbols.length) ∧
        symbols = d.results.symbols.length ∧ locations = d.results.locations.length := by
  rw [← strayLocation?_eq_none_iff]
  rcases answer_cases t d with
    ⟨hnone, h⟩ | ⟨-, hsame, h⟩ | ⟨-, -, l, hl, h⟩ | ⟨hassigned, hdiffers, hplain, h⟩
  · simp [h, hnone]
  · simp [h, hsame]
  · simp [h, hl]
  · simp [h, hassigned, hdiffers, hplain, eq_comm]

end Answers

/-!
# What is left
-/

/-- The store is written for new records and for a new status. -/
theorem wrote_of_applyResults {s s' : Store} {task : Task} {status : FileStatus} {r : Results}
    {outcome : ApplyOutcome} {wrote : Bool}
    (hok : s.applyResults task status r = .ok (outcome, wrote, s')) :
    wrote = match outcome with
      | .applied _ _ => true
      | .unchanged => !decide (s.statuses.get? task.file = some (rowOf task status r))
      | .stale => false := by
  unfold Store.applyResults at hok
  split at hok
  · cases hok
    rfl
  · dsimp only at hok
    rw [← rowOf] at hok
    cases hold : s.statuses.get? task.file with
    | none =>
        rw [hold, if_neg Bool.false_ne_true] at hok
        split at hok
        · cases hok
        · cases hok
          rfl
    | some old =>
        rw [hold] at hok
        dsimp only at hok
        split at hok
        · split at hok
          · rename_i hrow
            cases hok
            simp [hrow]
          · rename_i hrow
            cases hok
            simp [hrow]
        · split at hok
          · cases hok
          · cases hok
            rfl

theorem writes_deliver (t : Storage) (d : Delivery) :
    (t.deliver d).2.writes =
      match (t.deliver d).1 with
      | .ok (.applied _ _) => t.writes + 1
      | .ok .unchanged =>
          if t.store.statuses.get? d.task.file = some (rowOf d.task d.status d.results)
          then t.writes else t.writes + 1
      | _ => t.writes := by
  unfold deliver Storage.applyResults
  cases hok : t.store.applyResults d.task d.status d.results with
  | error failure => rfl
  | ok done =>
      rcases done with ⟨outcome, wrote, s⟩
      simp only [Except.map, advance, wrote_of_applyResults hok]
      cases outcome with
      | applied symbols locations => rfl
      | unchanged =>
          by_cases hrow :
              t.store.statuses.get? d.task.file = some (rowOf d.task d.status d.results)
          · simp [hrow]
          · simp [hrow]
      | stale => rfl

section Left

variable {t : Storage} {d : Delivery}

theorem deliver_eq (t : Storage) (d : Delivery) :
    (t.deliver d).2 = ⟨t.store.absorb d (t.deliver d).1,
      match (t.deliver d).1 with
      | .ok (.applied _ _) => t.writes + 1
      | .ok .unchanged =>
          if t.store.statuses.get? d.task.file = some (rowOf d.task d.status d.results)
          then t.writes else t.writes + 1
      | _ => t.writes⟩ := by
  rw [← store_deliver, ← writes_deliver]

theorem deliver_eq_self (h : (t.deliver d).1 = .ok .stale ∨
    exists failure, (t.deliver d).1 = .error failure) : (t.deliver d).2 = t := by
  rw [deliver_eq]
  rcases h with hstale | ⟨failure, herror⟩
  · rw [hstale]
    rfl
  · rw [herror]
    rfl

theorem deliver_row_by_row (t : Storage) (d : Delivery) (hassigned : t.store.Assigned d.task)
    (hnew : ¬ t.store.Same d.task d.results) :
    t.deliver d = match t.store.insertRecords d.task.file d.task.part d.results with
      | .ok filled =>
          (.ok (.applied d.results.symbols.length d.results.locations.length),
            ⟨filled.putStatus d.task.file (rowOf d.task d.status d.results), t.writes + 1⟩)
      | .error failure => (.error failure, t) := by
  rw [insertRecords_eq]
  rcases answer_cases t d with
    ⟨hnone, -⟩ | ⟨-, hsame, -⟩ | ⟨-, -, l, hl, h⟩ | ⟨-, -, hplain, h⟩
  · exact absurd hassigned hnone
  · exact absurd hsame hnew
  · rw [hl]
    exact Prod.ext h (deliver_eq_self (Or.inr ⟨_, h⟩))
  · rw [hplain]
    refine Prod.ext h ?_
    rw [deliver_eq, h]
    rfl

theorem indexedFile?_putStatus (s : Store) (task : Task) (status : FileStatus) (r : Results) :
    (s.putStatus task.file (rowOf task status r)).indexedFile? task.file =
      some ⟨task.file, task.part, status⟩ := by
  rw [indexedFile?, get?_statuses_putStatus, if_pos rfl]
  rfl

theorem shows_of_same (h : t.store.Filed) (hsame : t.store.Same d.task d.results) :
    exists r first, r.digest = d.results.digest ∧ t.store.Shows d.task.file d.task.part r first := by
  rcases hsame with ⟨old, hold, hpart, hdigest⟩
  rcases h.indexed d.task.file old hold with ⟨r, -, hstored, first, hrecords⟩
  rw [hpart] at hrecords
  exact ⟨r, first, hstored.trans hdigest, h.linked.shows hrecords⟩

theorem shows_of_applied (h : t.store.Linked) (hplain : strayLocation? d.results = none) :
    (t.store.replaceRecords d.task.file d.task.part d.results).Shows d.task.file d.task.part
      d.results t.store.nextSymbol :=
  (h.replaceRecords d.task.file d.task.part hplain).shows
    (h.recordsAt_replaceRecords_self d.task.file d.task.part d.results)

end Left

/-!
# After any calls
-/

theorem next_le_after {t : Storage} (h : t.store.Consistent) (calls : List StorageCall) :
    t.store.nextSymbol ≤ (t.after calls).store.nextSymbol := by
  induction calls generalizing t with
  | nil => exact Nat.le_refl _
  | cons call rest ih =>
      rcases consistent_attempt h call with ⟨hnext, new, hnew⟩
      exact Nat.le_trans hnew.next (ih hnext)

theorem lt_next_of_earlier {calls earlier later : List StorageCall} (hcalls : calls = earlier ++ later)
    {row : SymbolRow} (hrow : row ∈ (empty.after earlier).store.symbols) :
    row.id.number < (empty.after calls).store.nextSymbol := by
  have h := consistent_after (t := empty) consistent_empty earlier
  have hissued := h.filed.linked.issued row hrow
  have hnext := next_le_after h later
  rw [hcalls, after, List.foldl_append]
  exact Int.lt_of_lt_of_le hissued (Int.ofNat_le.mpr hnext)

/--
What a delivery is answered after any calls, and what it leaves. It is stale exactly if
its file does not belong to its part, and fails exactly if a location names no symbol;
then nothing changes. Results of the digest that is stored change nothing but the status,
which is written if it differs. All other results replace what was stored: queries show
them, under numbers above those that were ever given, and whatever belongs to other files
stays as it was.
-/
theorem delivery_is_answered (calls : List StorageCall) (d : Delivery) :
    let t := empty.after calls
    let answer := (t.deliver d).1
    let left := (t.deliver d).2
    let file := d.task.file
    let part := d.task.part
    let r := d.results
    -- the file is not the part's
    (answer = .ok .stale ↔
      t.store.parts.contains part = false ∨ t.store.members.get? file ≠ some part) ∧
    (answer = .ok .stale -> left = t) ∧
    -- the digest is stored
    (answer = .ok .unchanged ↔ t.store.Assigned d.task ∧
      exists old, t.store.statuses.get? file = some old ∧ old.part = part ∧
        old.digest = r.digest) ∧
    (answer = .ok .unchanged ->
      left.store = t.store.putStatus file (rowOf d.task d.status r) ∧
      left.store.indexedFile? file = some ⟨file, part, d.status⟩ ∧
      left.writes = (if t.store.indexedFile? file = some ⟨file, part, d.status⟩ then t.writes
        else t.writes + 1) ∧
      exists stored first, stored.digest = r.digest ∧
        t.store.Shows file part stored first ∧ left.store.Shows file part stored first) ∧
    -- a location names no symbol
    (forall failure, answer = .error failure ↔ t.store.Assigned d.task ∧
      ¬ t.store.Same d.task r ∧ exists l, IsFirstStray r l ∧ failure = strayFailure l) ∧
    (forall failure, answer = .error failure -> left = t) ∧
    -- the results are stored
    (forall symbols locations, answer = .ok (.applied symbols locations) ↔
      t.store.Assigned d.task ∧ ¬ t.store.Same d.task r ∧
        (forall l, l ∈ r.locations -> l.symbol < r.symbols.length) ∧
        symbols = r.symbols.length ∧ locations = r.locations.length) ∧
    (forall symbols locations, answer = .ok (.applied symbols locations) ->
      (exists first, left.store.Shows file part r first ∧
        forall earlier later, calls = earlier ++ later ->
          forall row, row ∈ (empty.after earlier).store.symbols -> row.id.number < first) ∧
      left.store.indexedFile? file = some ⟨file, part, d.status⟩ ∧
      left.writes = t.writes + 1 ∧
      left.store.sources = t.store.sources ∧ left.store.parts = t.store.parts ∧
      left.store.members = t.store.members ∧
      forall other, other ≠ file ->
        left.store.statuses.get? other = t.store.statuses.get? other ∧
        left.store.recordsAt other = t.store.recordsAt other) ∧
    -- what is put in row by row is kept as a whole or not at all
    (t.store.Assigned d.task -> ¬ t.store.Same d.task r ->
      t.deliver d = match t.store.insertRecords file part r with
        | .ok filled =>
            (.ok (.applied r.symbols.length r.locations.length),
              ⟨filled.putStatus file (rowOf d.task d.status r), t.writes + 1⟩)
        | .error failure => (.error failure, t)) := by
  intro t answer left file part r
  have h : t.store.Consistent := consistent_after consistent_empty calls
  refine ⟨?_, ?_, answer_eq_unchanged_iff t d, ?_, answer_eq_error_iff t d, ?_,
    answer_eq_applied_iff t d, ?_, deliver_row_by_row t d⟩
  · rw [show answer = _ from rfl, answer_eq_stale_iff, Assigned, not_and_or, Bool.not_eq_true]
  · intro hstale
    exact deliver_eq_self (Or.inl hstale)
  · intro hunchanged
    have hsame := ((answer_eq_unchanged_iff t d).mp hunchanged).2
    have hleft : left = _ := deliver_eq t d
    rw [show (t.deliver d).1 = _ from hunchanged] at hleft
    rcases shows_of_same h.filed hsame with ⟨stored, first, hdigest, hshows⟩
    rw [hleft]
    refine ⟨rfl, indexedFile?_putStatus t.store d.task d.status r, ?_,
      stored, first, hdigest, hshows, hshows.putStatus _ _⟩
    exact if_congr (get?_statuses_eq_rowOf_iff hsame d.status) rfl rfl
  · intro failure herror
    exact deliver_eq_self (Or.inr ⟨failure, herror⟩)
  · intro symbols locations happlied
    have hplain := ((answer_eq_applied_iff t d symbols locations).mp happlied).2.2.1
    have hleft : left = _ := deliver_eq t d
    rw [show (t.deliver d).1 = _ from happlied] at hleft
    have hshows := shows_of_applied h.filed.linked ((strayLocation?_eq_none_iff _).mpr hplain)
    rw [hleft]
    refine ⟨⟨t.store.nextSymbol, hshows.putStatus _ _, ?_⟩,
      indexedFile?_putStatus _ d.task d.status r, rfl, rfl, rfl, rfl, ?_⟩
    · intro earlier later hcalls row hrow
      exact lt_next_of_earlier hcalls hrow
    · intro other hother
      exact ⟨(get?_statuses_putStatus _ _ _ other).trans (if_neg (Ne.symm hother)),
        h.filed.linked.recordsAt_replaceRecords hother part r⟩

end Storage
end SymbolIndex
