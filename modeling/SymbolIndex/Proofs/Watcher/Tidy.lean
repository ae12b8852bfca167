import SymbolIndex.Overlay
import SymbolIndex.Proofs.FileId
import SymbolIndex.Proofs.Watcher

/-!
# Tidy watchers

A watcher finds files by their paths and by their ids. In a tidy one the two agree, every
file is watched under some spelling of the path that its id stands for, no file is
watched that has generated contents, and unwatchable files have paths too. Whoever removes
files, adds files that are on the disk or reports a batch of raw events leaves the watcher
tidy. A batch reports a file as removed only if it was watched and is not on the disk.
-/

namespace SymbolIndex
namespace Watcher

variable {b : Backend} {w w' : Watcher} {id other : FileId} {p : Path} {ids : List FileId}
  {files : List (FileId × Path)}

/-- What is found by a path is watched under this path. -/
def Listed (w : Watcher) : Prop :=
  forall cs id, w.byPath.get? cs = some id ->
    exists p, w.byId.get? id = some p ∧ p.components = cs

structure Tidy (pathOf : FileId -> Option Path) (o : Overlay) (w : Watcher) : Prop where
  listed : w.Listed
  paths : forall id p, w.byId.get? id = some p -> pathOf id = some p.normalize
  bare : forall id p, w.byId.get? id = some p -> o.contains p = false
  refused : forall id, w.isUnwatchable id = true -> exists p, pathOf id = some p

/-- Every file is watched under the normal form of its path. -/
def Plain (w : Watcher) : Prop := forall id p, w.byId.get? id = some p -> p.normalize = p

/-- Where a file is watched, whatever the spelling of its path. -/
def place? (w : Watcher) (id : FileId) : Option (List Component) :=
  (w.byId.get? id).map Path.components

theorem isWatched_eq (w : Watcher) (id : FileId) : w.isWatched id = (w.place? id).isSome := by
  rw [isWatched, Table.contains, place?, Option.isSome_map]

/-!
# Files that are found by their paths
-/

theorem byPath_leave (w : Watcher) (directory : Path) :
    (w.leave directory).byPath = w.byPath := by
  unfold leave
  split
  · split <;> rfl
  · rfl

theorem Listed.drop (h : w.Listed) (id : FileId) : (w.drop id).Listed := by
  unfold Watcher.drop
  cases hknown : w.byId.get? id with
  | none => exact h
  | some p =>
      intro cs found hfound
      dsimp only at hfound ⊢
      rw [byPath_leave, Table.get?_erase] at hfound
      split at hfound
      · cases hfound
      · rename_i hcs
        rcases h cs found hfound with ⟨q, hq, hcomponents⟩
        have hother : id ≠ found := by
          rintro rfl
          rw [hknown] at hq
          cases hq
          exact hcs hcomponents
        exact ⟨q, by rw [byId_leave, Table.get?_erase, if_neg hother]; exact hq, hcomponents⟩

theorem Listed.foldl_drop (h : w.Listed) (ids : List FileId) :
    (ids.foldl Watcher.drop w).Listed := by
  induction ids generalizing w with
  | nil => exact h
  | cons id rest ih => exact ih (h.drop id)

theorem Listed.remove (h : w.Listed) (ids : List FileId) : (w.remove ids).Listed := by
  unfold Watcher.remove
  induction ids generalizing w with
  | nil => exact h
  | cons id rest ih => exact ih (h.drop id)

theorem Listed.watch (h : w.Listed) (hnew : w.byId.get? id = none)
    (hpaths : w'.byPath = w.byPath.insert p.components id) (hids : w'.byId = w.byId.insert id p) :
    w'.Listed := by
  intro cs found hfound
  rw [hpaths, Table.get?_insert] at hfound
  rw [hids]
  split at hfound
  · rename_i hcs
    cases hfound
    exact ⟨p, by rw [Table.get?_insert, if_pos rfl], hcs⟩
  · rcases h cs found hfound with ⟨q, hq, hcomponents⟩
    have hother : id ≠ found := by
      rintro rfl
      rw [hnew] at hq
      cases hq
    exact ⟨q, by rw [Table.get?_insert, if_neg hother]; exact hq, hcomponents⟩

theorem Listed.addOne (h : w.Listed) (b : Backend) (id : FileId) (p : Path) :
    (Watcher.addOne b w id p).2.Listed := by
  have hdropped : (w.drop id).byId.get? id = none := by rw [get?_byId_drop, if_pos rfl]
  unfold Watcher.addOne
  split
  · exact h
  · unfold insert
    dsimp only
    by_cases hcount : ((w.drop id).directories.get? (directoryOf p).components).getD 0 = 0
    · rw [if_pos hcount]
      cases b.accepts (w.drop id).calls.length (directoryOf p) with
      | true => exact (h.drop id).watch hdropped rfl rfl
      | false => exact h.drop id
    · rw [if_neg hcount]
      exact (h.drop id).watch hdropped rfl rfl

theorem Listed.add (h : w.Listed) (b : Backend) (files : List (FileId × Path)) :
    (Watcher.add b w files).Listed := by
  have heach : (Watcher.addEach b w files).2.Listed := by
    induction files generalizing w with
    | nil => exact h
    | cons file rest ih => exact ih (h.addOne b file.1 file.2)
  unfold Watcher.add
  dsimp only
  split
  · exact heach
  · exact heach

/-!
# Files that are watched
-/

theorem get?_byId_remove (w : Watcher) (ids : List FileId) (other : FileId) :
    (w.remove ids).byId.get? other = if other ∈ ids then none else w.byId.get? other := by
  unfold remove
  induction ids generalizing w with
  | nil => simp
  | cons id rest ih =>
      rw [List.foldl_cons, ih]
      show (if other ∈ rest then none else (w.drop id).byId.get? other) = _
      rw [get?_byId_drop]
      by_cases hid : id = other
      · simp [hid]
      · simp [hid, Ne.symm hid]

theorem get?_byId_foldl_drop (w : Watcher) (ids : List FileId) (other : FileId) :
    (ids.foldl drop w).byId.get? other = if other ∈ ids then none else w.byId.get? other := by
  induction ids generalizing w with
  | nil => simp
  | cons id rest ih =>
      rw [List.foldl_cons, ih, get?_byId_drop]
      by_cases hid : id = other
      · simp [hid]
      · simp [hid, Ne.symm hid]

theorem get?_byId_addOne (b : Backend) (w : Watcher) (id : FileId) (p : Path) {q : Path}
    (h : (addOne b w id p).2.byId.get? other = some q) :
    w.byId.get? other = some q ∨ (id = other ∧ p = q) := by
  have hadded := added_addOne b w id p
  generalize addOne b w id p = r at hadded h
  cases hadded with
  | listed hlisted => exact Or.inl h
  | watched w' hwatched =>
      rw [hwatched] at h
      split at h
      · rename_i hid
        exact Or.inr ⟨hid, Option.some.inj h⟩
      · exact Or.inl h
  | refused w' hwatched =>
      rw [hwatched] at h
      split at h
      · cases h
      · exact Or.inl h

theorem get?_byId_add (b : Backend) (w : Watcher) (files : List (FileId × Path)) {q : Path}
    (h : (add b w files).byId.get? other = some q) :
    w.byId.get? other = some q ∨ (other, q) ∈ files := by
  have heach : (addEach b w files).2.byId.get? other = some q ->
      w.byId.get? other = some q ∨ (other, q) ∈ files := by
    clear h
    induction files generalizing w with
    | nil => exact Or.inl
    | cons file rest ih =>
        intro h
        rcases ih _ h with hone | hrest
        · rcases get?_byId_addOne b w file.1 file.2 hone with hold | ⟨rfl, rfl⟩
          · exact Or.inl hold
          · exact Or.inr List.mem_cons_self
        · exact Or.inr (List.mem_cons_of_mem _ hrest)
  unfold add at h
  dsimp only at h
  split at h
  · exact heach h
  · exact heach h

theorem get?_byId_addOne_of_ne (b : Backend) (w : Watcher) (p : Path) (hne : other ≠ id) :
    (addOne b w other p).2.byId.get? id = w.byId.get? id := by
  have hadded := added_addOne b w other p
  generalize addOne b w other p = r at hadded ⊢
  cases hadded with
  | listed hlisted => rfl
  | watched w' hwatched => rw [hwatched, if_neg hne]
  | refused w' hwatched => rw [hwatched, if_neg hne]

theorem get?_byId_add_of_notMem (b : Backend) (w : Watcher) (h : id ∉ files.map Prod.fst) :
    (add b w files).byId.get? id = w.byId.get? id := by
  have heach : (addEach b w files).2.byId.get? id = w.byId.get? id := by
    induction files generalizing w with
    | nil => rfl
    | cons file rest ih =>
        simp only [List.map_cons, List.mem_cons, not_or] at h
        exact (ih _ h.2).trans (get?_byId_addOne_of_ne b w file.2 (Ne.symm h.1))
  unfold add
  dsimp only
  split
  · exact heach
  · exact heach

theorem isUnwatchable_remove_eq_false (h : w.isUnwatchable id = false) (ids : List FileId) :
    (w.remove ids).isUnwatchable id = false := by
  unfold remove
  induction ids generalizing w with
  | nil => exact h
  | cons first rest ih =>
      apply ih
      rw [isUnwatchable, Table.contains, Table.get?_erase]
      split
      · rfl
      · exact h

theorem isUnwatchable_remove_of_mem (w : Watcher) (hid : id ∈ ids) :
    (w.remove ids).isUnwatchable id = false := by
  induction ids generalizing w with
  | nil => cases hid
  | cons first rest ih =>
      rcases List.mem_cons.mp hid with rfl | hrest
      · refine isUnwatchable_remove_eq_false (w := { w.drop id with
          unwatchable := w.unwatchable.erase id }) ?_ rest
        rw [isUnwatchable, Table.contains, Table.get?_erase, if_pos rfl]
        rfl
      · exact ih _ hrest

theorem isUnwatchable_addOne_eq_false (h : w.isUnwatchable id = false)
    (haccepts : other = id -> forall calls, b.accepts calls (directoryOf p) = true) :
    (addOne b w other p).2.isUnwatchable id = false := by
  by_cases hid : other = id
  · have hadded := added_addOne b w other p
    generalize addOne b w other p = r at hadded
    cases hadded with
    | listed hlisted => exact h
    | watched w' hwatched hunwatchable =>
        rw [isUnwatchable, Table.contains, hunwatchable, if_pos hid]
        rfl
    | refused w' hwatched hunwatchable hdirectories houtbox hrefuses =>
        rcases hrefuses with ⟨calls, hrefuses⟩
        rw [haccepts hid calls] at hrefuses
        cases hrefuses
  · rw [isUnwatchable_addOne b w p hid]
    exact h

theorem isUnwatchable_add_eq_false (h : w.isUnwatchable id = false)
    (haccepts : forall f, f ∈ files -> f.1 = id ->
      forall calls, b.accepts calls (directoryOf f.2) = true) :
    (add b w files).isUnwatchable id = false := by
  have heach : (addEach b w files).2.isUnwatchable id = false := by
    induction files generalizing w with
    | nil => exact h
    | cons f rest ih =>
        exact ih (isUnwatchable_addOne_eq_false h (haccepts f List.mem_cons_self))
          (fun g hg => haccepts g (List.mem_cons_of_mem _ hg))
  unfold add
  dsimp only
  split
  · exact heach
  · exact heach

theorem Lists.place? (h : w.Lists id p) (hwatchable : w.isUnwatchable id = false) :
    w.place? id = some p.components := by
  rcases h with hknown | hrefused
  · rw [knows] at hknown
    split at hknown
    · rename_i q hq
      rw [Watcher.place?, hq, Option.map_some, of_decide_eq_true hknown]
    · cases hknown
  · rw [knows] at hrefused
    split at hrefused
    · rename_i q hq
      rw [isUnwatchable, Table.contains, hq] at hwatchable
      cases hwatchable
    · cases hrefused

/-!
# Tidiness
-/

section Tidy

variable {pathOf pathOf' : FileId -> Option Path} {o o' : Overlay}

theorem tidy_empty (pathOf : FileId -> Option Path) (o : Overlay) : empty.Tidy pathOf o where
  listed := by
    intro cs id hid
    cases hid
  paths := by
    intro id p hp
    cases hp
  bare := by
    intro id p hp
    cases hp
  refused := by
    intro id hid
    cases hid

theorem Tidy.of_same (h : w.Tidy pathOf o) (hpaths : w'.byPath = w.byPath)
    (hids : w'.byId = w.byId) (hunwatchable : w'.unwatchable = w.unwatchable) :
    w'.Tidy pathOf o where
  listed := by
    rw [Listed, hpaths, hids]
    exact h.listed
  paths := by
    rw [hids]
    exact h.paths
  bare := by
    rw [hids]
    exact h.bare
  refused := by
    simp only [isUnwatchable, hunwatchable]
    exact h.refused

theorem Tidy.of_paths (h : w.Tidy pathOf o)
    (hpaths : forall id p, pathOf id = some p -> pathOf' id = some p) : w.Tidy pathOf' o where
  listed := h.listed
  paths := fun id p hp => hpaths id _ (h.paths id p hp)
  bare := h.bare
  refused := by
    intro id hid
    rcases h.refused id hid with ⟨p, hp⟩
    exact ⟨p, hpaths id p hp⟩

theorem Tidy.remove (h : w.Tidy pathOf o)
    (hbare : forall id p, id ∉ ids -> w.byId.get? id = some p -> o'.contains p = false) :
    (w.remove ids).Tidy pathOf o' where
  listed := h.listed.remove ids
  paths := by
    intro id p hp
    rw [get?_byId_remove] at hp
    split at hp
    · cases hp
    · exact h.paths id p hp
  bare := by
    intro id p hp
    rw [get?_byId_remove] at hp
    split at hp
    · cases hp
    · rename_i hid
      exact hbare id p hid hp
  refused := by
    intro id hid
    cases hbefore : w.isUnwatchable id with
    | true => exact h.refused id hbefore
    | false =>
        rw [isUnwatchable_remove_eq_false hbefore] at hid
        cases hid

theorem Tidy.add (h : w.Tidy pathOf o)
    (hfiles : forall f, f ∈ files ->
      pathOf f.1 = some f.2.normalize ∧ o.contains f.2 = false) :
    (Watcher.add b w files).Tidy pathOf o where
  listed := h.listed.add b files
  paths := by
    intro id p hp
    rcases get?_byId_add b w files hp with hold | hnew
    · exact h.paths id p hold
    · exact (hfiles _ hnew).1
  bare := by
    intro id p hp
    rcases get?_byId_add b w files hp with hold | hnew
    · exact h.bare id p hold
    · exact (hfiles _ hnew).2
  refused := by
    intro id hid
    by_cases hadded : id ∈ files.map Prod.fst
    · rcases List.mem_map.mp hadded with ⟨f, hf, rfl⟩
      exact ⟨_, (hfiles f hf).1⟩
    · rw [isUnwatchable_add b w files hadded] at hid
      exact h.refused id hid

end Tidy

theorem Plain.remove (h : w.Plain) (ids : List FileId) : (w.remove ids).Plain := by
  intro id p hp
  rw [get?_byId_remove] at hp
  split at hp
  · cases hp
  · exact h id p hp

theorem Plain.add (h : w.Plain) (b : Backend)
    (hfiles : forall f, f ∈ files -> f.2.normalize = f.2) : (Watcher.add b w files).Plain := by
  intro id p hp
  rcases get?_byId_add b w files hp with hold | hnew
  · exact h id p hold
  · exact hfiles _ hnew

/-!
# Batches of raw events
-/

section Flush

variable {d : Disk} {events : List Path} {pathOf : FileId -> Option Path} {o : Overlay}

/-- The files that a batch reports as removed. -/
def missing (w : Watcher) (d : Disk) (events : List Path) : List FileId :=
  (w.touched events).filter fun id => !w.isOnDisk d id

/-- The files that a batch reports as changed. -/
def present (w : Watcher) (d : Disk) (events : List Path) : List FileId :=
  (w.touched events).filter (w.isOnDisk d)

theorem outbox_foldl_drop (w : Watcher) (ids : List FileId) :
    (ids.foldl drop w).outbox = w.outbox := by
  induction ids generalizing w with
  | nil => rfl
  | cons id rest ih => exact (ih _).trans (outbox_drop w id)

theorem unwatchable_foldl_drop (w : Watcher) (ids : List FileId) :
    (ids.foldl drop w).unwatchable = w.unwatchable := by
  induction ids generalizing w with
  | nil => rfl
  | cons id rest ih => exact (ih _).trans (unwatchable_drop w id)

theorem Listed.isWatched_of_mem_touched (h : w.Listed) (hid : id ∈ w.touched events) :
    exists p, w.byId.get? id = some p := by
  rcases List.mem_flatMap.mp (FileId.mem_ascending.mp hid) with ⟨event, -, haffected⟩
  unfold affected at haffected
  dsimp only at haffected
  split at haffected
  · rename_i found hfound
    rw [List.mem_singleton.mp haffected]
    rcases h _ _ hfound with ⟨p, hp, -⟩
    exact ⟨p, hp⟩
  · split at haffected
    · rcases List.mem_map.mp haffected with ⟨entry, hentry, rfl⟩
      have hfound := (Table.mem_entries_iff w.byPath entry.1 entry.2).mp
        (List.mem_filter.mp hentry).1
      rcases h _ _ hfound with ⟨p, hp, -⟩
      exact ⟨p, hp⟩
    · cases haffected

/-- What is sent about the files that are there and about those that are gone. -/
def reports (changed removed : List FileId) : List PathChange :=
  (if changed.isEmpty then [] else [.changed changed]) ++
    if removed.isEmpty then [] else [.removed removed]

theorem eq_of_removed_mem_reports {changed removed files : List FileId}
    (h : .removed files ∈ reports changed removed) : files = removed := by
  rcases List.mem_append.mp h with hchanged | hremoved
  · split at hchanged
    · cases hchanged
    · cases List.mem_singleton.mp hchanged
  · split at hremoved
    · cases hremoved
    · cases List.mem_singleton.mp hremoved
      rfl

theorem flush_eq_reports (w : Watcher) (d : Disk) (events : List Path) :
    w.flush d events = { (w.missing d events).foldl drop w with
      outbox := w.outbox ++ reports (w.present d events) (w.missing d events) } := by
  have hdropped := outbox_foldl_drop w (w.missing d events)
  show (if (w.missing d events).isEmpty then
      if (w.present d events).isEmpty then (w.missing d events).foldl drop w
      else ((w.missing d events).foldl drop w).send (.changed (w.present d events))
    else (if (w.present d events).isEmpty then (w.missing d events).foldl drop w
      else ((w.missing d events).foldl drop w).send (.changed (w.present d events))).send
        (.removed (w.missing d events))) = _
  generalize (w.missing d events).foldl drop w = dropped at hdropped ⊢
  rw [← hdropped, reports]
  cases (w.present d events).isEmpty <;> cases (w.missing d events).isEmpty <;> simp [send]

theorem flush_eq (w : Watcher) (d : Disk) (events : List Path) :
    exists news, w.flush d events =
        { (w.missing d events).foldl drop w with outbox := w.outbox ++ news } ∧
      forall files, PathChange.removed files ∈ news -> files = w.missing d events :=
  ⟨_, flush_eq_reports w d events, fun _ hfiles => eq_of_removed_mem_reports hfiles⟩

theorem Listed.spared_flush (h : w.Listed) (hthere : forall p, w.byId.get? id = some p ->
      d.doesExist p = true) : id ∉ w.missing d events := by
  intro hmissing
  rcases List.mem_filter.mp hmissing with ⟨htouched, hgone⟩
  rcases h.isWatched_of_mem_touched htouched with ⟨p, hp⟩
  rw [isOnDisk, hp] at hgone
  dsimp only at hgone
  rw [hthere p hp] at hgone
  cases hgone

theorem Plain.flush (h : w.Plain) (d : Disk) (events : List Path) :
    (Watcher.flush w d events).Plain := by
  rcases flush_eq w d events with ⟨news, heq, -⟩
  intro id p hp
  rw [heq] at hp
  dsimp only at hp
  rw [get?_byId_foldl_drop] at hp
  split at hp
  · cases hp
  · exact h id p hp

theorem Tidy.flush (h : w.Tidy pathOf o) (d : Disk) (events : List Path) :
    (Watcher.flush w d events).Tidy pathOf o := by
  rcases flush_eq w d events with ⟨news, heq, -⟩
  rw [heq]
  refine ⟨h.listed.foldl_drop _, ?_, ?_, ?_⟩
  · intro id p hp
    rw [get?_byId_foldl_drop] at hp
    split at hp
    · cases hp
    · exact h.paths id p hp
  · intro id p hp
    rw [get?_byId_foldl_drop] at hp
    split at hp
    · cases hp
    · exact h.bare id p hp
  · intro id hid
    rw [isUnwatchable] at hid
    dsimp only at hid
    rw [unwatchable_foldl_drop] at hid
    exact h.refused id hid

end Flush

/-!
# Notifications that wait
-/

/-- A notification waits that says that a file was removed. -/
def Announces (w : Watcher) (id : FileId) : Prop :=
  exists files, PathChange.removed files ∈ w.outbox ∧ id ∈ files

theorem announces_of_outbox_eq (h : w'.outbox = w.outbox) (id : FileId) :
    w'.Announces id ↔ w.Announces id := by
  rw [Announces, Announces, h]

theorem announces_append {news : List PathChange} (h : w'.outbox = w.outbox ++ news)
    (id : FileId) :
    w'.Announces id ↔ w.Announces id ∨ exists files, .removed files ∈ news ∧ id ∈ files := by
  simp only [Announces, h, List.mem_append, or_and_right, exists_or]

section Announcing

variable {pathOf : FileId -> Option Path}

theorem Announces.add (h : w.Announces id) (b : Backend)
    (hpaths : forall f, f ∈ files -> pathOf f.1 = some f.2) :
    (Watcher.add b w files).Announces id := by
  rcases outbox_add b w hpaths with hsame | ⟨failed, hmore, -⟩
  · exact (announces_of_outbox_eq hsame id).mpr h
  · exact (announces_append hmore id).mpr (Or.inl h)

theorem announces_add (b : Backend) (hpaths : forall f, f ∈ files -> pathOf f.1 = some f.2)
    (h : (add b w files).Announces id) :
    w.Announces id ∨ (id ∈ files.map Prod.fst ∧ (add b w files).isUnwatchable id = true) := by
  rcases outbox_add b w hpaths with hsame | ⟨failed, hmore, hfailed⟩
  · exact Or.inl ((announces_of_outbox_eq hsame id).mp h)
  · rcases (announces_append hmore id).mp h with hold | ⟨ids, hids, hid⟩
    · exact Or.inl hold
    · cases List.mem_singleton.mp hids
      exact Or.inr (hfailed id hid)

theorem announces_add_of_notMem (b : Backend)
    (hpaths : forall f, f ∈ files -> pathOf f.1 = some f.2) (hid : id ∉ files.map Prod.fst) :
    (add b w files).Announces id ↔ w.Announces id := by
  constructor
  · intro h
    rcases announces_add b hpaths h with hold | ⟨hadded, -⟩
    · exact hold
    · exact absurd hadded hid
  · exact fun h => h.add b hpaths

end Announcing

end Watcher
end SymbolIndex
