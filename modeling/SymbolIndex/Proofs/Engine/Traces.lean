import SymbolIndex.Proofs.Engine.Reachability
import SymbolIndex.Proofs.Watcher.Whole

/-!
# Traces of a file

A file leaves traces with the queue, the store, the parts, the status cache and the
watcher. What happens to them when files are retired, when they are detached and when a
part is dropped is one statement: some files lose all their traces, some lose those of
their contents, and nothing else changes. Such steps compose.
-/

namespace SymbolIndex

/-- Everything that an engine keeps about one file. -/
structure Traces where
  task : Option Task
  records : List SymbolRow × List LocationRow
  status : Option StatusRow
  member : Option PartId
  owner : Option PartId
  listed : PartId -> Bool
  cached : Option FileStatus
  watched : Option Path
  unwatchable : Option Path

namespace Traces

def none : Traces :=
  ⟨.none, ([], []), .none, .none, .none, fun _ => false, .none, .none, .none⟩

/-- The traces that do not come from the contents of a file. -/
def cleared (t : Traces) : Traces :=
  { t with task := .none, records := ([], []), status := .none, cached := .none }

@[simp] theorem cleared_none : none.cleared = none := rfl

@[simp] theorem cleared_cleared (t : Traces) : t.cleared.cleared = t.cleared := rfl

end Traces

namespace Engine

def traces (e : Engine) (file : FileId) : Traces where
  task := e.scheduler.queue.get? file
  records := e.storage.store.recordsAt file
  status := e.storage.store.statuses.get? file
  member := e.storage.store.members.get? file
  owner := e.ownerOf file
  listed := fun part => (e.parts.get? part).any fun snapshot => snapshot.files.contains file
  cached := e.statuses.cached? file
  watched := e.watcher.byId.get? file
  unwatchable := e.watcher.unwatchable.get? file

/--
Files that are `gone` leave no trace, files that are `kept` lose what came from their
contents, parts are `removed`, and everything else is as before.
-/
structure Retires (gone kept : List FileId) (removed : List PartId) (e e' : Engine) : Prop where
  traceless : forall file, file ∈ gone -> e'.traces file = .none
  emptied : forall file, file ∉ gone -> file ∈ kept -> e'.traces file = (e.traces file).cleared
  others : forall file, file ∉ gone -> file ∉ kept -> e'.traces file = e.traces file
  queue : e'.scheduler.queue.toList =
    e.scheduler.queue.toList.filter fun task => decide (task.file ∉ gone ∧ task.file ∉ kept)
  scheduler : exists queue, e'.scheduler = { e.scheduler with queue }
  snapshots : forall part, e'.parts.get? part =
    if part ∈ removed then none else (e.parts.get? part).map (Snapshot.without gone)
  stored : forall part, e'.storage.store.parts.get? part =
    if part ∈ removed then none else e.storage.store.parts.get? part
  sources : e'.storage.store.sources = e.storage.store.sources
  found : forall cs, e'.watcher.byPath.get? cs =
    (e.watcher.byPath.get? cs).filter fun file => decide (file ∉ gone)
  outbox : e'.watcher.outbox = e.watcher.outbox
  book : e'.book = e.book
  overlay : e'.overlay = e.overlay

variable {e e' e'' : Engine} {gone gone' kept kept' files : List FileId}
  {removed removed' : List PartId} {file : FileId} {part : PartId}

theorem filter_true {α : Type} (o : Option α) : (o.filter fun _ => true) = o := by
  cases o <;> rfl

theorem Retires.refl (e : Engine) : Retires [] [] [] e e where
  traceless := fun _ hfile => absurd hfile List.not_mem_nil
  emptied := fun _ _ hfile => absurd hfile List.not_mem_nil
  others := fun _ _ _ => rfl
  queue := by simp
  scheduler := ⟨e.scheduler.queue, rfl⟩
  snapshots := by
    intro part
    rw [if_neg List.not_mem_nil, Snapshot.without_nil, Option.map_id_fun, id]
  stored := fun _ => (if_neg List.not_mem_nil).symm
  sources := rfl
  found := by simp [filter_true]
  outbox := rfl
  book := rfl
  overlay := rfl

theorem Retires.trans (h : Retires gone kept removed e e')
    (h' : Retires gone' kept' removed' e' e'') :
    Retires (gone ++ gone') (kept ++ kept') (removed ++ removed') e e'' where
  traceless := by
    intro file hfile
    by_cases hlater : file ∈ gone'
    · exact h'.traceless file hlater
    · have hnone := h.traceless file ((List.mem_append.mp hfile).resolve_right hlater)
      by_cases hkept : file ∈ kept'
      · rw [h'.emptied file hlater hkept, hnone, Traces.cleared_none]
      · rw [h'.others file hlater hkept, hnone]
  emptied := by
    intro file hgone hfile
    rw [List.mem_append, not_or] at hgone
    by_cases hfirst : file ∈ kept
    · have hcleared := h.emptied file hgone.1 hfirst
      by_cases hlater : file ∈ kept'
      · rw [h'.emptied file hgone.2 hlater, hcleared, Traces.cleared_cleared]
      · rw [h'.others file hgone.2 hlater, hcleared]
    · rw [h'.emptied file hgone.2 ((List.mem_append.mp hfile).resolve_left hfirst),
        h.others file hgone.1 hfirst]
  others := by
    intro file hgone hkept
    rw [List.mem_append, not_or] at hgone hkept
    rw [h'.others file hgone.2 hkept.2, h.others file hgone.1 hkept.1]
  queue := by
    rw [h'.queue, h.queue, List.filter_filter]
    congr 1
    funext task
    rw [← Bool.decide_and]
    congr 1
    simp only [List.mem_append, not_or]
    exact propext ⟨fun hall => ⟨⟨hall.2.1, hall.1.1⟩, hall.2.2, hall.1.2⟩,
      fun hall => ⟨⟨hall.1.2, hall.2.2⟩, hall.1.1, hall.2.1⟩⟩
  scheduler := by
    rcases h.scheduler with ⟨queue, hqueue⟩
    rcases h'.scheduler with ⟨queue', hqueue'⟩
    exact ⟨queue', by rw [hqueue', hqueue]⟩
  snapshots := by
    intro part
    rw [h'.snapshots, h.snapshots]
    by_cases hfirst : part ∈ removed <;> by_cases hlater : part ∈ removed'
    · simp [hfirst, hlater]
    · simp [hfirst, hlater]
    · simp [hfirst, hlater]
    · simp only [hfirst, hlater, List.mem_append, or_self, if_false, Option.map_map]
      congr 1
      funext snapshot
      exact Snapshot.without_without gone gone' snapshot
  stored := by
    intro part
    rw [h'.stored, h.stored]
    by_cases hfirst : part ∈ removed <;> by_cases hlater : part ∈ removed' <;> simp [hfirst, hlater]
  sources := h'.sources.trans h.sources
  found := by
    intro cs
    rw [h'.found, h.found, Option.filter_filter]
    congr 1
    funext file
    simp only [List.mem_append, not_or, Bool.decide_and]
  outbox := h'.outbox.trans h.outbox
  book := h'.book.trans h.book
  overlay := h'.overlay.trans h.overlay

/-!
# Retiring files
-/

theorem statuses_retireOne (e : Engine) (file : FileId) :
    (e.retireOne file).statuses = e.statuses := by
  unfold retireOne
  dsimp only
  split <;> rfl

theorem foldl_frame {α : Type} (read : Engine -> α) {f : Engine -> FileId -> Engine}
    (h : forall e file, read (f e file) = read e) (e : Engine) (files : List FileId) :
    read (files.foldl f e) = read e := by
  induction files generalizing e with
  | nil => rfl
  | cons file rest ih => exact (ih (f e file)).trans (h e file)

theorem cached?_forget (c : StatusCache) (files : List FileId) (file : FileId) :
    (c.forget files).cached? file = if file ∈ files then none else c.cached? file := by
  rw [StatusCache.cached?, StatusCache.forget, Table.get?_eraseAll, List.contains_eq_mem]
  simp only [decide_eq_true_iff, StatusCache.cached?]

theorem cached?_retire (e : Engine) (files : List FileId) (file : FileId) :
    (e.retire files).statuses.cached? file =
      if file ∈ files then none else e.statuses.cached? file := by
  unfold retire
  cases hempty : files.isEmpty with
  | true => simp [List.isEmpty_iff.mp hempty]
  | false =>
      rw [if_neg Bool.false_ne_true]
      dsimp only
      rw [cached?_forget, foldl_frame Engine.statuses statuses_retireOne]

theorem queue_retire (e : Engine) (files : List FileId) :
    (e.retire files).scheduler.queue =
      if files.isEmpty then e.scheduler.queue else e.scheduler.queue.remove files := by
  unfold retire
  split
  · rfl
  · exact congrArg Scheduler.queue (scheduler_foldl_retireOne _ files)

theorem Agrees.toList_remove (h : e.Agrees) (files : List FileId) :
    (if files.isEmpty then e.scheduler.queue else e.scheduler.queue.remove files).toList =
      e.scheduler.queue.toList.filter fun task => decide (task.file ∉ files) := by
  cases hempty : files.isEmpty with
  | true => simp [List.isEmpty_iff.mp hempty]
  | false => exact h.queue.toList_remove files

/-- Retired files leave no trace. -/
theorem Agrees.retires_retire (h : e.Agrees) {nameOf : FileId -> Option String}
    (hwhole : e.watcher.Whole nameOf) (files : List FileId) :
    Retires files [] [] e (e.retire files) := by
  rcases h.retire files with ⟨hgo, hagrees⟩
  rcases scheduler_retire e files with ⟨queue, hqueue, htasks⟩
  have hlisted : forall file part,
      ((e.retire files).parts.get? part).any (fun snapshot => snapshot.files.contains file) =
        (decide (file ∉ files) &&
          (e.parts.get? part).any fun snapshot => snapshot.files.contains file) := by
    intro file part
    rw [hgo.parts]
    cases e.parts.get? part with
    | none => simp
    | some snapshot =>
        rw [Option.map_some, Option.any_some, Option.any_some, List.contains_eq_mem,
          List.contains_eq_mem, ← Bool.decide_and]
        simp only [Snapshot.mem_without, and_comm]
  constructor
  · intro file hfile
    have hstatus : (e.retire files).storage.store.statuses.get? file = none := by
      rw [hgo.statuses, if_pos hfile]
    simp only [traces, Traces.none, hqueue, htasks, hagrees.store.blank file hstatus, hstatus,
      hgo.members, hgo.owners, hlisted, cached?_retire, watcher_retire, Watcher.get?_byId_remove,
      Watcher.get?_unwatchable_remove, hfile, if_true, not_true_eq_false, decide_false,
      Bool.false_and]
  · intro file _ hfile
    cases hfile
  · intro file hfile _
    simp only [traces, hqueue, htasks, hgo.records file hfile, hgo.statuses,
      hgo.members, hgo.owners, hlisted, cached?_retire, watcher_retire, Watcher.get?_byId_remove,
      Watcher.get?_unwatchable_remove, hfile, if_false, not_false_eq_true, decide_true, Bool.true_and]
  · rw [queue_retire, h.toList_remove]
    simp
  · exact ⟨queue, hqueue⟩
  · intro part
    rw [if_neg List.not_mem_nil]
    exact hgo.parts part
  · intro part
    rw [if_neg List.not_mem_nil, hgo.stored]
  · exact hgo.sources
  · intro cs
    rw [watcher_retire]
    exact hwhole.get?_byPath_remove files cs
  · rw [watcher_retire]
    exact Watcher.outbox_remove e.watcher files
  · exact hgo.book
  · exact hgo.overlay

/-!
# Detaching files
-/

theorem cached?_detach (e : Engine) (files : List FileId) (file : FileId) :
    (e.detach files).statuses.cached? file =
      if file ∈ files then none else e.statuses.cached? file := by
  unfold detach
  cases hempty : files.isEmpty with
  | true => simp [List.isEmpty_iff.mp hempty]
  | false =>
      rw [if_neg Bool.false_ne_true]
      dsimp only
      have hstatuses : forall e : Engine, (files.foldl clearOne e).statuses = e.statuses :=
        fun e => foldl_frame (f := clearOne) Engine.statuses (fun _ _ => rfl) e files
      rw [cached?_forget]
      exact congrArg (fun c => if file ∈ files then none else StatusCache.cached? c file)
        (hstatuses _)

theorem queue_detach (e : Engine) (files : List FileId) :
    (e.detach files).scheduler.queue =
      if files.isEmpty then e.scheduler.queue else e.scheduler.queue.remove files := by
  have hscheduler : forall e : Engine, (files.foldl clearOne e).scheduler = e.scheduler :=
    fun e => foldl_frame (f := clearOne) Engine.scheduler (fun _ _ => rfl) e files
  unfold detach
  split
  · rfl
  · exact congrArg Scheduler.queue (hscheduler _)

theorem Agrees.retires_detach (h : e.Agrees) (files : List FileId) :
    Retires [] files [] e (e.detach files) := by
  rcases h.detach files with ⟨hdetached, hagrees⟩
  rcases scheduler_detach e files with ⟨queue, hqueue, htasks⟩
  constructor
  · intro file hfile
    cases hfile
  · intro file _ hfile
    have hstatus : (e.detach files).storage.store.statuses.get? file = none := by
      rw [hdetached.statuses, if_pos hfile]
    simp only [traces, Traces.cleared, ownerOf, hqueue, htasks, hagrees.store.blank file hstatus,
      hstatus, hdetached.members, hdetached.owners, hdetached.parts, hdetached.watcher,
      cached?_detach, hfile, if_true]
  · intro file _ hfile
    simp only [traces, ownerOf, hqueue, htasks, hdetached.records file hfile, hdetached.statuses,
      hdetached.members, hdetached.owners, hdetached.parts, hdetached.watcher, cached?_detach,
      hfile, if_false]
  · rw [queue_detach, h.toList_remove]
    simp
  · exact ⟨queue, hqueue⟩
  · intro part
    rw [if_neg List.not_mem_nil, hdetached.parts, Snapshot.without_nil, Option.map_id_fun, id]
  · intro part
    rw [if_neg List.not_mem_nil, hdetached.stored]
  · exact hdetached.sources
  · simp [hdetached.watcher, filter_true]
  · rw [hdetached.watcher]
  · exact hdetached.book
  · exact hdetached.overlay

/-!
# Dropping a part
-/

/-- A part goes without files once these are retired. -/
theorem Agrees.retires_dropPart (h : e.Agrees)
    (hnone : forall file, e.storage.store.members.get? file ≠ some part) :
    Retires [] [] [part] e
      { e with parts := e.parts.erase part, storage := (e.storage.removePart part).2 } := by
  rcases h.storage_removePart hnone with ⟨-, hsources, hparts, hsame⟩
  have hlisted : forall file other,
      ((e.parts.erase part).get? other).any (fun snapshot => snapshot.files.contains file) =
        (e.parts.get? other).any fun snapshot => snapshot.files.contains file := by
    intro file other
    rw [Table.get?_erase]
    split
    · rename_i hother
      cases hsnapshot : e.parts.get? other with
      | none => rfl
      | some snapshot =>
          symm
          rw [Option.any_none, Option.any_some, List.contains_eq_mem, decide_eq_false_iff_not,
            h.members other snapshot hsnapshot, ← hother]
          exact hnone file
    · rfl
  have hstored : (e.storage.removePart part).2.store.parts.get? part = none := by
    unfold Storage.removePart
    split
    · exact (Store.get?_parts_removePart _ part part).trans (if_pos rfl)
    · rename_i hunknown
      simpa [Storage.hasPart, Table.contains] using hunknown
  constructor
  · intro file hfile
    cases hfile
  · intro file _ hfile
    cases hfile
  · intro file _ _
    simp only [traces, ownerOf, hlisted, hsame]
  · simp
  · exact ⟨e.scheduler.queue, rfl⟩
  · intro other
    simp only [Table.get?_erase, List.mem_singleton, Snapshot.without_nil, Option.map_id_fun, id,
      eq_comm]
  · intro other
    by_cases hother : other = part
    · rw [if_pos (List.mem_singleton.mpr hother), hother]
      exact hstored
    · rw [if_neg (fun hmem => hother (List.mem_singleton.mp hmem))]
      exact hparts other hother
  · exact hsources
  · simp [filter_true]
  · rfl
  · rfl
  · rfl

end Engine
end SymbolIndex
