import SymbolIndex.Proofs.Engine.Ownership

/-!
# Letting files go

A file that is retired has no owner, no membership, no records and no task afterwards,
and everything about the other files stays as it was. A file that is detached keeps its
owner and its membership.
-/

namespace SymbolIndex

namespace Snapshot

/-- The snapshot of a part that some files have left. -/
def without (files : List FileId) (s : Snapshot) : Snapshot :=
  { s with files := s.files.filter fun file => decide (file ∉ files) }

theorem mem_without {files : List FileId} {s : Snapshot} {file : FileId} :
    file ∈ (s.without files).files ↔ file ∈ s.files ∧ file ∉ files := by
  simp [without]

theorem without_eq_self {files : List FileId} {s : Snapshot}
    (h : forall file, file ∈ s.files -> file ∉ files) : s.without files = s := by
  rcases s with ⟨arguments, known⟩
  simp only [without, mk.injEq, true_and]
  apply List.filter_eq_self.mpr
  intro file hfile
  exact decide_eq_true (h file hfile)

theorem without_nil : without [] = id := by
  funext s
  exact without_eq_self (by simp)

theorem without_without (files more : List FileId) (s : Snapshot) :
    (s.without files).without more = s.without (files ++ more) := by
  simp only [without, List.filter_filter, mk.injEq, true_and]
  apply List.filter_congr
  intro file _hfile
  by_cases hfile : file ∈ files <;> by_cases hmore : file ∈ more <;> simp [hfile, hmore]

end Snapshot

namespace Engine

/-- What changes when files are let go: everything about them, and nothing about the others. -/
structure LetGo (files : List FileId) (e e' : Engine) : Prop where
  owners : forall file, e'.ownerOf file = if file ∈ files then none else e.ownerOf file
  parts : forall part, e'.parts.get? part = (e.parts.get? part).map (Snapshot.without files)
  members : forall file, e'.storage.store.members.get? file =
    if file ∈ files then none else e.storage.store.members.get? file
  stored : e'.storage.store.parts = e.storage.store.parts
  sources : e'.storage.store.sources = e.storage.store.sources
  statuses : forall file, e'.storage.store.statuses.get? file =
    if file ∈ files then none else e.storage.store.statuses.get? file
  records : forall file, file ∉ files ->
    e'.storage.store.recordsAt file = e.storage.store.recordsAt file
  book : e'.book = e.book
  overlay : e'.overlay = e.overlay

namespace LetGo

variable {files more : List FileId} {e e' e'' : Engine}

theorem refl (e : Engine) : LetGo [] e e where
  owners := by simp
  parts := by
    intro part
    rw [Snapshot.without_nil, Option.map_id_fun, id]
  members := by simp
  stored := rfl
  sources := rfl
  statuses := by simp
  records := fun _ _ => rfl
  book := rfl
  overlay := rfl

theorem trans (h : LetGo files e e') (h' : LetGo more e' e'') : LetGo (files ++ more) e e'' where
  owners := by
    intro file
    rw [h'.owners, h.owners]
    by_cases hfile : file ∈ files <;> by_cases hmore : file ∈ more <;> simp [hfile, hmore]
  parts := by
    intro part
    rw [h'.parts, h.parts, Option.map_map]
    congr 1
    funext snapshot
    exact Snapshot.without_without files more snapshot
  members := by
    intro file
    rw [h'.members, h.members]
    by_cases hfile : file ∈ files <;> by_cases hmore : file ∈ more <;> simp [hfile, hmore]
  stored := h'.stored.trans h.stored
  sources := h'.sources.trans h.sources
  statuses := by
    intro file
    rw [h'.statuses, h.statuses]
    by_cases hfile : file ∈ files <;> by_cases hmore : file ∈ more <;> simp [hfile, hmore]
  records := by
    intro file hfile
    rw [List.mem_append, not_or] at hfile
    exact (h'.records file hfile.2).trans (h.records file hfile.1)
  book := h'.book.trans h.book
  overlay := h'.overlay.trans h.overlay

theorem path? (h : LetGo files e e') (id : FileId) : e'.path? id = e.path? id := by
  rw [Engine.path?, Engine.path?, h.book, PathBook.path?_of_sources_eq h.sources]

end LetGo

/-- Where files were let go, memory, store and queue still agree. -/
theorem Agrees.of_letGo {files : List FileId} {e e' : Engine} (h : e.Agrees)
    (hgo : LetGo files e e') (hstore : e'.storage.store.Sound)
    (hqueue : e'.scheduler.queue.Sound)
    (hpending : forall file task, e'.scheduler.queue.get? file = some task ->
      file ∉ files ∧ exists part, e.ownerOf file = some part) : e'.Agrees where
  store := hstore
  book := by
    rw [hgo.book]
    exact h.book.of_sources_eq hgo.sources
  queue := hqueue
  owned := by
    intro file part
    rw [hgo.owners, hgo.parts]
    by_cases hfile : file ∈ files
    · rw [if_pos hfile]
      constructor
      · intro hnone
        cases hnone
      · rintro ⟨snapshot, hsnapshot, hmem⟩
        rcases Option.map_eq_some_iff.mp hsnapshot with ⟨old, -, rfl⟩
        exact absurd hfile (Snapshot.mem_without.mp hmem).2
    · rw [if_neg hfile, h.owned]
      constructor
      · rintro ⟨snapshot, hsnapshot, hmem⟩
        refine ⟨snapshot.without files, ?_, Snapshot.mem_without.mpr ⟨hmem, hfile⟩⟩
        rw [hsnapshot, Option.map_some]
      · rintro ⟨snapshot, hsnapshot, hmem⟩
        rcases Option.map_eq_some_iff.mp hsnapshot with ⟨old, hold, rfl⟩
        exact ⟨old, hold, (Snapshot.mem_without.mp hmem).1⟩
  members := by
    intro part snapshot hsnapshot file
    rw [hgo.parts] at hsnapshot
    rcases Option.map_eq_some_iff.mp hsnapshot with ⟨old, hold, rfl⟩
    rw [Snapshot.mem_without, h.members part old hold, hgo.members]
    by_cases hfile : file ∈ files <;> simp [hfile]
  arguments := by
    intro part snapshot hsnapshot
    rw [hgo.parts] at hsnapshot
    rcases Option.map_eq_some_iff.mp hsnapshot with ⟨old, hold, rfl⟩
    rw [hgo.stored]
    exact h.arguments part old hold
  pending := by
    intro file task htask
    rcases hpending file task htask with ⟨hfile, part, howner⟩
    exact ⟨part, by rw [hgo.owners, if_neg hfile, howner]⟩

/-!
# Retiring
-/

section Retire

variable {e : Engine}

theorem store_retireOne (e : Engine) (file : FileId) :
    (e.retireOne file).storage.store = e.storage.store.removeFile file := by
  unfold retireOne
  dsimp only
  split <;> rfl

theorem scheduler_retireOne (e : Engine) (file : FileId) :
    (e.retireOne file).scheduler = e.scheduler := by
  unfold retireOne
  dsimp only
  split <;> rfl

theorem watcher_retireOne (e : Engine) (file : FileId) :
    (e.retireOne file).watcher = e.watcher := by
  unfold retireOne
  dsimp only
  split <;> rfl

theorem book_retireOne (e : Engine) (file : FileId) : (e.retireOne file).book = e.book := by
  unfold retireOne
  dsimp only
  split <;> rfl

theorem overlay_retireOne (e : Engine) (file : FileId) :
    (e.retireOne file).overlay = e.overlay := by
  unfold retireOne
  dsimp only
  split <;> rfl

theorem ownerOf_retireOne (e : Engine) (file other : FileId) :
    (e.retireOne file).ownerOf other = if file = other then none else e.ownerOf other := by
  unfold retireOne
  dsimp only
  split
  · rename_i hnone
    have howner : e.ownerOf file = none := hnone
    by_cases hother : file = other
    · rw [if_pos hother, ← hother]
      exact howner
    · rw [if_neg hother]
      rfl
  · exact Table.get?_erase _ _ _

theorem Agrees.parts_retireOne (h : e.Agrees) (file : FileId) (part : PartId) :
    (e.retireOne file).parts.get? part = (e.parts.get? part).map (Snapshot.without [file]) := by
  -- a part that does not own the file does not list it
  have hother : e.ownerOf file ≠ some part ->
      (e.parts.get? part).map (Snapshot.without [file]) = e.parts.get? part := by
    intro hne
    cases hsnapshot : e.parts.get? part with
    | none => rfl
    | some snapshot =>
        rw [Option.map_some, Snapshot.without_eq_self]
        intro listed hlisted hmem
        rw [List.mem_singleton.mp hmem] at hlisted
        exact hne ((h.owned file part).mpr ⟨snapshot, hsnapshot, hlisted⟩)
  unfold retireOne
  dsimp only
  split
  · rename_i hnone
    have howner : e.ownerOf file = none := hnone
    rw [hother (by rw [howner]; exact Option.some_ne_none part ∘ Eq.symm)]
  · rename_i owner howner
    have hsome : e.ownerOf file = some owner := howner
    simp only [leaveSnapshot, Table.get?_adjust]
    by_cases hpart : owner = part
    · rw [if_pos hpart]
      congr 1
      funext snapshot
      simp [Snapshot.without]
    · rw [if_neg hpart, hother]
      rw [hsome]
      exact fun heq => hpart (Option.some.inj heq)

theorem Agrees.letGo_retireOne (h : e.Agrees) (file : FileId) :
    LetGo [file] e (e.retireOne file) where
  owners := by
    intro other
    rw [ownerOf_retireOne]
    simp only [List.mem_singleton, eq_comm]
  parts := h.parts_retireOne file
  members := by
    intro other
    rw [store_retireOne, Store.get?_members_removeFile]
    simp only [List.mem_singleton, eq_comm]
  stored := by rw [store_retireOne]; rfl
  sources := by rw [store_retireOne]; rfl
  statuses := by
    intro other
    rw [store_retireOne]
    refine (Store.get?_statuses_clearFile _ file other).trans ?_
    simp only [List.mem_singleton, eq_comm]
  records := by
    intro other hother
    rw [store_retireOne]
    exact h.store.linked.recordsAt_clearFile (by simpa using hother)
  book := book_retireOne e file
  overlay := overlay_retireOne e file

theorem Agrees.retireOne (h : e.Agrees) {file : FileId}
    (hidle : e.scheduler.queue.get? file = none) : (e.retireOne file).Agrees := by
  apply h.of_letGo (h.letGo_retireOne file)
  · rw [store_retireOne]
    exact h.store.removeFile file
  · rw [scheduler_retireOne]
    exact h.queue
  · intro other task htask
    rw [scheduler_retireOne] at htask
    refine ⟨?_, h.pending other task htask⟩
    intro hmem
    rw [List.mem_singleton.mp hmem, hidle] at htask
    cases htask

theorem Agrees.foldl_retireOne (h : e.Agrees) (files : List FileId)
    (hidle : forall file, file ∈ files -> e.scheduler.queue.get? file = none) :
    LetGo files e (files.foldl Engine.retireOne e) ∧
      (files.foldl Engine.retireOne e).Agrees := by
  induction files generalizing e with
  | nil => exact ⟨LetGo.refl e, h⟩
  | cons file rest ih =>
      have hfirst := h.retireOne (hidle file List.mem_cons_self)
      have hrest := ih hfirst (by
        intro other hother
        rw [scheduler_retireOne]
        exact hidle other (List.mem_cons_of_mem _ hother))
      exact ⟨(h.letGo_retireOne file).trans hrest.1, hrest.2⟩

theorem scheduler_foldl_retireOne (e : Engine) (files : List FileId) :
    (files.foldl Engine.retireOne e).scheduler = e.scheduler := by
  induction files generalizing e with
  | nil => rfl
  | cons file rest ih => exact (ih _).trans (scheduler_retireOne e file)

theorem watcher_foldl_retireOne (e : Engine) (files : List FileId) :
    (files.foldl Engine.retireOne e).watcher = e.watcher := by
  induction files generalizing e with
  | nil => rfl
  | cons file rest ih => exact (ih _).trans (watcher_retireOne e file)

theorem scheduler_retire (e : Engine) (files : List FileId) :
    exists queue, (e.retire files).scheduler = { e.scheduler with queue } ∧
      forall file, queue.get? file =
        if file ∈ files then none else e.scheduler.queue.get? file := by
  unfold retire
  cases hempty : files.isEmpty with
  | true =>
      rw [if_pos rfl, List.isEmpty_iff.mp hempty]
      exact ⟨e.scheduler.queue, rfl, by simp⟩
  | false =>
      refine ⟨e.scheduler.queue.remove files, ?_, ?_⟩
      · exact scheduler_foldl_retireOne _ files
      · intro file
        rw [TaskQueue.get?_remove]
        simp

theorem watcher_retire (e : Engine) (files : List FileId) :
    (e.retire files).watcher = e.watcher.remove files := by
  unfold retire
  cases hempty : files.isEmpty with
  | true =>
      rw [if_pos rfl, List.isEmpty_iff.mp hempty]
      rfl
  | false =>
      rw [if_neg Bool.false_ne_true]
      dsimp only
      rw [watcher_foldl_retireOne]

theorem isUnwatchable_retire (e : Engine) (files : List FileId) {file : FileId}
    (h : file ∉ files) :
    (e.retire files).watcher.isUnwatchable file = e.watcher.isUnwatchable file := by
  rw [watcher_retire]
  exact Watcher.isUnwatchable_remove _ files h

theorem Agrees.retire (h : e.Agrees) (files : List FileId) :
    LetGo files e (e.retire files) ∧ (e.retire files).Agrees := by
  unfold Engine.retire
  cases hempty : files.isEmpty with
  | true =>
      rw [if_pos rfl, List.isEmpty_iff.mp hempty]
      exact ⟨LetGo.refl e, h⟩
  | false =>
      have hdropped : { e with scheduler := e.scheduler.dropTasks files }.Agrees := by
        apply h.with_scheduler (h.queue.remove files)
        intro file task htask
        simp only [Scheduler.dropTasks, TaskQueue.get?_remove] at htask
        split at htask
        · cases htask
        · exact h.pending file task htask
      have hidle : forall file, file ∈ files ->
          (e.scheduler.dropTasks files).queue.get? file = none := by
        intro file hfile
        simp only [Scheduler.dropTasks, TaskQueue.get?_remove]
        rw [if_pos (by simpa using hfile)]
      rcases hdropped.foldl_retireOne files hidle with ⟨hgo, hagrees⟩
      rw [if_neg Bool.false_ne_true]
      refine ⟨?_, hagrees.of_same rfl hagrees.book hagrees.queue rfl rfl hagrees.pending⟩
      exact
        { owners := hgo.owners
          parts := hgo.parts
          members := hgo.members
          stored := hgo.stored
          sources := hgo.sources
          statuses := hgo.statuses
          records := hgo.records
          book := hgo.book
          overlay := hgo.overlay }

end Retire

/-!
# Detaching
-/

/-- Drop the records of one file. -/
def clearOne (e : Engine) (file : FileId) : Engine := { e with storage := e.storage.clearFile file }

theorem Agrees.clearOne {e : Engine} (h : e.Agrees) (file : FileId) : (e.clearOne file).Agrees where
  store := h.store.clearFile file
  book := h.book.of_sources_eq rfl
  queue := h.queue
  owned := h.owned
  members := h.members
  arguments := h.arguments
  pending := h.pending

/-- What detaching does to the store: the files lose their statuses, the others keep their records. -/
structure Detached (files : List FileId) (e e' : Engine) : Prop where
  owners : e'.owners = e.owners
  parts : e'.parts = e.parts
  members : e'.storage.store.members = e.storage.store.members
  stored : e'.storage.store.parts = e.storage.store.parts
  sources : e'.storage.store.sources = e.storage.store.sources
  statuses : forall file, e'.storage.store.statuses.get? file =
    if file ∈ files then none else e.storage.store.statuses.get? file
  records : forall file, file ∉ files ->
    e'.storage.store.recordsAt file = e.storage.store.recordsAt file
  book : e'.book = e.book
  overlay : e'.overlay = e.overlay
  watcher : e'.watcher = e.watcher

theorem Agrees.foldl_clearOne {e : Engine} (h : e.Agrees) (files : List FileId) :
    Detached files e (files.foldl Engine.clearOne e) ∧ (files.foldl Engine.clearOne e).Agrees ∧
      (files.foldl Engine.clearOne e).scheduler = e.scheduler := by
  induction files generalizing e with
  | nil => exact ⟨⟨rfl, rfl, rfl, rfl, rfl, by simp, fun _ _ => rfl, rfl, rfl, rfl⟩, h, rfl⟩
  | cons file rest ih =>
      rcases ih (h.clearOne file) with ⟨hrest, hagrees, hscheduler⟩
      refine ⟨?_, hagrees, hscheduler⟩
      refine
        { owners := hrest.owners
          parts := hrest.parts
          members := hrest.members
          stored := hrest.stored
          sources := hrest.sources
          statuses := ?_
          records := ?_
          book := hrest.book
          overlay := hrest.overlay
          watcher := hrest.watcher }
      · intro other
        have hclear := Store.get?_statuses_clearFile e.storage.store file other
        have hone : (e.clearOne file).storage.store.statuses.get? other =
            if file = other then none else e.storage.store.statuses.get? other := hclear
        rw [List.foldl_cons, hrest.statuses, hone]
        by_cases hother : file = other
        · simp [hother]
        · by_cases hmem : other ∈ rest <;> simp [hother, hmem, Ne.symm hother]
      · intro other hother
        rw [List.mem_cons, not_or] at hother
        rw [List.foldl_cons, hrest.records other hother.2]
        exact h.store.linked.recordsAt_clearFile hother.1

theorem Agrees.detach {e : Engine} (h : e.Agrees) (files : List FileId) :
    Detached files e (e.detach files) ∧ (e.detach files).Agrees := by
  unfold Engine.detach
  cases hempty : files.isEmpty with
  | true =>
      rw [if_pos rfl, List.isEmpty_iff.mp hempty]
      exact ⟨⟨rfl, rfl, rfl, rfl, rfl, by simp, fun _ _ => rfl, rfl, rfl, rfl⟩, h⟩
  | false =>
      have hdropped : { e with scheduler := e.scheduler.dropTasks files }.Agrees := by
        apply h.with_scheduler (h.queue.remove files)
        intro file task htask
        simp only [Scheduler.dropTasks, TaskQueue.get?_remove] at htask
        split at htask
        · cases htask
        · exact h.pending file task htask
      rcases hdropped.foldl_clearOne files with ⟨hdetached, hagrees, -⟩
      rw [if_neg Bool.false_ne_true]
      refine ⟨?_, hagrees.of_same rfl hagrees.book hagrees.queue rfl rfl hagrees.pending⟩
      exact
        { owners := hdetached.owners
          parts := hdetached.parts
          members := hdetached.members
          stored := hdetached.stored
          sources := hdetached.sources
          statuses := hdetached.statuses
          records := hdetached.records
          book := hdetached.book
          overlay := hdetached.overlay
          watcher := hdetached.watcher }

theorem scheduler_detach (e : Engine) (files : List FileId) :
    exists queue, (e.detach files).scheduler = { e.scheduler with queue } ∧
      forall file, queue.get? file =
        if file ∈ files then none else e.scheduler.queue.get? file := by
  have hfold : forall (e : Engine) (files : List FileId),
      (files.foldl clearOne e).scheduler = e.scheduler := by
    intro e files
    induction files generalizing e with
    | nil => rfl
    | cons file rest ih => exact ih _
  unfold detach
  cases hempty : files.isEmpty with
  | true =>
      rw [if_pos rfl, List.isEmpty_iff.mp hempty]
      exact ⟨e.scheduler.queue, rfl, by simp⟩
  | false =>
      refine ⟨e.scheduler.queue.remove files, hfold _ files, ?_⟩
      intro file
      rw [TaskQueue.get?_remove]
      simp

end Engine
end SymbolIndex
