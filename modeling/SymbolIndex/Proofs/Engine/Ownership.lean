import SymbolIndex.Proofs.Engine.Looking
import SymbolIndex.Proofs.Store.Sound
import SymbolIndex.Proofs.Task.Queue
import SymbolIndex.Proofs.Watcher

/-!
# Who owns which file

Memory, store and queue agree on the owner of every file: a file is owned by the part
whose snapshot lists it, the store counts it as a member of that part and holds the
arguments of the snapshot, and tasks are queued for owned files only. What the store
says about a part is then all that is known about it, whether the part is in memory
or was stored by an engine before.
-/

namespace SymbolIndex
namespace Engine

structure Agrees (e : Engine) : Prop where
  store : e.storage.store.Sound
  book : e.book.Coherent e.storage.store
  queue : e.scheduler.queue.Sound
  owned : forall file part, e.ownerOf file = some part ↔
    exists snapshot, e.parts.get? part = some snapshot ∧ file ∈ snapshot.files
  members : forall part snapshot, e.parts.get? part = some snapshot ->
    forall file, file ∈ snapshot.files ↔ e.storage.store.members.get? file = some part
  arguments : forall part snapshot, e.parts.get? part = some snapshot ->
    e.storage.store.parts.get? part = some (.written snapshot.arguments)
  pending : forall file task, e.scheduler.queue.get? file = some task ->
    exists part, e.ownerOf file = some part

theorem agrees_start {store : Store} (h : store.Sound) (hnodup : store.sources.Nodup)
    (concurrency : Nat) (log : CallLog) : (start store concurrency log).Agrees where
  store := h
  book := PathBook.coherent_empty hnodup
  queue := TaskQueue.sound_empty
  owned := by
    intro file part
    simp [start, ownerOf]
  members := by
    intro part snapshot hsnapshot
    cases hsnapshot
  arguments := by
    intro part snapshot hsnapshot
    cases hsnapshot
  pending := by
    intro file task htask
    cases htask

namespace Agrees

variable {e e' : Engine}

theorem member_of_owner (h : e.Agrees) {file : FileId} {part : PartId}
    (howner : e.ownerOf file = some part) : e.storage.store.members.get? file = some part := by
  rcases (h.owned file part).mp howner with ⟨snapshot, hsnapshot, hfile⟩
  exact (h.members part snapshot hsnapshot file).mp hfile

theorem of_same (h : e.Agrees) (hstore : e'.storage.store = e.storage.store)
    (hbook : e'.book.Coherent e'.storage.store) (hqueue : e'.scheduler.queue.Sound)
    (howners : e'.owners = e.owners) (hparts : e'.parts = e.parts)
    (hpending : forall file task, e'.scheduler.queue.get? file = some task ->
      exists part, e.ownerOf file = some part) : e'.Agrees where
  store := by rw [hstore]; exact h.store
  book := hbook
  queue := hqueue
  owned := by
    intro file part
    rw [ownerOf, howners, hparts]
    exact h.owned file part
  members := by
    rw [hparts, hstore]
    exact h.members
  arguments := by
    rw [hparts, hstore]
    exact h.arguments
  pending := by
    intro file task htask
    rw [ownerOf, howners]
    exact hpending file task htask

theorem of_alike (h : e.Agrees) (halike : Alike e e') : e'.Agrees := by
  have hstore : e'.storage.store = e.storage.store := congrArg Storage.store halike.storage
  refine h.of_same hstore (halike.book h.book) ?_ halike.owners halike.parts ?_
  · rw [halike.scheduler]
    exact h.queue
  · rw [halike.scheduler]
    exact h.pending

theorem with_scheduler (h : e.Agrees) {s : Scheduler} (hqueue : s.queue.Sound)
    (hpending : forall file task, s.queue.get? file = some task ->
      exists part, e.ownerOf file = some part) : { e with scheduler := s }.Agrees :=
  h.of_same rfl h.book hqueue rfl rfl hpending

theorem with_watcher (h : e.Agrees) (w : Watcher) : { e with watcher := w }.Agrees :=
  h.of_same rfl h.book h.queue rfl rfl h.pending

theorem with_overlay (h : e.Agrees) (o : Overlay) : { e with overlay := o }.Agrees :=
  h.of_same rfl h.book h.queue rfl rfl h.pending

theorem with_log (h : e.Agrees) (l : CallLog) : { e with log := l }.Agrees :=
  h.of_same rfl h.book h.queue rfl rfl h.pending

theorem of_grown (h : e.Agrees) {b : PathBook} {s : Store} (hbook : b.Coherent s)
    (hgrown : PathBook.Grown e.storage.store s) : ({ e with book := b }.withStore s).Agrees where
  store := h.store.of_rest_eq hgrown.rest
  book := hbook
  queue := h.queue
  owned := h.owned
  members := by
    intro part snapshot hsnapshot file
    have hmembers := h.members part snapshot hsnapshot file
    rw [withStore, hgrown.rest]
    exact hmembers
  arguments := by
    intro part snapshot hsnapshot
    have harguments := h.arguments part snapshot hsnapshot
    rw [withStore, hgrown.rest]
    exact harguments
  pending := h.pending

end Agrees

/-!
# What is known about a part
-/

/-- What was known about a part, where the stored arguments can be read. -/
def known (e : Engine) (id : PartId) : Option Snapshot :=
  match e.parts.get? id with
  | some snapshot => some snapshot
  | none =>
      match e.storage.store.parts.get? id with
      | some (.written arguments) => some ⟨arguments, e.storage.store.membersOf id⟩
      | _ => none

namespace Agrees

variable {e : Engine}

theorem previous_eq (h : e.Agrees) (id : PartId) : e.previous id = .ok (e.known id) := by
  unfold previous known
  cases e.parts.get? id with
  | some snapshot => rfl
  | none =>
      unfold Store.fetchPart
      cases hstored : e.storage.store.parts.get? id with
      | none => rfl
      | some stored =>
          rcases h.store.written id stored hstored with ⟨arguments, rfl⟩
          rfl

theorem mem_known_files (h : e.Agrees) (id : PartId) (file : FileId) :
    file ∈ ((e.known id).map Snapshot.files).getD [] ↔
      e.storage.store.members.get? file = some id := by
  unfold known
  cases hsnapshot : e.parts.get? id with
  | some snapshot => exact h.members id snapshot hsnapshot file
  | none =>
      cases hstored : e.storage.store.parts.get? id with
      | none =>
          constructor
          · intro hmem
            cases hmem
          · intro hmember
            have hcontains := h.store.known file id hmember
            rw [Table.contains, hstored] at hcontains
            cases hcontains
      | some stored =>
          rcases h.store.written id stored hstored with ⟨arguments, rfl⟩
          exact Store.mem_membersOf e.storage.store id file

theorem known_arguments_iff (h : e.Agrees) (id : PartId) (arguments : List String) :
    (e.known id).map Snapshot.arguments = some arguments ↔
      e.storage.store.parts.get? id = some (.written arguments) := by
  unfold known
  cases hsnapshot : e.parts.get? id with
  | some snapshot =>
      rw [h.arguments id snapshot hsnapshot]
      simp
  | none =>
      cases hstored : e.storage.store.parts.get? id with
      | none => simp
      | some stored =>
          rcases h.store.written id stored hstored with ⟨written, rfl⟩
          simp

theorem isFreeFor_of_member (h : e.Agrees) {file : FileId} {part : PartId}
    (hmember : e.storage.store.members.get? file = some part) : e.isFreeFor part file = true := by
  unfold isFreeFor
  cases howner : e.ownerOf file with
  | none => rfl
  | some owner =>
      have hsame := h.member_of_owner howner
      rw [hmember] at hsame
      simpa using hsame.symm

end Agrees

end Engine
end SymbolIndex
