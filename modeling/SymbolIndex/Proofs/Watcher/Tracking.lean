import SymbolIndex.Proofs.Watcher.Tidy

/-!
# Files that the watcher tracks

A file that was added is watched, or it is remembered as one that could not be watched,
until it is removed or a batch of raw events reports it as gone.
-/

namespace SymbolIndex
namespace Watcher

variable {w w' : Watcher} {id other : FileId} {p : Path} {ids : List FileId}

/-- The watcher watches a file, or it remembers that it could not. -/
def Tracks (w : Watcher) (id : FileId) : Prop :=
  w.isWatched id = true ∨ w.isUnwatchable id = true

theorem tracks_congr (hwatched : w'.byId.get? id = w.byId.get? id)
    (hunwatchable : w'.isUnwatchable id = w.isUnwatchable id) : w'.Tracks id ↔ w.Tracks id := by
  rw [Tracks, Tracks, isWatched, isWatched, Table.contains, Table.contains, hwatched, hunwatchable]

theorem not_tracks_empty (id : FileId) : ¬ empty.Tracks id := by
  rintro (hwatched | hunwatchable)
  · cases hwatched
  · cases hunwatchable

theorem Lists.tracks (h : w.Lists id p) : w.Tracks id := by
  have hknown : forall t : Table FileId Path, knows t id p = true -> t.contains id = true := by
    intro t ht
    rw [knows] at ht
    split at ht
    · rename_i q hq
      rw [Table.contains, hq]
      rfl
    · cases ht
  exact h.imp (hknown _) (hknown _)

theorem tracks_remove (w : Watcher) (ids : List FileId) :
    (w.remove ids).Tracks id ↔ id ∉ ids ∧ w.Tracks id := by
  by_cases hid : id ∈ ids
  · simp [Tracks, isWatched, Table.contains, get?_byId_remove, isUnwatchable_remove_of_mem w hid,
      hid]
  · rw [tracks_congr (by rw [get?_byId_remove, if_neg hid]) (isUnwatchable_remove w ids hid)]
    simp [hid]

/-!
# Adding
-/

theorem tracks_addOne (b : Backend) (w : Watcher) (other : FileId) (p : Path) :
    (addOne b w other p).2.Tracks id ↔ w.Tracks id ∨ other = id := by
  by_cases hother : other = id
  · subst hother
    exact iff_of_true (lists_addOne b w other p).tracks (Or.inr rfl)
  · rw [tracks_congr (get?_byId_addOne_of_ne b w p hother) (isUnwatchable_addOne b w p hother)]
    simp [hother]

theorem tracks_add (b : Backend) (w : Watcher) (files : List (FileId × Path)) :
    (add b w files).Tracks id ↔ w.Tracks id ∨ id ∈ files.map Prod.fst := by
  have heach : (addEach b w files).2.Tracks id ↔ w.Tracks id ∨ id ∈ files.map Prod.fst := by
    induction files generalizing w with
    | nil => simp [addEach]
    | cons file rest ih =>
        rw [List.map_cons, List.mem_cons, ← or_assoc, eq_comm (a := id), ← tracks_addOne b w]
        exact ih _
  unfold add
  dsimp only
  split
  · exact heach
  · exact heach

theorem Announces.of_add (h : w.Announces id) (b : Backend) (files : List (FileId × Path)) :
    (Watcher.add b w files).Announces id := by
  have heach := outbox_addEach b w files
  unfold Watcher.add
  dsimp only
  split
  · exact (announces_of_outbox_eq heach id).mpr h
  · have hsent : ((Watcher.addEach b w files).2.send
        (.removed (Watcher.addEach b w files).1)).outbox =
          w.outbox ++ [.removed (Watcher.addEach b w files).1] := by rw [send, heach]
    exact (announces_append hsent id).mpr (Or.inl h)

theorem announces_cons {change : PathChange} {rest : List PathChange}
    (h : w.outbox = change :: rest) (id : FileId) :
    w.Announces id ↔ (exists files, .removed files = change ∧ id ∈ files) ∨
      ({ w with outbox := rest } : Watcher).Announces id := by
  simp only [Announces, h, List.mem_cons, or_and_right, exists_or]

/-!
# Batches of raw events
-/

section Flush

variable {d : Disk} {events : List Path}

theorem isUnwatchable_flush (w : Watcher) (d : Disk) (events : List Path) (id : FileId) :
    (w.flush d events).isUnwatchable id = w.isUnwatchable id := by
  rcases flush_eq w d events with ⟨news, heq, -⟩
  rw [heq, isUnwatchable]
  dsimp only
  rw [unwatchable_foldl_drop]
  rfl

theorem get?_byId_flush (w : Watcher) (d : Disk) (events : List Path) (id : FileId) :
    (w.flush d events).byId.get? id =
      if id ∈ w.missing d events then none else w.byId.get? id := by
  rcases flush_eq w d events with ⟨news, heq, -⟩
  rw [heq]
  exact get?_byId_foldl_drop w _ id

theorem Tracks.of_flush (h : (w.flush d events).Tracks id) : w.Tracks id := by
  rw [Tracks, isUnwatchable_flush, isWatched, Table.contains, get?_byId_flush] at h
  refine h.imp_left ?_
  intro hwatched
  split at hwatched
  · cases hwatched
  · exact hwatched

theorem announces_flush (w : Watcher) (d : Disk) (events : List Path) (id : FileId) :
    (w.flush d events).Announces id ↔ w.Announces id ∨ id ∈ w.missing d events := by
  rcases flush_eq w d events with ⟨news, heq, hnews⟩
  have houtbox : (w.flush d events).outbox = w.outbox ++ news := by rw [heq]
  constructor
  · rw [announces_append houtbox]
    refine Or.imp_right ?_
    rintro ⟨files, hfiles, hmem⟩
    rw [hnews files hfiles] at hmem
    exact hmem
  · rintro (hold | hid)
    · exact (announces_append houtbox id).mpr (Or.inl hold)
    · have hsome : (w.missing d events).isEmpty = false := by
        rw [List.isEmpty_eq_false_iff]
        exact List.ne_nil_of_mem hid
      unfold flush
      dsimp only
      rw [← missing, if_neg (by rw [hsome]; exact Bool.false_ne_true)]
      exact ⟨w.missing d events, List.mem_append_right _ List.mem_cons_self, hid⟩

theorem Tracks.flush (h : w.Tracks id) (d : Disk) (events : List Path) :
    (Watcher.flush w d events).Tracks id ∨ (Watcher.flush w d events).Announces id := by
  by_cases hid : id ∈ w.missing d events
  · exact Or.inr ((announces_flush w d events id).mpr (Or.inr hid))
  · left
    rw [tracks_congr (by rw [get?_byId_flush, if_neg hid]) (isUnwatchable_flush w d events id)]
    exact h

end Flush

end Watcher
end SymbolIndex
