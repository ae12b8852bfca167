import SymbolIndex.Engine.History
import SymbolIndex.Proofs.Engine.Preparation
import SymbolIndex.Proofs.Engine.Submission
import SymbolIndex.Proofs.Scheduler.Rounds

/-!
# Every world agrees

Whatever happens to a world that began with an empty store, memory, store and queue
agree on the owner of every file: submissions and removals, changes and generated
contents, the steps of the workers in any order, and a new engine on the same store.
-/

namespace SymbolIndex
namespace Engine

variable {e : Engine} {env : Environment}

/-!
# Calls
-/

theorem Agrees.dispatch (h : e.Agrees) : (dispatch env e).Agrees := by
  rcases Scheduler.exists_dispatched h.queue env.fails with ⟨handed, hlaunched⟩
  apply h.with_scheduler hlaunched.queue
  intro file task htask
  exact h.pending file task (hlaunched.queued htask)

theorem Accepted.sourced {parts : List Part} {accepted : List PreparedPart}
    (h : Accepted e parts accepted) : Sourced e accepted := by
  intro part hpart file hfile
  rcases h.prepares part hpart with ⟨origin, -, hprepares⟩
  exact hprepares.hasSource hfile

theorem Agrees.updateParts (h : e.Agrees) (parts : List Part) :
    (updateParts env e parts).2.Agrees := by
  rcases h.prepare ∅ parts with ⟨hprepared, -, haccepted, -⟩
  have happlied := hprepared.applyParts env haccepted.sourced
  unfold Engine.updateParts
  dsimp only
  split
  · exact happlied.dispatch
  · exact happlied

/-- A submission leaves the generated contents and the paths that have ids as they are. -/
theorem Agrees.frame_updateParts (h : e.Agrees) (parts : List Part) :
    (Engine.updateParts env e parts).2.overlay = e.overlay ∧
      (Engine.updateParts env e parts).2.storage.store.sources =
        (Engine.prepare ∅ e parts).2.storage.store.sources := by
  rcases h.prepare ∅ parts with ⟨hprepared, hinterned, haccepted, -⟩
  have happlied : (Engine.applyParts env (Engine.prepare ∅ e parts).2
        (Engine.prepare ∅ e parts).1.1).2.overlay = e.overlay ∧
      (Engine.applyParts env (Engine.prepare ∅ e parts).2
        (Engine.prepare ∅ e parts).1.1).2.storage.store.sources =
          (Engine.prepare ∅ e parts).2.storage.store.sources := by
    apply hprepared.applyParts_induction (P := fun e' _ => e'.overlay = e.overlay ∧
      e'.storage.store.sources = (Engine.prepare ∅ e parts).2.storage.store.sources)
      haccepted.sourced
    · exact ⟨hinterned.overlay, rfl⟩
    · intro before part rest _hagrees hpart hbefore
      exact ⟨hpart.overlay.trans hbefore.1, hpart.sources.trans hbefore.2⟩
  unfold Engine.updateParts
  dsimp only
  split
  · exact happlied
  · exact happlied

theorem Agrees.filesOf_eq (h : e.Agrees) (id : PartId) :
    e.filesOf id = .ok (((e.known id).map Snapshot.files).getD []) := by
  have hprevious := h.previous_eq id
  unfold previous at hprevious
  unfold filesOf
  cases hsnapshot : e.parts.get? id with
  | some snapshot =>
      rw [hsnapshot] at hprevious
      rw [← Except.ok.inj hprevious]
      rfl
  | none =>
      rw [hsnapshot] at hprevious
      cases hfetch : e.storage.store.fetchPart id with
      | error failure =>
          rw [hfetch] at hprevious
          cases hprevious
      | ok stored =>
          rw [hfetch] at hprevious
          rw [← Except.ok.inj hprevious]
          cases stored <;> rfl

section RemovePart

variable {id : PartId} {files : List FileId}

theorem Agrees.filter_isFreeFor (h : e.Agrees)
    (hfiles : forall file, file ∈ files ↔ e.storage.store.members.get? file = some id) :
    files.filter (e.isFreeFor id) = files := by
  apply List.filter_eq_self.mpr
  intro file hfile
  exact h.isFreeFor_of_member ((hfiles file).mp hfile)

theorem Agrees.removePart_eq (h : e.Agrees)
    (hfiles : forall file, file ∈ files ↔ e.storage.store.members.get? file = some id) :
    (e.removePart id files).2 =
      { e.retire files with
        parts := (e.retire files).parts.erase id
        storage := ((e.retire files).storage.removePart id).2 } := by
  unfold Engine.removePart
  dsimp only
  rw [h.filter_isFreeFor hfiles]

theorem Agrees.members_retire_ne (h : e.Agrees)
    (hfiles : forall file, file ∈ files ↔ e.storage.store.members.get? file = some id)
    (file : FileId) : (e.retire files).storage.store.members.get? file ≠ some id := by
  intro hmember
  rw [(h.retire files).1.members] at hmember
  split at hmember
  · cases hmember
  · rename_i hfile
    exact hfile ((hfiles file).mpr hmember)

theorem Agrees.storage_removePart (h : e.Agrees)
    (hnone : forall file, e.storage.store.members.get? file ≠ some id) :
    (e.storage.removePart id).2.store.Sound ∧
      (e.storage.removePart id).2.store.sources = e.storage.store.sources ∧
      (forall other, other ≠ id ->
        (e.storage.removePart id).2.store.parts.get? other = e.storage.store.parts.get? other) ∧
      forall file,
        (e.storage.removePart id).2.store.members.get? file = e.storage.store.members.get? file ∧
        (e.storage.removePart id).2.store.statuses.get? file =
          e.storage.store.statuses.get? file ∧
        (e.storage.removePart id).2.store.recordsAt file = e.storage.store.recordsAt file := by
  unfold Storage.removePart
  split
  · refine ⟨h.store.removePart id, rfl, ?_, h.store.at_removePart hnone⟩
    intro other hother
    exact (Store.get?_parts_removePart _ id other).trans (if_neg (Ne.symm hother))
  · exact ⟨h.store, rfl, fun _ _ => rfl, fun _ => ⟨rfl, rfl, rfl⟩⟩

/-- Removing a part retires its members and drops it from memory and store. -/
theorem Agrees.removePart (h : e.Agrees)
    (hfiles : forall file, file ∈ files ↔ e.storage.store.members.get? file = some id) :
    (e.removePart id files).2.Agrees := by
  have hagrees := (h.retire files).2
  have hnone := h.members_retire_ne hfiles
  rcases hagrees.storage_removePart hnone with ⟨hsound, hsources, hparts, hsame⟩
  rw [h.removePart_eq hfiles]
  exact
    { store := hsound
      book := hagrees.book.of_sources_eq hsources
      queue := hagrees.queue
      owned := by
        intro file part
        apply (hagrees.owned file part).trans
        simp only [Table.get?_erase]
        by_cases hpart : id = part
        · rw [if_pos hpart]
          constructor
          · intro hsnapshot
            have hmember := hagrees.member_of_owner ((hagrees.owned file part).mpr hsnapshot)
            rw [← hpart] at hmember
            exact absurd hmember (hnone file)
          · rintro ⟨snapshot, hsnapshot, -⟩
            cases hsnapshot
        · rw [if_neg hpart]
      members := by
        intro part snapshot hsnapshot file
        rw [Table.get?_erase] at hsnapshot
        split at hsnapshot
        · cases hsnapshot
        · rw [(hsame file).1]
          exact hagrees.members part snapshot hsnapshot file
      arguments := by
        intro part snapshot hsnapshot
        rw [Table.get?_erase] at hsnapshot
        split at hsnapshot
        · cases hsnapshot
        · rename_i hpart
          rw [hparts part (Ne.symm hpart)]
          exact hagrees.arguments part snapshot hsnapshot
      pending := hagrees.pending }

end RemovePart

theorem Agrees.removeParts (h : e.Agrees) (ids : List PartId) : (e.removeParts ids).2.Agrees := by
  induction ids generalizing e with
  | nil => exact h
  | cons id rest ih =>
      rw [Engine.removeParts, h.filesOf_eq]
      exact ih (h.removePart (h.mem_known_files id))

theorem Agrees.reindex (h : e.Agrees) (files : List FileId) : (e.reindex files).2.Agrees := by
  apply h.with_scheduler (h.queue.addOrUpdate _)
  intro file task htask
  rcases TaskQueue.get?_addOrUpdate_eq_some htask with ⟨hmem, hfile⟩ | ⟨-, hold⟩
  · rcases List.mem_filterMap.mp hmem with ⟨other, -, hother⟩
    rcases (taskFor?_eq_some_iff e other task).mp hother with ⟨id, snapshot, hid, -, rfl⟩
    exact ⟨id, by rw [← hfile]; exact hid⟩
  · exact h.pending file task hold

theorem Agrees.handleChanged (h : e.Agrees) (files : List FileId) :
    (handleChanged env e files).2.Agrees := by
  have hlooked := h.of_alike (alike_foldl (alike_look env) e files)
  have hseen := (candidates_spec env false (files.foldl (look env) e)
    (files.filter (files.foldl (look env) e).isOwned)).2
  have henqueued := (hlooked.of_alike hseen).reindex
    (candidates env false (files.foldl (look env) e)
      (files.filter (files.foldl (look env) e).isOwned)).1
  unfold Engine.handleChanged
  dsimp only
  split
  · exact henqueued.dispatch
  · exact henqueued

theorem Agrees.handleRemoved (h : e.Agrees) (files : List FileId) :
    (e.handleRemoved files).2.Agrees :=
  ((h.detach _).2.retire _).2

theorem Agrees.handleChange (h : e.Agrees) (change : PathChange) :
    (handleChange env e change).2.Agrees := by
  cases change with
  | changed files => exact h.handleChanged files
  | removed files => exact h.handleRemoved files

theorem Agrees.setContents (h : e.Agrees) (files : List (Path × String)) :
    (e.setContents files).2.Agrees := by
  induction files generalizing e with
  | nil => exact h
  | cons file rest ih =>
      rcases file with ⟨p, content⟩
      exact ih ((h.intern p).1.with_overlay _)

theorem Agrees.updateGenerated (h : e.Agrees) (files : List (Path × String)) :
    (updateGenerated env e files).2.Agrees := by
  have hset := h.setContents files
  unfold Engine.updateGenerated
  dsimp only
  split
  · exact hset
  · exact (hset.with_watcher _).handleChange _

theorem Agrees.dropContents (h : e.Agrees) (d : Disk) (paths : List Path) :
    (dropContents d e paths).2.Agrees := by
  induction paths generalizing e with
  | nil => exact h
  | cons p rest ih =>
      rw [Engine.dropContents]
      split
      · exact ih ((h.with_overlay (e.overlay.erase p)).intern p).1
      · exact ih h

theorem Agrees.removeGenerated (h : e.Agrees) (paths : List Path) :
    (removeGenerated env e paths).2.Agrees := by
  have hdropped := (h.dropContents env.disk paths).with_watcher
    ((Engine.dropContents env.disk e paths).2.watcher.add env.backend
      ((Engine.dropContents env.disk e paths).1.1.filter fun f =>
        (Engine.dropContents env.disk e paths).2.isOwned f.1))
  unfold Engine.removeGenerated
  dsimp only
  split
  · split
    · exact hdropped
    · exact hdropped.handleChange _
  · split
    · exact hdropped.handleChange _
    · exact (hdropped.handleChange _).handleChange _

/-!
# Steps of workers
-/

theorem Agrees.finishJob (h : e.Agrees) (job : Job) (outcome : TaskOutcome) (poisoned : Bool) :
    (e.finishJob job outcome poisoned).Agrees :=
  h.with_scheduler h.queue h.pending

theorem Agrees.setStage (h : e.Agrees) (job : Job) (stage : Stage) :
    (e.setStage job stage).Agrees :=
  h.with_scheduler h.queue h.pending

theorem Agrees.begin (h : e.Agrees) (job : Job) : (begin env e job).Agrees := by
  have hasked := h.of_alike (alike_consult e job.task.file)
  unfold Engine.begin
  split
  · exact h.finishJob job _ _
  · dsimp only
    split
    · exact hasked.finishJob job _ _
    · split
      · exact (hasked.setStage job _).with_log _
      · exact hasked.setStage job _

theorem Agrees.collect (h : e.Agrees) (job : Job) (p : Path) (status : FileStatus) :
    (collect env e job p status).Agrees := by
  have hlogged : (if env.logsCalls then { e with log := e.log.finish } else e).Agrees := by
    split
    · exact h.with_log _
    · exact h
  unfold Engine.collect
  dsimp only
  split
  · exact hlogged.setStage job _
  · exact hlogged.finishJob job _ _
  · exact hlogged.finishJob job _ _

theorem Agrees.with_results (h : e.Agrees) {task : Task} {status : FileStatus} {r : Results}
    {outcome : ApplyOutcome} {wrote : Bool} {t : Store} {writes : Nat}
    (hok : e.storage.store.applyResults task status r = .ok (outcome, wrote, t)) :
    { e with storage := ⟨t, writes⟩ }.Agrees := by
  rcases h.store.linked.frame_applyResults hok with ⟨hsources, hparts, hmembers, -⟩
  exact
    { store := h.store.applyResults hok
      book := h.book.of_sources_eq hsources
      queue := h.queue
      owned := h.owned
      members := by
        rw [hmembers]
        exact h.members
      arguments := by
        rw [hparts]
        exact h.arguments
      pending := h.pending }

theorem Agrees.storeResults (h : e.Agrees) (job : Job) (status : FileStatus) (r : Results) :
    (e.store job status r).Agrees := by
  unfold Engine.store Storage.applyResults
  cases hok : e.storage.store.applyResults job.task status r with
  | error failure => exact h.finishJob job _ _
  | ok answer =>
      rcases answer with ⟨outcome, wrote, t⟩
      exact (h.with_results hok).finishJob job _ _

theorem Agrees.stepTicket (h : e.Agrees) (ticket : Nat) : (stepTicket env e ticket).Agrees := by
  unfold Engine.stepTicket
  split
  · unfold stepJob
    split
    · exact h.begin _
    · exact h.collect _ _ _
    · exact h.storeResults _ _ _
    · exact h
  · exact h

theorem Agrees.restart (h : e.Agrees) (concurrency : Nat) : (e.restart concurrency).Agrees :=
  agrees_start h.store h.book.distinct concurrency e.log

end Engine

namespace World

/-- A world with an engine on an empty store. -/
def fresh (d : Disk) (concurrency : Nat) : World := ⟨d, .start .empty concurrency .empty⟩

/-- A world that came about from one with an empty store. -/
def Reachable (s : Surroundings) (w : World) : Prop :=
  exists d concurrency history, w = run s (fresh d concurrency) history

theorem agrees_fresh (d : Disk) (concurrency : Nat) : (fresh d concurrency).engine.Agrees :=
  Engine.agrees_start Store.sound_empty List.nodup_nil concurrency _

theorem agrees_happen {s : Surroundings} {w : World} (h : w.engine.Agrees) (event : Event) :
    (happen s w event).engine.Agrees := by
  cases event with
  | submit parts => exact h.updateParts parts
  | removeParts ids => exact h.removeParts ids
  | handle change => exact h.handleChange change
  | receive =>
      show (World.receive _ w.engine).Agrees
      unfold World.receive
      split
      · exact (h.with_watcher _).handleChange _
      · exact h
  | generate files => exact h.updateGenerated files
  | ungenerate paths => exact h.removeGenerated paths
  | edit change =>
      unfold happen
      dsimp only
      split <;> exact h
  | flush paths => exact h.with_watcher _
  | work ticket => exact h.stepTicket ticket
  | dispatch => exact h.dispatch
  | sweep => exact h.with_scheduler h.queue h.pending
  | disable => exact h.with_scheduler h.queue h.pending
  | restart concurrency => exact h.restart concurrency

theorem agrees_run {s : Surroundings} {w : World} (h : w.engine.Agrees) (history : List Event) :
    (run s w history).engine.Agrees := by
  induction history generalizing w with
  | nil => exact h
  | cons event rest ih => exact ih (agrees_happen h event)

theorem Reachable.agrees {s : Surroundings} {w : World} (h : w.Reachable s) :
    w.engine.Agrees := by
  rcases h with ⟨d, concurrency, history, rfl⟩
  exact agrees_run (agrees_fresh d concurrency) history

/-!
# A small world
-/

/-- A disk with one file, `/w/a`. -/
def oneFileDisk : Disk :=
  (Disk.empty [Text.bytesOf "w"]).put [Text.bytesOf "w", Text.bytesOf "a"] (.file [] 0)

/-- A disk with two empty files, `/w/a` and `/w/b`. -/
def twoFileDisk : Disk := oneFileDisk.put [Text.bytesOf "w", Text.bytesOf "b"] (.file [] 0)

/-- The part that consists of `/w/a`. -/
def partWith (arguments : List String) : Part :=
  ⟨⟨"app"⟩, [.ofString "/w/a"], arguments, [], []⟩

/-- What is collected from any file depends on the arguments only. -/
def answering (answer : List String -> List CollectedSymbol) : Surroundings where
  collect := fun _ _ _ arguments => .results ⟨answer arguments, []⟩
  backend := .ofDisk
  fails := fun _ => none

/-- The symbol that is collected has the name of the last argument. -/
def lastArgument : Surroundings :=
  answering fun arguments => [⟨"c:a", .callable, arguments.getLastD ""⟩]

end World
end SymbolIndex
