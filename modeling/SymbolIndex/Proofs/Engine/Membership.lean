import SymbolIndex.Proofs.Engine.Treatment

/-!
# Who belongs where

Memory, store and queue tell one story in every world: a file is owned by the part whose
snapshot lists it, the store counts it as a member of that part, only members have
records, and only owned files have tasks. Files become members by submissions alone, so
a job that was begun before its file went brings nothing back.
-/

namespace SymbolIndex
namespace Engine

/-- Every member was one before. -/
def NoneJoins (e e' : Engine) : Prop :=
  forall file part, e'.storage.store.members.get? file = some part ->
    e.storage.store.members.get? file = some part

section NoneJoins

variable {env : Environment} {e e' e'' : Engine}

theorem NoneJoins.trans (h : NoneJoins e e') (h' : NoneJoins e' e'') : NoneJoins e e'' :=
  fun file part hmember => h file part (h' file part hmember)

theorem noneJoins_of_members_eq
    (h : e'.storage.store.members = e.storage.store.members) : NoneJoins e e' := by
  intro file part hmember
  rw [← h]
  exact hmember

theorem LetGo.noneJoins {files : List FileId} (h : LetGo files e e') : NoneJoins e e' := by
  intro file part hmember
  rw [h.members] at hmember
  split at hmember
  · cases hmember
  · exact hmember

theorem Agrees.noneJoins_removePart (h : e.Agrees) {id : PartId} {files : List FileId}
    (hfiles : forall file, file ∈ files ↔ e.storage.store.members.get? file = some id) :
    NoneJoins e (e.removePart id files).2 := by
  rcases h.retire files with ⟨hgo, hagrees⟩
  rcases hagrees.storage_removePart (h.members_retire_ne hfiles) with ⟨-, -, -, hsame⟩
  rw [h.removePart_eq hfiles]
  apply hgo.noneJoins.trans
  intro file part hmember
  exact (hsame file).1.symm.trans hmember

theorem Agrees.noneJoins_removeParts (h : e.Agrees) (ids : List PartId) :
    NoneJoins e (e.removeParts ids).2 := by
  induction ids generalizing e with
  | nil => exact noneJoins_of_members_eq rfl
  | cons id rest ih =>
      have hfiles := h.mem_known_files id
      rw [Engine.removeParts, h.filesOf_eq]
      exact (h.noneJoins_removePart hfiles).trans (ih (h.removePart hfiles))

theorem storage_handleChanged (env : Environment) (e : Engine) (files : List FileId) :
    (handleChanged env e files).2.storage = e.storage := by
  have hlooked : Alike e (files.foldl (look env) e) := alike_foldl (alike_look env) e files
  have hseen := hlooked.trans (candidates_spec env false (files.foldl (look env) e)
    (files.filter (files.foldl (look env) e).isOwned)).2
  unfold handleChanged
  dsimp only
  rw [← hseen.storage]
  split <;> rfl

theorem noneJoins_handleChanged (e : Engine) (files : List FileId) :
    NoneJoins e (handleChanged env e files).2 :=
  noneJoins_of_members_eq (by rw [storage_handleChanged])

theorem Agrees.noneJoins_handleChange (h : e.Agrees) (change : PathChange) :
    NoneJoins e (Engine.handleChange env e change).2 := by
  cases change with
  | changed files => exact noneJoins_handleChanged e files
  | removed files =>
      rcases h.detach ((files.filter e.isOwned).filter e.watcher.isUnwatchable) with
        ⟨hdetached, hagrees⟩
      exact (noneJoins_of_members_eq hdetached.members).trans (hagrees.retire _).1.noneJoins

theorem Agrees.noneJoins_setContents (h : e.Agrees) (files : List (Path × String)) :
    NoneJoins e (e.setContents files).2 := by
  induction files generalizing e with
  | nil => exact noneJoins_of_members_eq rfl
  | cons f rest ih =>
      rcases f with ⟨p, content⟩
      rcases h.intern p with ⟨hagrees, hinterned, -⟩
      exact (noneJoins_of_members_eq hinterned.members).trans (ih (hagrees.with_overlay _))

theorem Agrees.noneJoins_dropContents (h : e.Agrees) (d : Disk) (paths : List Path) :
    NoneJoins e (e.dropContents d paths).2 := by
  induction paths generalizing e with
  | nil => exact noneJoins_of_members_eq rfl
  | cons p rest ih =>
      rw [Engine.dropContents]
      split
      · rcases (h.with_overlay (e.overlay.erase p)).intern p with ⟨hagrees, hinterned, -⟩
        exact (noneJoins_of_members_eq hinterned.members).trans (ih hagrees)
      · exact ih h

theorem Agrees.noneJoins_updateGenerated (h : e.Agrees) (files : List (Path × String)) :
    NoneJoins e (Engine.updateGenerated env e files).2 := by
  have hset := h.noneJoins_setContents files
  unfold Engine.updateGenerated
  dsimp only
  split
  · exact hset
  · exact hset.trans (((h.setContents files).with_watcher _).noneJoins_handleChange _)

theorem Agrees.noneJoins_removeGenerated (h : e.Agrees) (paths : List Path) :
    NoneJoins e (Engine.removeGenerated env e paths).2 := by
  have hdropped := h.noneJoins_dropContents env.disk paths
  have hagrees := (h.dropContents env.disk paths).with_watcher
    ((Engine.dropContents env.disk e paths).2.watcher.add env.backend
      ((Engine.dropContents env.disk e paths).1.1.filter fun f =>
        (Engine.dropContents env.disk e paths).2.isOwned f.1))
  unfold Engine.removeGenerated
  dsimp only
  split
  · split
    · exact hdropped
    · exact hdropped.trans (hagrees.noneJoins_handleChange _)
  · split
    · exact hdropped.trans (hagrees.noneJoins_handleChange _)
    · exact hdropped.trans ((hagrees.noneJoins_handleChange _).trans
        ((hagrees.handleChange _).noneJoins_handleChange _))

theorem Worked.noneJoins {ticket : Nat} (h : Worked env e ticket e') (hagrees : e.Agrees) :
    NoneJoins e e' := by
  apply noneJoins_of_members_eq
  cases h with
  | idle hidle => rfl
  | begins job p status hjob hstage hpath hstatus halike => rw [halike.storage]; rfl
  | collects job p status r hjob hstage hanswer halike => rw [halike.storage]; rfl
  | fails job outcome poisoned hjob hfailure halike => rw [halike.storage]; rfl
  | lands job status r outcome wrote t hjob hstage hok =>
      exact (hagrees.store.linked.frame_applyResults hok).2.2.1

end NoneJoins

namespace Agrees

variable {e : Engine}

theorem member_of_symbol (h : e.Agrees) {row : SymbolRow}
    (hrow : row ∈ e.storage.store.symbols) :
    e.storage.store.members.get? row.file = some row.part := by
  have hmem : row ∈ (e.storage.store.recordsAt row.file).1 :=
    List.mem_filter.mpr ⟨hrow, by simp⟩
  cases hstatus : e.storage.store.statuses.get? row.file with
  | none =>
      rw [h.store.blank _ hstatus] at hmem
      cases hmem
  | some status =>
      rcases h.store.indexed _ status hstatus with ⟨r, -, -, hr⟩
      rw [hr.part_of_mem hrow rfl]
      exact h.store.tracked _ status hstatus

theorem fetchPart_eq (h : e.Agrees) {part : PartId} {snapshot : Snapshot}
    (hsnapshot : e.parts.get? part = some snapshot) :
    e.storage.store.fetchPart part =
      .ok (some ⟨part, snapshot.arguments, e.storage.store.membersOf part⟩) := by
  rw [Store.fetchPart, h.arguments part snapshot hsnapshot]
  rfl

theorem owned_of_mem_toList (h : e.Agrees) {task : Task}
    (htask : task ∈ e.scheduler.queue.toList) : exists part, e.ownerOf task.file = some part := by
  rcases List.mem_filterMap.mp htask with ⟨file, -, hget⟩
  rw [h.queue.keyed file task hget]
  exact h.pending file task hget

end Agrees
end Engine

namespace World

variable {s : Surroundings} {w : World}

def isSubmission : Event -> Bool
  | .submit _ => true
  | _ => false

theorem noneJoins_happen (hagrees : w.engine.Agrees) {event : Event}
    (hevent : isSubmission event = false) :
    Engine.NoneJoins w.engine (happen s w event).engine := by
  have hsame : Engine.NoneJoins w.engine w.engine := Engine.noneJoins_of_members_eq rfl
  cases event with
  | submit parts => cases hevent
  | removeParts ids => exact hagrees.noneJoins_removeParts ids
  | handle change => exact hagrees.noneJoins_handleChange change
  | receive =>
      show Engine.NoneJoins w.engine (receive _ w.engine)
      unfold receive
      split
      · rename_i change watcher _hreceived
        exact (hagrees.with_watcher watcher).noneJoins_handleChange change
      · exact hsame
  | generate files => exact hagrees.noneJoins_updateGenerated files
  | ungenerate paths => exact hagrees.noneJoins_removeGenerated paths
  | edit change =>
      unfold happen
      dsimp only
      split <;> exact hsame
  | flush paths => exact hsame
  | work ticket => exact (Engine.worked_stepTicket _ _ ticket).noneJoins hagrees
  | dispatch => exact hsame
  | sweep => exact hsame
  | disable => exact hsame
  | restart concurrency => exact hsame

theorem noneJoins_run (hagrees : w.engine.Agrees) {history : List Event}
    (hhistory : forall event, event ∈ history -> isSubmission event = false) :
    Engine.NoneJoins w.engine (run s w history).engine := by
  induction history generalizing w with
  | nil => exact Engine.noneJoins_of_members_eq rfl
  | cons event rest ih =>
      have hone := noneJoins_happen (s := s) hagrees (hhistory event List.mem_cons_self)
      exact hone.trans (ih (agrees_happen hagrees event)
        (fun later hlater => hhistory later (List.mem_cons_of_mem _ hlater)))

/--
In every world that came about from an empty store: a file is owned by the part whose
snapshot lists it, and by no other; the members of a part in the store are the files of
its snapshot; only members have a status, symbols or locations, all under the part they
are members of; tasks are queued for owned files; and a file that is no member stays
without records, whatever happens before it is submitted again.
-/
theorem ownership_agrees (hw : w.Reachable s) :
    let e := w.engine
    let store := e.storage.store
    (forall file part, e.ownerOf file = some part ↔
      exists snapshot, e.parts.get? part = some snapshot ∧ file ∈ snapshot.files) ∧
    (forall part other snapshot snapshot', e.parts.get? part = some snapshot ->
      e.parts.get? other = some snapshot' -> part ≠ other ->
      snapshot.files.Disjoint snapshot'.files) ∧
    (forall part snapshot, e.parts.get? part = some snapshot ->
      exists stored, store.fetchPart part = .ok (some stored) ∧
        forall file, file ∈ stored.files ↔ file ∈ snapshot.files) ∧
    (forall file row, store.statuses.get? file = some row ->
      store.members.get? file = some row.part) ∧
    (forall row, row ∈ store.symbols -> store.members.get? row.file = some row.part) ∧
    (forall l, l ∈ store.locations -> exists row, row ∈ store.symbols ∧ row.id = l.symbol ∧
      row.file = l.file ∧ store.members.get? l.file = some row.part) ∧
    (forall task, task ∈ e.scheduler.queue.toList ->
      exists part, e.ownerOf task.file = some part) ∧
    (forall history file, (forall event, event ∈ history -> isSubmission event = false) ->
      store.members.get? file = none ->
      let later := (run s w history).engine.storage.store
      later.members.get? file = none ∧ later.statuses.get? file = none ∧
        later.recordsAt file = ([], [])) := by
  have h := hw.agrees
  refine ⟨h.owned, ?_, ?_, h.store.tracked, fun row hrow => h.member_of_symbol hrow, ?_,
    fun task htask => h.owned_of_mem_toList htask, ?_⟩
  · intro part other snapshot snapshot' hsnapshot hsnapshot' hne file hfile hfile'
    have howner := (h.owned file part).mpr ⟨snapshot, hsnapshot, hfile⟩
    have howner' := (h.owned file other).mpr ⟨snapshot', hsnapshot', hfile'⟩
    exact hne (Option.some.inj (howner.symm.trans howner'))
  · intro part snapshot hsnapshot
    refine ⟨_, h.fetchPart_eq hsnapshot, ?_⟩
    intro file
    exact (Store.mem_membersOf _ part file).trans (h.members part snapshot hsnapshot file).symm
  · intro l hl
    rcases h.store.linked.anchored l hl with ⟨row, hrow, hid, hfile⟩
    refine ⟨row, hrow, hid, hfile, ?_⟩
    rw [← hfile]
    exact h.member_of_symbol hrow
  · intro history file hhistory hnone
    have hagrees := agrees_run (s := s) h history
    have hmember : (run s w history).engine.storage.store.members.get? file = none := by
      cases hjoined : (run s w history).engine.storage.store.members.get? file with
      | none => rfl
      | some part =>
          rw [noneJoins_run h hhistory file part hjoined] at hnone
          cases hnone
    have hstatus : (run s w history).engine.storage.store.statuses.get? file = none := by
      cases hrow : (run s w history).engine.storage.store.statuses.get? file with
      | none => rfl
      | some row =>
          have htracked := hagrees.store.tracked file row hrow
          rw [hmember] at htracked
          cases htracked
    exact ⟨hmember, hstatus, hagrees.store.blank file hstatus⟩

/-- A part is removed while the only task of its file is in the hands of a worker. -/
def removedInHand : World :=
  run lastArgument (fresh oneFileDisk 1) [.submit [partWith ["-O0"]], .work 0, .removeParts [⟨"app"⟩]]

/-- The task goes on to its end, and the file stays without records. -/
theorem removed_in_hand_stays_bare :
    let finished := run lastArgument removedInHand [.work 0, .work 0]
    finished.engine.scheduler.reports = [⟨⟨1⟩, ⟨"app"⟩, .stale⟩] ∧
      finished.engine.storage.store.recordsAt ⟨1⟩ = ([], []) := by
  have hreachable : removedInHand.Reachable lastArgument := ⟨_, _, _, rfl⟩
  rcases ownership_agrees hreachable with ⟨-, -, -, -, -, -, -, hbare⟩
  exact ⟨by decide +kernel, (hbare [.work 0, .work 0] ⟨1⟩ (by decide) (by decide +kernel)).2.2⟩

end World
end SymbolIndex
