import Mathlib.Data.List.Induction
import SymbolIndex.Proofs.Engine.Distribution
import SymbolIndex.Proofs.Overlay

/-!
# Generated contents in a new process

A generated content is known to the store by its length and by the revision that the
overlay had when it was set. The store outlives the process, and the revisions begin
anew with every process. A file that was indexed from a generated content is therefore
enqueued after a restart exactly when its new content has another length, or when it was
not the same number of changes that led to the two contents in their processes.
-/

namespace SymbolIndex

/-- By what the store knows a generated content. -/
def GeneratedFile.status (file : GeneratedFile) : FileStatus :=
  ⟨UInt64.ofNat file.content.utf8ByteSize, Int64.ofNat file.revision⟩

theorem Store.IsIndexed.iff_eq {s : Store} {file : FileId} {part : PartId}
    {status other : FileStatus} (h : s.IsIndexed file part status) :
    s.IsIndexed file part other ↔ status = other := by
  rcases h with ⟨row, hrow, hpart, hstatus⟩
  constructor
  · rintro ⟨again, hagain, -, hother⟩
    obtain rfl : row = again := Option.some.inj (hrow.symm.trans hagain)
    exact hstatus.symm.trans hother
  · exact fun hsame => ⟨row, hrow, hpart, hstatus.trans hsame⟩

namespace Overlay

variable {o : Overlay} {p q : Path} {content : String} {file : GeneratedFile}
  {files : List (Path × String)}

/-- Set the contents of some files, one after the other. -/
def setAll (o : Overlay) (files : List (Path × String)) : Overlay :=
  files.foldl (fun o f => o.insert f.1 f.2) o

/-- How many of some settings change a content. -/
def changes (o : Overlay) : List (Path × String) -> Nat
  | [] => 0
  | f :: rest => (if o.holds f.1 f.2 then 0 else 1) + (o.insert f.1 f.2).changes rest

theorem revision_setAll (o : Overlay) (files : List (Path × String)) :
    (o.setAll files).revision = o.revision + o.changes files := by
  induction files generalizing o with
  | nil => rfl
  | cons f rest ih =>
      show ((o.insert f.1 f.2).setAll rest).revision = _
      rw [ih, changes, ← Nat.add_assoc]
      congr 1
      unfold insert
      split <;> rfl

theorem setAll_concat (o : Overlay) (files : List (Path × String)) (f : Path × String) :
    o.setAll (files ++ [f]) = (o.setAll files).insert f.1 f.2 := by
  unfold setAll
  rw [List.foldl_append]
  rfl

/-- The revision of a content is the number of changes up to the one that set it. -/
theorem exists_setting (h : (empty.setAll files).get? q = some file) :
    exists earlier p later, files = earlier ++ (p, file.content) :: later ∧
      p.normalize = q.normalize ∧
        file.revision = empty.changes (earlier ++ [(p, file.content)]) := by
  induction files using List.reverseRecOn with
  | nil => cases h
  | append_singleton rest f ih =>
      have hlater : (empty.setAll rest).get? q = some file -> exists earlier p later,
          rest ++ [f] = earlier ++ (p, file.content) :: later ∧ p.normalize = q.normalize ∧
            file.revision = empty.changes (earlier ++ [(p, file.content)]) := by
        intro hbefore
        rcases ih hbefore with ⟨earlier, p, later, rfl, hp, hrevision⟩
        exact ⟨earlier, p, later ++ [f], by simp, hp, hrevision⟩
      rw [setAll_concat] at h
      cases hholds : (empty.setAll rest).holds f.1 f.2 with
      | true =>
          rw [insert_of_holds hholds] at h
          exact hlater h
      | false =>
          rw [get?_insert_of_not_holds hholds] at h
          split at h
          · rename_i hsame
            cases h
            refine ⟨rest, f.1, [], rfl, hsame, ?_⟩
            have hrevision := revision_setAll empty (rest ++ [f])
            rw [setAll_concat] at hrevision
            exact hrevision.trans (Nat.zero_add _)
          · exact hlater h

end Overlay

namespace Engine

variable {env : Environment} {e e' e'' : Engine} {file : FileId} {files : List (Path × String)}

/-!
# Setting contents
-/

/-- Contents were set, and nothing else was done that a submission would notice. -/
structure ContentsSet (files : List (Path × String)) (e e' : Engine) : Prop where
  stored : e'.storage.store.parts = e.storage.store.parts
  statuses : e'.storage.store.statuses = e.storage.store.statuses
  overlay : e'.overlay = e.overlay.setAll files
  watchable : forall file, e.watcher.isUnwatchable file = false ->
    e'.watcher.isUnwatchable file = false

theorem ContentsSet.trans {more : List (Path × String)} (h : ContentsSet files e e')
    (h' : ContentsSet more e' e'') : ContentsSet (files ++ more) e e'' where
  stored := h'.stored.trans h.stored
  statuses := h'.statuses.trans h.statuses
  overlay := by
    rw [h'.overlay, h.overlay, Overlay.setAll, Overlay.setAll, Overlay.setAll, List.foldl_append]
  watchable := fun file hbefore => h'.watchable file (h.watchable file hbefore)

theorem Agrees.contentsSet_setContents (h : e.Agrees) (files : List (Path × String)) :
    ContentsSet files e (e.setContents files).2 := by
  induction files generalizing e with
  | nil => exact ⟨rfl, rfl, rfl, fun _ hbefore => hbefore⟩
  | cons f rest ih =>
      rcases f with ⟨p, content⟩
      rcases h.intern p with ⟨hagrees, hinterned, -⟩
      have hrest := ih (hagrees.with_overlay ((e.intern p).2.overlay.insert p content))
      refine ⟨hrest.stored.trans hinterned.stored, hrest.statuses.trans hinterned.statuses,
        ?_, ?_⟩
      · refine hrest.overlay.trans ?_
        show ((e.intern p).2.overlay.insert p content).setAll rest = _
        rw [hinterned.overlay]
        rfl
      · intro file hbefore
        apply hrest.watchable
        show (e.intern p).2.watcher.isUnwatchable file = false
        rw [hinterned.watcher]
        exact hbefore

theorem Agrees.contentsSet_updateGenerated (h : e.Agrees) (files : List (Path × String)) :
    ContentsSet files e (Engine.updateGenerated env e files).2 := by
  have hset := h.contentsSet_setContents files
  unfold Engine.updateGenerated
  dsimp only
  split
  · exact hset
  · -- the files that changed are looked at, and what is stored stays
    generalize (e.setContents files).1 = changed
    generalize (e.setContents files).2 = told at hset ⊢
    have hcalm :=
      calm_handleChanged env { told with watcher := told.watcher.remove changed } changed
    have hstorage :=
      storage_handleChanged env { told with watcher := told.watcher.remove changed } changed
    show ContentsSet files e
      (Engine.handleChanged env { told with watcher := told.watcher.remove changed } changed).2
    refine ⟨by rw [hstorage]; exact hset.stored, by rw [hstorage]; exact hset.statuses,
      hcalm.overlay.trans hset.overlay, ?_⟩
    intro file hbefore
    rw [hcalm.watcher]
    exact Watcher.isUnwatchable_remove_eq_false (hset.watchable file hbefore) changed

end Engine

namespace World

variable {s : Surroundings} {w : World}

theorem contentsSet_run (h : w.engine.Agrees) (settings : List (List (Path × String))) :
    Engine.ContentsSet settings.flatten w.engine
        (run s w (settings.map Event.generate)).engine ∧
      (run s w (settings.map Event.generate)).disk = w.disk := by
  induction settings generalizing w with
  | nil => exact ⟨⟨rfl, rfl, rfl, fun _ hbefore => hbefore⟩, rfl⟩
  | cons files rest ih =>
      rcases ih (w := happen s w (.generate files)) (h.updateGenerated files) with ⟨hrest, hdisk⟩
      exact ⟨(h.contentsSet_updateGenerated files).trans hrest, hdisk⟩

/-- A new process on the store of a world, which sets contents call after call. -/
def regenerated (s : Surroundings) (w : World) (concurrency : Nat)
    (settings : List (List (Path × String))) : World :=
  run s (happen s w (.restart concurrency)) (settings.map Event.generate)

theorem contentsSet_regenerated (h : w.engine.Agrees) (concurrency : Nat)
    (settings : List (List (Path × String))) :
    (regenerated s w concurrency settings).engine.Agrees ∧
      Engine.ContentsSet settings.flatten (w.engine.restart concurrency)
        (regenerated s w concurrency settings).engine := by
  have hstart : (happen s w (.restart concurrency)).engine.Agrees := h.restart concurrency
  exact ⟨agrees_run hstart _, (contentsSet_run hstart settings).1⟩

/--
A part is submitted, with the arguments that the store has, to a new process that has set
contents. Its file was indexed from a generated content, and its path has a content again.
The file is enqueued exactly when the lengths of the two contents or their revisions
differ, as far as the store can tell them. The revision is the number of changes of content
that the new process made up to the one that set the content.
-/
theorem regenerated_file_is_enqueued_iff (hw : w.Reachable s) (concurrency : Nat)
    (settings : List (List (Path × String))) {parts : List Part}
    {before after : List PreparedPart} {part : PreparedPart}
    (haccepted : (Engine.prepare ∅ (regenerated s w concurrency settings).engine parts).1.1 =
      before ++ part :: after)
    (hid : part.id ∉ (before ++ after).map PreparedPart.id)
    {file : FileId} (hfile : file ∈ part.files) {old new : GeneratedFile} {p : Path}
    (harguments : w.engine.storage.store.HasArguments part.id part.arguments)
    (hindexed : w.engine.storage.store.IsIndexed file part.id old.status)
    (hpath : (Engine.prepare ∅ (regenerated s w concurrency settings).engine parts).2.path? file =
      some p)
    (hset : (Overlay.empty.setAll settings.flatten).get? p = some new) :
    let v := regenerated s w concurrency settings
    let env := s.environment v.disk
    let checked := Engine.prepare ∅ v.engine parts
    let tasks := Engine.submissionTasks env checked.2 checked.1.1
    (Engine.updateParts env v.engine parts).1.enqueued = tasks.length ∧
      (part.task file ∈ tasks ↔
        UInt64.ofNat old.content.utf8ByteSize ≠ UInt64.ofNat new.content.utf8ByteSize ∨
          Int64.ofNat old.revision ≠ Int64.ofNat new.revision) ∧
      (part.task file ∈ tasks ->
        (Engine.applyParts env checked.2 checked.1.1).2.scheduler.queue.get? file =
          some (part.task file)) ∧
      exists earlier q later, settings.flatten = earlier ++ (q, new.content) :: later ∧
        q.normalize = p.normalize ∧
          new.revision = Overlay.empty.changes (earlier ++ [(q, new.content)]) := by
  intro v env checked tasks
  rcases contentsSet_regenerated (s := s) hw.agrees concurrency settings with ⟨hagrees, hcontents⟩
  rcases hagrees.prepare ∅ parts with ⟨hchecked, hinterned, hchecks, -⟩
  have hoverlay : checked.2.overlay = Overlay.empty.setAll settings.flatten :=
    hinterned.overlay.trans hcontents.overlay
  have hthere : Engine.currentStatus? env checked.2 file = some new.status := by
    rw [Engine.currentStatus?, hpath, Option.bind_some, Overlay.currentStatus, Overlay.status?,
      hoverlay, hset]
    rfl
  -- a new process marks no file, and files that have contents are not added to the watcher
  have hwatchable : (Engine.applyParts env checked.2 checked.1.1).2.watcher.isUnwatchable file =
      false := by
    apply hchecked.isUnwatchable_applyParts_eq_false hchecks.sourced
    · rw [hinterned.watcher]
      exact hcontents.watchable file rfl
    · intro q hq hnone
      rw [hpath, Option.some.injEq] at hq
      rw [← hq, Overlay.contains, hoverlay, hset] at hnone
      cases hnone
  rcases hagrees.submission_enqueues_iff env haccepted hid hfile hthere hwatchable with
    ⟨hcount, hiff, hqueued⟩
  refine ⟨hcount, hiff.trans ?_, hqueued, Overlay.exists_setting hset⟩
  have hstored : v.engine.storage.store.HasArguments part.id part.arguments := by
    rw [Store.HasArguments, hcontents.stored]
    exact harguments
  have hrow : v.engine.storage.store.IsIndexed file part.id new.status ↔
      old.status = new.status := by
    rw [Store.IsIndexed, hcontents.statuses]
    exact hindexed.iff_eq
  rw [hrow, GeneratedFile.status, GeneratedFile.status, FileStatus.mk.injEq, not_and_or]
  exact or_iff_right fun hnot => hnot hstored

/-!
# A content of the same length
-/

/-- A file has one symbol, of which the name is its generated content. -/
def contentNamed : Surroundings where
  collect := fun _ o p _ => .results ⟨[⟨"c:a", .callable, (o.content? p).getD ""⟩], []⟩
  backend := .ofDisk
  fails := fun _ => none

/-- The file was indexed from a content of three bytes, and nothing is left to do. -/
def generatedWorld : World :=
  run contentNamed (fresh oneFileDisk 1)
    [.generate [(.ofString "/w/a", "old")], .submit [partWith []], .work 0, .work 0, .work 0,
      .sweep]

/-- In the next process the file has a longer content, and it is enqueued. -/
theorem longer_content_is_enqueued :
    let v := regenerated contentNamed generatedWorld 1 [[(.ofString "/w/a", "newer")]]
    let env := contentNamed.environment v.disk
    let checked := Engine.prepare ∅ v.engine [partWith []]
    (⟨⟨1⟩, ⟨"app"⟩, []⟩ : Task) ∈ Engine.submissionTasks env checked.2 checked.1.1 := by
  intro v env checked
  have hreachable : generatedWorld.Reachable contentNamed := ⟨_, _, _, rfl⟩
  have hindexed : generatedWorld.engine.storage.store.IsIndexed ⟨1⟩ ⟨"app"⟩
      (GeneratedFile.mk "old" 1).status := by
    have hrow : (generatedWorld.engine.storage.store.statuses.get? ⟨1⟩).map
        (fun row => (row.part, row.status)) =
          some (⟨"app"⟩, (GeneratedFile.mk "old" 1).status) := by decide +kernel
    rcases Option.map_eq_some_iff.mp hrow with ⟨row, hfound, hsame⟩
    exact ⟨row, hfound, congrArg Prod.fst hsame, congrArg Prod.snd hsame⟩
  have hiff := @regenerated_file_is_enqueued_iff _ _ hreachable 1 [[(.ofString "/w/a", "newer")]]
    [partWith []] [] [] ⟨⟨"app"⟩, [], [⟨1⟩]⟩ (by decide +kernel) (by decide) ⟨1⟩ (by decide)
    ⟨"old", 1⟩ ⟨"newer", 1⟩ (.ofString "/w/a") (by unfold Store.HasArguments; decide +kernel)
    hindexed (by decide +kernel) (by decide +kernel)
  exact hiff.2.1.mpr (Or.inl (by decide +kernel))

/--
The next process sets a content that differs from the indexed one and is as long, in its
first change as well. The part is submitted with the arguments that the store has, and
nothing is enqueued, so the symbol of the old content stays.
-/
theorem content_of_equal_length_is_missed :
    let v := regenerated contentNamed generatedWorld 1 [[(.ofString "/w/a", "new")]]
    let submitted := happen contentNamed v (.submit [partWith []])
    generatedWorld.Reachable contentNamed ∧ generatedWorld.AtRest ∧
      generatedWorld.engine.scheduler.reports.map TaskReport.outcome = [.indexed 1 0] ∧
      generatedWorld.engine.overlay.content? (.ofString "/w/a") = some "old" ∧
      v.engine.overlay.content? (.ofString "/w/a") = some "new" ∧
      (Engine.updateParts (contentNamed.environment v.disk) v.engine [partWith []]).1 = ⟨0, 0, []⟩ ∧
      submitted.AtRest ∧
      submitted.engine.storage.store.symbols = generatedWorld.engine.storage.store.symbols := by
  intro v submitted
  refine ⟨⟨_, _, _, rfl⟩, ?_⟩
  decide +kernel

end World
end SymbolIndex
