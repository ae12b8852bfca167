import SymbolIndex.Proofs.Engine.Counterparts

/-!
# The order in which parts are listed

Parts with files of their own may be listed in any order, even when files move from one
of them to another: whether a file first leaves its old part or first joins its new one,
in the end it is owned, watched and stored alike, and as many tasks are queued. The order
shows in the ids of paths that were not known and in the numbers of symbols. Where a path
is not text it can show in more: such a path shares its id with others, so that a file may
be watched under the one while there are contents for another, and the file stays watched
unless the part that it leaves comes first.
-/

namespace SymbolIndex
namespace Engine

variable {env : Environment} {e : Engine} {parts parts' : List Part}

/-- Two engines know the same paths and have the same of each, under whatever ids. -/
structure AlikeByPath (x y : Engine) : Prop where
  known : forall text, text ∈ y.storage.store.sources ↔ text ∈ x.storage.store.sources
  arguments : forall id, y.storage.store.parts.get? id = x.storage.store.parts.get? id
  files : forall f g text, x.storage.store.source? f = some text ->
    y.storage.store.source? g = some text -> Counterparts f g x y

/-- The engine once all parts are applied and nothing is handed out yet. -/
def afterParts (env : Environment) (e : Engine) (parts : List Part) : Engine :=
  (Engine.applyParts env (Engine.prepare ∅ e parts).2 (Engine.prepare ∅ e parts).1.1).2

theorem CanWatch.of_calm {e' : Engine} (h : e'.CanWatch parts) (hcalm : Calm e e') :
    e.CanWatch parts := by
  intro part hpart p hp file hpath
  rw [← hcalm.watcher]
  exact h part hpart p hp file ((hcalm.paths file).trans hpath)

theorem Attends.report_updateParts (h : e.Attends)
    (hidle : forall file, e.scheduler.queue.get? file = none)
    (hparts : Compatible parts) :
    (Engine.updateParts env e parts).1.enqueued =
        (afterParts env e parts).scheduler.queue.toList.length ∧
      (Engine.updateParts env e parts).1.rejected = [] := by
  rcases h.checked hparts with ⟨hchecked, hnone⟩
  have hagrees := hchecked.attends.agrees
  rcases hagrees.report_applyParts env hchecked.sourced with ⟨henqueued, hrejected⟩
  have hperm := hagrees.perm_toList_applyParts env hchecked.sourced
    (fun file => by rw [hchecked.interned.scheduler]; exact hidle file) hchecked.unrelated
  refine ⟨henqueued.trans hperm.length_eq, ?_⟩
  unfold Engine.updateParts
  dsimp only
  rw [hnone, hrejected]
  rfl

theorem Attends.scheduler_afterParts (h : e.Attends) (hparts : Compatible parts) :
    exists queue, (afterParts env e parts).scheduler = { e.scheduler with queue } := by
  rcases h.checked hparts with ⟨hchecked, -⟩
  rcases hchecked.attends.agrees.scheduler_applyParts env hchecked.sourced with ⟨queue, hqueue⟩
  exact ⟨queue, by rw [afterParts, hqueue, hchecked.interned.scheduler]⟩

theorem Attends.progress_updateParts (env : Environment) (h : e.Attends)
    (hticketed : e.scheduler.Ticketed) (hjobs : e.scheduler.jobs = [])
    (hmakes : forall attempt, env.fails attempt = none) (hparts : Compatible parts) :
    Progress env (afterParts env e parts) (afterParts env e parts).scheduler.queue.toList []
      (Engine.updateParts env e parts).2 := by
  have happlied : (afterParts env e parts).Attends :=
    (h.checked hparts).1.attends.applyParts env (h.checked hparts).1.sourced
  rcases h.scheduler_afterParts hparts with ⟨queue, hscheduler⟩
  have hstart : Progress env (afterParts env e parts)
      (afterParts env e parts).scheduler.queue.toList [] (afterParts env e parts) := by
    refine progress_start ?_ happlied.agrees.queue ?_ rfl (fun _ => rfl) rfl rfl
    · rw [hscheduler]
      exact hticketed.of_jobs_eq rfl rfl
    · rw [hscheduler]
      exact hjobs
  unfold Engine.updateParts
  dsimp only
  split
  · exact hstart.dispatch hmakes
  · exact hstart

theorem Shared.alikeByPath {x y x' y' : Engine} (h : Shared env e parts x)
    (h' : Shared env e parts' y) (he : e.Attends)
    (hidle : forall file, e.scheduler.queue.get? file = none)
    (hsame : forall part, part ∈ parts ↔ part ∈ parts') (hx : Drained env x x')
    (hy : Drained env y y') : AlikeByPath x' y' where
  known := by
    intro text
    rw [hx.calm.sources, hy.calm.sources, h.known, h'.known]
    simp only [hsame]
  arguments := by
    rw [hx.parts_eq h.attends.agrees, hy.parts_eq h'.attends.agrees]
    exact h.arguments h' hsame
  files := by
    intro f g text hf hg
    rw [Store.source?_of_sources_eq hx.calm.sources] at hf
    rw [Store.source?_of_sources_eq hy.calm.sources] at hg
    exact (h.ready h' he hidle hsame hf hg).counterparts (h'.overlay.trans h.overlay.symm)
      h.attends.agrees h'.attends.agrees hx hy

end Engine

namespace World

variable {s : Surroundings} {w : World} {parts parts' : List Part} {drain drain' : List Event}

/-- When a submission to an idle engine came to rest, what it queued is done and nothing else. -/
theorem drained_run (hw : w.TextReachable s) (hrest : w.AtRest)
    (hmakes : forall attempt, s.fails attempt = none)
    (hparts : Engine.Compatible parts)
    (hdrain : forall event, event ∈ drain -> isDraining event = true)
    (hsettled : (run s w (.submit parts :: drain)).AtRest) :
    Engine.Drained (s.environment w.disk) (Engine.afterParts (s.environment w.disk) w.engine parts)
      (run s w (.submit parts :: drain)).engine := by
  have hattends := hw.attends
  have happlied : (Engine.afterParts (s.environment w.disk) w.engine parts).Attends :=
    (hattends.checked hparts).1.attends.applyParts _ (hattends.checked hparts).1.sourced
  have hfiles : ((Engine.afterParts (s.environment w.disk) w.engine
      parts).scheduler.queue.toList.map Task.file).Nodup := by
    rw [happlied.agrees.queue.map_file_toList]
    exact happlied.agrees.queue.nodup
  have hstart := hattends.progress_updateParts (s.environment w.disk) hw.reachable.ticketed hrest.2
    hmakes hparts
  rcases progress_run (s := s) (w := happen s w (.submit parts)) hmakes
    happlied.agrees.store.linked hfiles hdrain hstart with ⟨done, hdone⟩
  refine ⟨?_, done, hdone.rest hsettled.1 hsettled.2, hdone.storage⟩
  exact (Engine.calm_updateParts _ _ parts).trans
    (calm_run (w := happen s w (.submit parts)) (agrees_happen hattends.agrees _)
      (fun event hevent => isCalm_of_isDraining (hdrain event hevent)))

/--
Parts with ids and files of their own are submitted to an idle engine, in one order or
another, none of their files is unwatchable after that, and the workers go on until all is
at rest. All parts are
accepted, as many tasks are queued, and in the end the same paths are known, the same
arguments are stored of every part, and every path has the same owner and is a member of
the same part, is watched or not, and has the same status, symbols and locations, but for
the ids of paths and the numbers of symbols.
-/
theorem part_order_is_immaterial (hw : w.TextReachable s) (hrest : w.AtRest)
    (hmakes : forall attempt, s.fails attempt = none)
    (hparts : Engine.Compatible parts)
    (hperm : parts.Perm parts')
    (hwatched : (happen s w (.submit parts)).engine.CanWatch parts)
    (hwatched' : (happen s w (.submit parts')).engine.CanWatch parts')
    (hdrain : forall event, event ∈ drain ++ drain' -> isDraining event = true)
    (hsettled : (run s w (.submit parts :: drain)).AtRest)
    (hsettled' : (run s w (.submit parts' :: drain')).AtRest) :
    let report := (Engine.updateParts (s.environment w.disk) w.engine parts).1
    let report' := (Engine.updateParts (s.environment w.disk) w.engine parts').1
    report.rejected = [] ∧ report'.rejected = [] ∧ report'.enqueued = report.enqueued ∧
      Engine.AlikeByPath (run s w (.submit parts :: drain)).engine
        (run s w (.submit parts' :: drain')).engine := by
  intro report report'
  have hattends := hw.attends
  have hidle := (TaskQueue.isEmpty_iff _).mp hrest.1
  have hparts' := hparts.perm hperm
  have hsame : forall part, part ∈ parts ↔ part ∈ parts' := fun _ => hperm.mem_iff
  have hshared := hattends.shared hidle hparts (hwatched.of_calm (Engine.calm_updateParts _ _ parts))
  have hshared' :=
    hattends.shared hidle hparts' (hwatched'.of_calm (Engine.calm_updateParts _ _ parts'))
  rcases hattends.report_updateParts hidle hparts with ⟨henqueued, hrejected⟩
  rcases hattends.report_updateParts hidle hparts' with ⟨henqueued', hrejected'⟩
  refine ⟨hrejected, hrejected', ?_, ?_⟩
  · rw [henqueued, henqueued']
    exact hshared.length_queue hshared' hattends hidle hsame
  · exact hshared.alikeByPath hshared' hattends hidle hsame
      (drained_run hw hrest hmakes hparts
        (fun event hevent => hdrain event (List.mem_append_left _ hevent)) hsettled)
      (drained_run hw hrest hmakes hparts'
        (fun event hevent => hdrain event (List.mem_append_right _ hevent)) hsettled')

/-- A disk with three empty files, `/w/a`, `/w/b` and `/w/c`. -/
def threeFileDisk : Disk := twoFileDisk.put [Text.bytesOf "w", Text.bytesOf "c"] (.file [] 0)

/-- The part that loses `/w/a` and gets `/w/b` instead. -/
def leftPart : Part := ⟨⟨"app"⟩, [.ofString "/w/b"], ["-O0"], [], []⟩

/-- The part that gets `/w/a`, and `/w/c` besides. -/
def joinedPart : Part := ⟨⟨"lib"⟩, [.ofString "/w/a", .ofString "/w/c"], ["-O2"], [], []⟩

/-- The file `/w/a` is indexed. -/
def oneIndexed : List Event := [.submit [partWith ["-O0"]], .work 0, .work 0, .work 0, .sweep]

/-- Three tasks are done one after the other. -/
def threeDone : List Event :=
  [.work 1, .work 1, .work 1, .dispatch, .work 2, .work 2, .work 2, .dispatch, .work 3, .work 3,
    .work 3, .sweep]

/-- A file moves to a part that is listed after the part it leaves, or before it. -/
theorem moved_in_either_order :
    let w := run lastArgument (fresh threeFileDisk 1) oneIndexed
    let env := lastArgument.environment w.disk
    let one := run lastArgument w (.submit [leftPart, joinedPart] :: threeDone)
    let other := run lastArgument w (.submit [joinedPart, leftPart] :: threeDone)
    (Engine.updateParts env w.engine [leftPart, joinedPart]).1 = ⟨3, 1, []⟩ ∧
      (Engine.updateParts env w.engine [joinedPart, leftPart]).1 = ⟨3, 0, []⟩ ∧
      one.engine.ownerOf ⟨1⟩ = some ⟨"lib"⟩ ∧
      one.engine.storage.store.sources ≠ other.engine.storage.store.sources ∧
      Engine.AlikeByPath one.engine other.engine := by
  intro w env one other
  have hreachable : w.TextReachable lastArgument := ⟨threeFileDisk, 1, oneIndexed, rfl, by decide⟩
  have hparts : Engine.Compatible [leftPart, joinedPart] :=
    ⟨by decide, by decide, by decide, by decide⟩
  have hwatched : forall x : Engine, x.watcher.unwatchable = ∅ -> forall parts, x.CanWatch parts := by
    intro x hnone parts part hpart p hp file hpath
    rw [Watcher.isUnwatchable, hnone]
    rfl
  have hruns : w.AtRest ∧ one.AtRest ∧ other.AtRest ∧
      (Engine.updateParts env w.engine [leftPart, joinedPart]).1 = ⟨3, 1, []⟩ ∧
      (Engine.updateParts env w.engine [joinedPart, leftPart]).1 = ⟨3, 0, []⟩ ∧
      one.engine.ownerOf ⟨1⟩ = some ⟨"lib"⟩ ∧
      one.engine.storage.store.sources ≠ other.engine.storage.store.sources := by decide +kernel
  rcases hruns with ⟨hrest, hone, hother, hreport, hreport', howner, hsources⟩
  exact ⟨hreport, hreport', howner, hsources,
    (part_order_is_immaterial hreachable hrest (fun _ => rfl) hparts (List.Perm.swap _ _ _)
      (hwatched _ (by decide +kernel) _) (hwatched _ (by decide +kernel) _) (by decide)
      hone hother).2.2.2⟩

/-!
# A path that is not text
-/

/-- A path of which the text is also that of paths that are not text. -/
def shownPath : Path := .ofString "/w/\uFFFD"

/-- A path with a byte that starts no character. -/
def brokenPath : Path := ⟨Text.bytesOf "/w/" ++ [0xff]⟩

/-- A disk with two empty files, `/w/a` and one at the path that is text. -/
def shownDisk : Disk := oneFileDisk.put [Text.bytesOf "w", Text.bytesOf "\uFFFD"] (.file [] 0)

/-- The part that has both files at first. -/
def bothPart : Part := ⟨⟨"app"⟩, [shownPath, .ofString "/w/a"], ["-O0"], [], []⟩

/-- The part that the file moves to. -/
def shownPart : Part := ⟨⟨"lib"⟩, [shownPath], ["-O0"], [], []⟩

/--
Both files are indexed, both paths get contents, and those of the path that is text are
taken back, so that the file is watched under it.
-/
def sharing : List Event :=
  [.submit [bothPart], .work 0, .work 0, .work 0, .dispatch, .work 1, .work 1, .work 1, .dispatch,
    .generate [(brokenPath, "y")], .work 2, .work 2, .work 2, .sweep, .generate [(shownPath, "x")],
    .ungenerate [shownPath]]

/-- The one task of the file that moved is done. -/
def movedDone : List Event := [.work 3, .work 3, .work 3, .sweep]

/--
Both files are there, can be watched and are collected, but there are contents at the
other path of the id that one of them has. That file moves to another part, and it stays
watched exactly if the part that it joins is listed first.
-/
theorem shared_id_shows_the_order :
    let w := run lastArgument (fresh shownDisk 1) sharing
    let env := lastArgument.environment w.disk
    let parts := [partWith ["-O0"], shownPart]
    let one := run lastArgument w (.submit parts :: movedDone)
    let other := run lastArgument w (.submit parts.reverse :: movedDone)
    w.Reachable lastArgument ∧ w.AtRest ∧ w.engine.watcher.outbox = [] ∧
      (forall part, part ∈ parts -> part.problem? = none ∧ forall p, p ∈ part.files ->
        w.disk.doesExist p = true ∧
          forall calls, env.backend.accepts calls (Watcher.directoryOf p) = true) ∧
      (parts.map Part.id).Nodup ∧
      (parts.Pairwise fun a b =>
        forall p, p ∈ a.files -> forall q, q ∈ b.files -> p.normalize ≠ q.normalize) ∧
      (Engine.updateParts env w.engine parts).1 = ⟨1, 1, []⟩ ∧
      (Engine.updateParts env w.engine parts.reverse).1 = ⟨1, 0, []⟩ ∧
      one.AtRest ∧ other.AtRest ∧
      one.engine.scheduler.counters = ⟨4, 3, 1, 0, 0⟩ ∧
      other.engine.scheduler.counters = ⟨4, 3, 1, 0, 0⟩ ∧
      one.engine.ownerOf ⟨1⟩ = some ⟨"lib"⟩ ∧ other.engine.ownerOf ⟨1⟩ = some ⟨"lib"⟩ ∧
      one.engine.watcher.unwatchable = ∅ ∧ other.engine.watcher.unwatchable = ∅ ∧
      one.engine.watcher.isWatched ⟨1⟩ = false ∧ other.engine.watcher.isWatched ⟨1⟩ = true := by
  intro w env parts one other
  have hfiles : forall part, part ∈ parts -> part.problem? = none ∧ forall p, p ∈ part.files ->
      w.disk.doesExist p = true ∧ w.disk.doesExist (Watcher.directoryOf p) = true := by
    decide +kernel
  refine ⟨⟨shownDisk, 1, sharing, rfl⟩, by decide +kernel, by decide +kernel, ?_, by decide,
    by decide, by decide +kernel⟩
  intro part hpart
  rcases hfiles part hpart with ⟨hvalid, hthere⟩
  refine ⟨hvalid, fun p hp => ?_⟩
  rcases hthere p hp with ⟨hexists, hdirectory⟩
  exact ⟨hexists, fun _calls => hdirectory⟩

end World
end SymbolIndex
