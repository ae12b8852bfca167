import SymbolIndex.Proofs.Engine.Reachability

/-!
# Which files a submission enqueues

The arguments of a part are stored when it is submitted, before any of its tasks is
run, and whether a file has to be indexed is read off the store the next time. A file
that is there and can be watched is therefore enqueued exactly when the store does not
have the submitted arguments yet, or does not have the file as indexed for the part in
its present state. How the task ended that was to index the file with these arguments
plays no role.
-/

namespace SymbolIndex
namespace Engine

variable {env : Environment} {e : Engine} {accepted before after : List PreparedPart}
  {part : PreparedPart} {file : FileId}

/-- What a part is compared with does not depend on the parts that were applied before it. -/
structure Spared (env : Environment) (id : PartId) (file : FileId) (e e' : Engine) : Prop where
  agrees : e'.Agrees
  sources : e'.storage.store.sources = e.storage.store.sources
  arguments : forall arguments, e'.storage.store.HasArguments id arguments ↔
    e.storage.store.HasArguments id arguments
  indexed : forall status, e'.storage.store.IsIndexed file id status ↔
    e.storage.store.IsIndexed file id status
  seen : currentStatus? env e' file = currentStatus? env e file

theorem Agrees.spared_applyPart (h : e.Agrees) (env : Environment) {other : PreparedPart}
    (hsources : forall file, file ∈ other.files -> e.storage.store.hasSource file = true)
    {id : PartId} (hid : other.id ≠ id) (hfile : file ∉ other.files) :
    Spared env id file e (Engine.applyPart env e other).2 := by
  have happlied := (h.applyPart env hsources).2
  refine
    { agrees := happlied.agrees
      sources := happlied.sources
      arguments := ?_
      indexed := ?_
      seen := by rw [currentStatus?, currentStatus?, happlied.paths, happlied.overlay] }
  · intro arguments
    rw [Store.HasArguments, Store.HasArguments, happlied.stored, if_neg hid]
  · intro status
    by_cases hgone : file ∈ e.departed other
    · -- the file was a member of the other part, and so is what the store has of it
      have hmember := ((h.mem_departed file).mp hgone).1
      have hold : ¬ e.storage.store.IsIndexed file id status := by
        rintro ⟨row, hrow, hpart, -⟩
        have htracked := h.store.tracked file row hrow
        rw [hmember, hpart] at htracked
        exact hid (Option.some.inj htracked)
      have hnew : ¬ (Engine.applyPart env e other).2.storage.store.IsIndexed file id status := by
        rintro ⟨row, hrow, -⟩
        rw [happlied.statuses, if_pos hgone] at hrow
        cases hrow
      exact ⟨fun hindexed => absurd hindexed hnew, fun hindexed => absurd hindexed hold⟩
    · rw [Store.IsIndexed, Store.IsIndexed, (happlied.sameAt h hfile hgone).status]

theorem Agrees.spared_applyParts (h : e.Agrees) (env : Environment) (hsources : Sourced e before) {id : PartId}
    (hid : id ∉ before.map PreparedPart.id)
    (hfile : forall other, other ∈ before -> file ∉ other.files) :
    Spared env id file e (Engine.applyParts env e before).2 := by
  induction before generalizing e with
  | nil => exact ⟨h, rfl, fun _ => Iff.rfl, fun _ => Iff.rfl, rfl⟩
  | cons other rest ih =>
      rw [List.map_cons, List.mem_cons, not_or] at hid
      have hone := h.spared_applyPart env (hsources other List.mem_cons_self)
        (Ne.symm hid.1) (hfile other List.mem_cons_self)
      have hrest := ih hone.agrees (hsources.tail hone.sources) hid.2
        (fun next hnext => hfile next (List.mem_cons_of_mem _ hnext))
      rw [applyParts_cons]
      exact
        { agrees := hrest.agrees
          sources := hrest.sources.trans hone.sources
          arguments := fun arguments => (hrest.arguments arguments).trans (hone.arguments arguments)
          indexed := fun status => (hrest.indexed status).trans (hone.indexed status)
          seen := hrest.seen.trans hone.seen }

/--
Among the parts of a submission, one alone decides about each of its files: by the
arguments and the statuses that were stored before the submission.
-/
theorem Agrees.mem_submissionTasks_iff (h : e.Agrees) (env : Environment)
    (hsources : Sourced e (before ++ part :: after))
    (hdisjoint : (before ++ part :: after).Pairwise fun a b =>
      forall file, file ∈ a.files -> file ∉ b.files)
    (hid : part.id ∉ (before ++ after).map PreparedPart.id) (hfile : file ∈ part.files) :
    (part.task file ∈ submissionTasks env e (before ++ part :: after) ↔
      (Engine.applyParts env e (before ++ part :: after)).2.watcher.isUnwatchable file = false ∧
        exists status, currentStatus? env e file = some status ∧
          (¬ e.storage.store.HasArguments part.id part.arguments ∨
            ¬ e.storage.store.IsIndexed file part.id status)) ∧
      (part.task file ∈ submissionTasks env e (before ++ part :: after) ->
        (Engine.applyParts env e (before ++ part :: after)).2.scheduler.queue.get? file =
          some (part.task file)) := by
  rw [List.map_append, List.mem_append, not_or] at hid
  rcases List.pairwise_append.mp hdisjoint with ⟨-, hfirst, hcross⟩
  have hbefore : forall other, other ∈ before -> file ∉ other.files := by
    intro other hother hmem
    exact hcross other hother part List.mem_cons_self file hmem hfile
  have hafter : forall other, other ∈ after -> file ∉ other.files :=
    fun other hother => (List.pairwise_cons.mp hfirst).1 other hother file hfile
  have hspared := h.spared_applyParts env
    (fun other hother => hsources other (List.mem_append_left _ hother)) hid.1 hbefore
  have hsources' : Sourced (Engine.applyParts env e before).2 (part :: after) := by
    intro other hother listed hlisted
    rw [Store.hasSource, Store.source?_of_sources_eq hspared.sources]
    exact hsources other (List.mem_append_right _ hother) listed hlisted
  have hown := hsources' part List.mem_cons_self
  have happlied := (hspared.agrees.applyPart env hown).2
  have hkept : SameAt file (Engine.applyPart env (Engine.applyParts env e before).2 part).2
      (Engine.applyParts env e (before ++ part :: after)).2 := by
    rw [applyParts_append, applyParts_cons]
    refine happlied.agrees.sameAt_applyParts (hsources'.tail happlied.sources) ?_ hid.2 hafter
    rw [happlied.members, if_pos hfile]
  have hmem : part.task file ∈ submissionTasks env e (before ++ part :: after) ↔
      file ∈ (tasksOf env (Engine.applyParts env e before).2 part).map Task.file := by
    rw [submissionTasks_append, submissionTasks, List.mem_append, List.mem_append, List.mem_map]
    constructor
    · rintro (hold | hnew | hlater)
      · rcases file_of_mem_submissionTasks hold with ⟨other, hother, hlisted⟩
        exact absurd hlisted (hbefore other hother)
      · exact ⟨part.task file, hnew, rfl⟩
      · rcases file_of_mem_submissionTasks hlater with ⟨other, hother, hlisted⟩
        exact absurd hlisted (hafter other hother)
    · rintro ⟨task, htask, rfl⟩
      rw [← (mem_tasksOf.mp htask).1]
      exact Or.inr (Or.inl htask)
  constructor
  · rw [hmem, hspared.agrees.mem_tasksOf_iff hown, hkept.watch, hspared.seen,
      hspared.arguments]
    simp only [hspared.indexed, hfile, true_and]
  · intro htask
    rw [hkept.queued, happlied.queued, if_pos (hmem.mp htask)]

/-- What a submission enqueues is decided by what was stored before it. -/
theorem Agrees.submission_enqueues_iff (h : e.Agrees) (env : Environment) {parts : List Part}
    (haccepted : (Engine.prepare ∅ e parts).1.1 = before ++ part :: after)
    (hid : part.id ∉ (before ++ after).map PreparedPart.id) (hfile : file ∈ part.files)
    {status : FileStatus}
    (hthere : currentStatus? env (Engine.prepare ∅ e parts).2 file = some status)
    (hwatchable : (Engine.applyParts env (Engine.prepare ∅ e parts).2
      (Engine.prepare ∅ e parts).1.1).2.watcher.isUnwatchable file = false) :
    let checked := Engine.prepare ∅ e parts
    let tasks := submissionTasks env checked.2 checked.1.1
    (Engine.updateParts env e parts).1.enqueued = tasks.length ∧
      (part.task file ∈ tasks ↔
        ¬ e.storage.store.HasArguments part.id part.arguments ∨
          ¬ e.storage.store.IsIndexed file part.id status) ∧
      (part.task file ∈ tasks ->
        (Engine.applyParts env checked.2 checked.1.1).2.scheduler.queue.get? file =
          some (part.task file)) := by
  intro checked tasks
  rcases h.prepare ∅ parts with ⟨hagrees, hinterned, hchecks, -⟩
  have hsources := hchecks.sourced
  have hdisjoint := hchecks.disjoint
  refine ⟨(hagrees.report_applyParts _ hsources).1, ?_⟩
  simp only [tasks, checked]
  rw [haccepted] at hsources hdisjoint hwatchable ⊢
  rcases hagrees.mem_submissionTasks_iff env hsources hdisjoint hid hfile with
    ⟨hiff, hqueued⟩
  refine ⟨hiff.trans ?_, hqueued⟩
  simp only [hwatchable, hthere, true_and, Option.some.injEq, exists_eq_left', Store.HasArguments,
    Store.IsIndexed, hinterned.stored, hinterned.statuses]

end Engine

namespace World

/--
Which files a submission enqueues in a world that may have any history, restarts
included. The files of a part of which the submission has no second version are
enqueued, if they are there and can be watched, exactly when the store did not have the
submitted arguments or did not have the file as indexed for this part in the state in
which it is now. The tasks are queued with the submitted arguments, and the report
counts them.
-/
theorem submit_enqueues_iff {s : Surroundings} {w : World} (hw : w.Reachable s)
    {parts : List Part} {before after : List PreparedPart} {part : PreparedPart}
    (haccepted : (Engine.prepare ∅ w.engine parts).1.1 = before ++ part :: after)
    (hid : part.id ∉ (before ++ after).map PreparedPart.id)
    {file : FileId} (hfile : file ∈ part.files) {status : FileStatus}
    (hthere : Engine.currentStatus? (s.environment w.disk)
      (Engine.prepare ∅ w.engine parts).2 file = some status)
    (hwatchable : (happen s w (.submit parts)).engine.watcher.isUnwatchable file = false) :
    let env := s.environment w.disk
    let checked := Engine.prepare ∅ w.engine parts
    let tasks := Engine.submissionTasks env checked.2 checked.1.1
    (Engine.updateParts env w.engine parts).1.enqueued = tasks.length ∧
      (part.task file ∈ tasks ↔
        ¬ w.engine.storage.store.HasArguments part.id part.arguments ∨
          ¬ w.engine.storage.store.IsIndexed file part.id status) ∧
      (part.task file ∈ tasks ->
        (Engine.applyParts env checked.2 checked.1.1).2.scheduler.queue.get? file =
          some (part.task file)) := by
  intro env checked tasks
  have hwatch : (Engine.applyParts env checked.2 checked.1.1).2.watcher.isUnwatchable file =
      false := by
    rw [← hwatchable]
    show _ = (Engine.updateParts env w.engine parts).2.watcher.isUnwatchable file
    unfold Engine.updateParts
    dsimp only
    split <;> rfl
  exact hw.agrees.submission_enqueues_iff env haccepted hid hfile hthere hwatch

/-!
# A task that fails
-/

/-- One symbol is collected without optimisation, and nothing can be collected with it. -/
def unoptimisedOnly : Surroundings where
  collect := fun _ _ p arguments =>
    if arguments = ["-O0"] then .results ⟨[⟨"c:a", .callable, "a"⟩], []⟩
    else .failed (.parse p "cannot be optimised")
  backend := .ofDisk
  fails := fun _ => none

/-- The file is indexed without optimisation, then it fails to be indexed with it. -/
def failingHistory : List Event :=
  [.submit [partWith ["-O0"]], .work 0, .work 0, .work 0, .dispatch,
    .submit [partWith ["-O2"]], .work 1, .work 1, .dispatch]

def failedWorld : World := run unoptimisedOnly (fresh oneFileDisk 1) failingHistory

/-- Submitting the part with arguments that are new enqueues the file. -/
theorem submit_enqueues_new_arguments :
    (⟨⟨1⟩, ⟨"app"⟩, ["-O3"]⟩ : Task) ∈ Engine.submissionTasks
      (unoptimisedOnly.environment failedWorld.disk)
      (Engine.prepare ∅ failedWorld.engine [partWith ["-O3"]]).2
      (Engine.prepare ∅ failedWorld.engine [partWith ["-O3"]]).1.1 := by
  have hreachable : failedWorld.Reachable unoptimisedOnly := ⟨_, _, _, rfl⟩
  have hiff := @submit_enqueues_iff _ _ hreachable [partWith ["-O3"]] [] []
    ⟨⟨"app"⟩, ["-O3"], [⟨1⟩]⟩ (by decide +kernel) (by decide) ⟨1⟩ (by decide) ⟨0, 0⟩
    (by decide +kernel) (by decide +kernel)
  refine hiff.2.1.mpr (Or.inl ?_)
  unfold Store.HasArguments
  decide +kernel

/--
After the task failed, the file is there and can be watched, and the last time it was
indexed was with the former arguments. Submitting the part again enqueues nothing, and
neither does submitting it to a new engine on the same store.
-/
theorem failed_task_is_forgotten :
    failedWorld.Reachable unoptimisedOnly ∧
      failedWorld.engine.scheduler.reports.map (fun report => report.outcome.isFailure) =
        [false, true] ∧
      failedWorld.engine.storage.store.HasArguments ⟨"app"⟩ ["-O2"] ∧
      Engine.currentStatus? (unoptimisedOnly.environment failedWorld.disk) failedWorld.engine
        ⟨1⟩ = some ⟨0, 0⟩ ∧
      failedWorld.engine.watcher.isUnwatchable ⟨1⟩ = false ∧
      (Engine.updateParts (unoptimisedOnly.environment failedWorld.disk) failedWorld.engine
        [partWith ["-O2"]]).1 = ⟨0, 0, []⟩ ∧
      (Engine.updateParts (unoptimisedOnly.environment failedWorld.disk)
        (failedWorld.engine.restart 1) [partWith ["-O2"]]).1 = ⟨0, 0, []⟩ := by
  refine ⟨⟨_, _, _, rfl⟩, by decide +kernel, ?_, by decide +kernel, by decide +kernel,
    by decide +kernel, by decide +kernel⟩
  unfold Store.HasArguments
  decide +kernel

end World
end SymbolIndex
