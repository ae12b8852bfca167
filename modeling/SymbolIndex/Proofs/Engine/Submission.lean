import SymbolIndex.Proofs.Engine.Adoption

/-!
# What a submission does

Applying a part lets the files go that left it, makes it the owner of its files and
enqueues the files that are due. All of this is decided by the store and by what can be
seen of the files: a file is due when the part is not stored with its arguments, or when
the store does not have the file as indexed for the part in the state that was seen.
-/

namespace SymbolIndex

namespace Store

/-- The store has a file as indexed for a part in a state. -/
def IsIndexed (s : Store) (file : FileId) (part : PartId) (status : FileStatus) : Prop :=
  exists row, s.statuses.get? file = some row ∧ row.part = part ∧ row.status = status

/-- The store has a part with these arguments. -/
def HasArguments (s : Store) (part : PartId) (arguments : List String) : Prop :=
  s.parts.get? part = some (.written arguments)

end Store

/-- The task that indexes a file as a part asks. -/
def PreparedPart.task (part : PreparedPart) (file : FileId) : Task :=
  ⟨file, part.id, part.arguments⟩

namespace Engine

theorem taskFor?_eq_some_iff (e : Engine) (file : FileId) (task : Task) :
    e.taskFor? file = some task ↔
      exists part snapshot, e.ownerOf file = some part ∧ e.parts.get? part = some snapshot ∧
        task = ⟨file, part, snapshot.arguments⟩ := by
  unfold taskFor? ownerOf
  cases e.owners.get? file with
  | none => simp
  | some part =>
      cases hsnapshot : e.parts.get? part with
      | none => simp [hsnapshot]
      | some snapshot => simp [hsnapshot, eq_comm]

variable {env : Environment} {e e' : Engine} {part : PreparedPart}

/-- The files that leave a part. -/
def departed (e : Engine) (part : PreparedPart) : List FileId :=
  (((e.known part.id).map Snapshot.files).getD []).filter fun file =>
    !part.files.contains file && e.isFreeFor part.id file

theorem Agrees.mem_departed (h : e.Agrees) (file : FileId) :
    file ∈ e.departed part ↔
      e.storage.store.members.get? file = some part.id ∧ file ∉ part.files := by
  rw [departed, List.mem_filter, h.mem_known_files]
  constructor
  · rintro ⟨hmember, hleft⟩
    rw [Bool.and_eq_true] at hleft
    exact ⟨hmember, by simpa using hleft.1⟩
  · rintro ⟨hmember, hfile⟩
    refine ⟨hmember, ?_⟩
    rw [h.isFreeFor_of_member hmember]
    simpa using hfile

/-- Whether a part is submitted with other arguments than are known. -/
def argumentsChanged (e : Engine) (part : PreparedPart) : Bool :=
  decide ((e.known part.id).map Snapshot.arguments ≠ some part.arguments)

theorem Agrees.argumentsChanged_iff (h : e.Agrees) :
    e.argumentsChanged part = true ↔
      ¬ e.storage.store.HasArguments part.id part.arguments := by
  rw [argumentsChanged, decide_eq_true_iff, ne_eq, h.known_arguments_iff, Store.HasArguments]

/-- The tasks that applying a part enqueues, one for each of its files that is due then. -/
def tasksOf (env : Environment) (e : Engine) (part : PreparedPart) : List Task :=
  (part.files.filter (isDue env (applyPart env e part).2 (e.argumentsChanged part))).map
    part.task

theorem mem_tasksOf {task : Task} :
    task ∈ tasksOf env e part ↔
      task = part.task task.file ∧ task.file ∈ part.files ∧
        isDue env (applyPart env e part).2 (e.argumentsChanged part) task.file = true := by
  rw [tasksOf, List.mem_map]
  constructor
  · rintro ⟨file, hfile, rfl⟩
    exact ⟨rfl, List.mem_filter.mp hfile⟩
  · rintro ⟨htask, hfile⟩
    exact ⟨task.file, List.mem_filter.mpr hfile, htask.symm⟩

/-!
# Applying one part
-/

/-- The state after a part was applied, by what it was before. -/
structure Applied (env : Environment) (part : PreparedPart) (e e' : Engine) : Prop where
  agrees : e'.Agrees
  owners : forall file, e'.ownerOf file =
    if file ∈ part.files then some part.id
    else if file ∈ e.departed part then none else e.ownerOf file
  snapshots : forall id, (e'.parts.get? id).map Snapshot.arguments =
    if id = part.id then some part.arguments else (e.parts.get? id).map Snapshot.arguments
  members : forall file, e'.storage.store.members.get? file =
    if file ∈ part.files then some part.id
    else if file ∈ e.departed part then none else e.storage.store.members.get? file
  stored : forall id, e'.storage.store.parts.get? id =
    if part.id = id then some (.written part.arguments) else e.storage.store.parts.get? id
  sources : e'.storage.store.sources = e.storage.store.sources
  statuses : forall file, e'.storage.store.statuses.get? file =
    if file ∈ e.departed part then none
    else (e.storage.store.statuses.get? file).filter fun row =>
      !Store.takesAway part.id part.files file row.part
  records : forall file,
    e'.storage.store.statuses.get? file = e.storage.store.statuses.get? file ->
      e'.storage.store.recordsAt file = e.storage.store.recordsAt file
  paths : forall id, e'.path? id = e.path? id
  overlay : e'.overlay = e.overlay
  watcher : e'.watcher =
    (e.retire (e.departed part)).watcher.add env.backend (e.watchable part.files)
  known : e.book.Extends e'.book
  scheduler : exists queue, e'.scheduler = { e.scheduler with queue } ∧
    forall file, queue.get? file =
      if file ∈ (tasksOf env e part).map Task.file then some (part.task file)
      else if file ∈ e.departed part then none else e.scheduler.queue.get? file

theorem get?_addOrUpdate_tasks (q : TaskQueue) {tasks : List Task}
    (h : forall task, task ∈ tasks -> task = part.task task.file) (file : FileId) :
    (q.addOrUpdate tasks).get? file =
      if file ∈ tasks.map Task.file then some (part.task file) else q.get? file := by
  by_cases hfile : file ∈ tasks.map Task.file
  · rw [if_pos hfile]
    rcases List.mem_map.mp hfile with ⟨task, htask, rfl⟩
    rcases TaskQueue.exists_get?_addOrUpdate (q := q) htask with ⟨newest, hnewest, hsame, hget⟩
    rw [hget, h newest hnewest, hsame]
  · rw [if_neg hfile, TaskQueue.get?_addOrUpdate, List.find?_eq_none.mpr, Option.none_or]
    intro task htask hsame
    refine hfile (List.mem_map.mpr ⟨task, List.mem_reverse.mp htask, ?_⟩)
    simpa using hsame

theorem watchable_congr (hpaths : forall id, e'.path? id = e.path? id)
    (hoverlay : e'.overlay = e.overlay) (files : List FileId) :
    e'.watchable files = e.watchable files := by
  simp only [watchable, hpaths, hoverlay]

theorem mem_watchable {e : Engine} {files : List FileId} {f : FileId × Path} :
    f ∈ e.watchable files ↔
      f.1 ∈ files ∧ e.path? f.1 = some f.2 ∧ e.overlay.contains f.2 = false := by
  rw [watchable, List.mem_filterMap]
  constructor
  · rintro ⟨file, hfile, hf⟩
    split at hf
    · rename_i p hp
      split at hf
      · cases hf
      · rename_i hcontents
        cases hf
        exact ⟨hfile, hp, by simpa using hcontents⟩
    · cases hf
  · rintro ⟨hfile, hp, hcontents⟩
    refine ⟨f.1, hfile, ?_⟩
    rw [hp]
    simp [hcontents]

theorem path?_of_watchable (e : Engine) (files : List FileId) :
    forall f, f ∈ e.watchable files -> e.path? f.1 = some f.2 :=
  fun _ hf => (mem_watchable.mp hf).2.1

theorem map_fst_watchable (e : Engine) (files : List FileId) {file : FileId}
    (h : file ∈ (e.watchable files).map Prod.fst) : file ∈ files := by
  rcases List.mem_map.mp h with ⟨f, hf, rfl⟩
  exact (mem_watchable.mp hf).1

theorem sameFiles_iff (a b : List FileId) :
    sameFiles a b = true ↔ forall file, file ∈ a ↔ file ∈ b := by
  simp only [sameFiles, Bool.and_eq_true, List.all_eq_true, List.contains_eq_mem,
    decide_eq_true_iff]
  exact ⟨fun h file => ⟨h.1 file, h.2 file⟩, fun h => ⟨fun file => (h file).mp,
    fun file => (h file).mpr⟩⟩

theorem Agrees.adopt_of_retire (h : e.Agrees)
    (hsources : forall file, file ∈ part.files -> e.storage.store.hasSource file = true) :
    exists owning, (part.files.foldl (takeOver part.id) (e.retire (e.departed part))).storePart
        part (e.argumentsChanged part ||
          !sameFiles (((e.known part.id).map Snapshot.files).getD []) part.files) = .ok owning ∧
      Adopted part (e.retire (e.departed part)) (owning.adopt part) ∧
      (owning.adopt part).Agrees := by
  rcases h.retire (e.departed part) with ⟨hgo, hagrees⟩
  apply hagrees.adopt _
  · intro file hmember
    rw [hgo.members] at hmember
    split at hmember
    · cases hmember
    · rename_i hstays
      by_contra hfile
      exact hstays ((h.mem_departed file).mpr ⟨hmember, hfile⟩)
  · intro file hfile
    rw [Store.hasSource, Store.source?_of_sources_eq hgo.sources]
    exact hsources file hfile
  · intro hsame
    rw [Bool.or_eq_false_iff, Bool.not_eq_false', sameFiles_iff] at hsame
    constructor
    · intro file hfile
      have hstays : file ∉ e.departed part :=
        fun hgone => ((h.mem_departed file).mp hgone).2 hfile
      rw [hgo.members, if_neg hstays, ← h.mem_known_files, hsame.2]
      exact hfile
    · rw [hgo.stored]
      by_contra hother
      have hchanged := h.argumentsChanged_iff.mpr hother
      rw [hsame.1] at hchanged
      cases hchanged

/-- The end of applying a part: its files are watched and looked at, and those due enqueued. -/
def enqueueDue (env : Environment) (argumentsChanged : Bool) (e : Engine) (part : PreparedPart) :
    Nat × Engine :=
  let watched := (part.files.foldl consult e).watch env (e.watchable part.files)
  let outdated := candidates env argumentsChanged watched part.files
  outdated.2.reindex outdated.1

theorem Agrees.enqueueDue (h : e.Agrees) (env : Environment) (argumentsChanged : Bool)
    (howner : forall file, file ∈ part.files -> e.taskFor? file = some (part.task file)) :
    exists tasks, tasks = (part.files.filter (isDue env
        (Engine.enqueueDue env argumentsChanged e part).2 argumentsChanged)).map part.task ∧
      (Engine.enqueueDue env argumentsChanged e part).1 = tasks.length ∧
      (Engine.enqueueDue env argumentsChanged e part).2.scheduler =
        { e.scheduler with queue := e.scheduler.queue.addOrUpdate tasks } ∧
      (Engine.enqueueDue env argumentsChanged e part).2.watcher =
        e.watcher.add env.backend (e.watchable part.files) ∧
      (Engine.enqueueDue env argumentsChanged e part).2.storage = e.storage ∧
      (Engine.enqueueDue env argumentsChanged e part).2.owners = e.owners ∧
      (Engine.enqueueDue env argumentsChanged e part).2.parts = e.parts ∧
      (Engine.enqueueDue env argumentsChanged e part).2.overlay = e.overlay ∧
      (forall id, (Engine.enqueueDue env argumentsChanged e part).2.path? id = e.path? id) ∧
      (Engine.enqueueDue env argumentsChanged e part).2.Agrees := by
  let watched := (part.files.foldl consult e).watch env (e.watchable part.files)
  let seen := (candidates env argumentsChanged watched part.files).2
  have hasked : Alike e (part.files.foldl consult e) := alike_foldl alike_consult e part.files
  rcases candidates_spec env argumentsChanged watched part.files with ⟨hfilter, hseen⟩
  have hdue : isDue env (Engine.enqueueDue env argumentsChanged e part).2 argumentsChanged =
      isDue env watched argumentsChanged := by
    funext file
    exact hseen.isDue env argumentsChanged file
  have htasks : (candidates env argumentsChanged watched part.files).1.filterMap seen.taskFor? =
      (part.files.filter (isDue env watched argumentsChanged)).map part.task := by
    rw [hfilter, ← List.filterMap_eq_map']
    apply List.filterMap_congr
    intro file hfile
    have hsame : watched.taskFor? file = e.taskFor? file := hasked.taskFor? file
    rw [hseen.taskFor?, hsame, howner file (List.mem_filter.mp hfile).1]
  have hscheduler : seen.scheduler = e.scheduler := hseen.scheduler.trans hasked.scheduler
  have hagrees : seen.Agrees := ((h.of_alike hasked).with_watcher _).of_alike hseen
  refine ⟨_, rfl, ?_, ?_, ?_, hseen.storage.trans hasked.storage,
    hseen.owners.trans hasked.owners, hseen.parts.trans hasked.parts,
    hseen.overlay.trans hasked.overlay, ?_, ?_⟩
  · rw [hdue]
    exact congrArg List.length htasks
  · rw [hdue, ← htasks, ← hscheduler]
    rfl
  · rw [← hasked.watcher]
    exact hseen.watcher
  · intro id
    exact (hseen.paths id).trans (hasked.paths id)
  · apply hagrees.with_scheduler (hagrees.queue.addOrUpdate _)
    intro file task htask
    rcases TaskQueue.get?_addOrUpdate_eq_some htask with ⟨hmem, hfile⟩ | ⟨-, hold⟩
    · rcases List.mem_filterMap.mp hmem with ⟨other, -, hother⟩
      rcases (taskFor?_eq_some_iff _ other task).mp hother with ⟨id, snapshot, hid, -, rfl⟩
      exact ⟨id, by rw [← hfile]; exact hid⟩
    · exact hagrees.pending file task hold

theorem extends_enqueueDue (env : Environment) (argumentsChanged : Bool) (e : Engine)
    (part : PreparedPart) :
    e.book.Extends (Engine.enqueueDue env argumentsChanged e part).2.book := by
  let watched := (part.files.foldl consult e).watch env (e.watchable part.files)
  have hasked : Alike e (part.files.foldl consult e) := alike_foldl alike_consult e part.files
  exact hasked.known.trans (candidates_spec env argumentsChanged watched part.files).2.known

theorem Adopted.taskFor? (h : Adopted part e e') {file : FileId} (hfile : file ∈ part.files) :
    e'.taskFor? file = some (part.task file) := by
  rw [taskFor?_eq_some_iff]
  exact ⟨part.id, ⟨part.arguments, part.files⟩, by rw [h.owners, if_pos hfile],
    by rw [h.parts, if_pos rfl], rfl⟩

theorem Agrees.applyPart_eq (h : e.Agrees) (env : Environment)
    (hsources : forall file, file ∈ part.files -> e.storage.store.hasSource file = true) :
    exists owning, (part.files.foldl (takeOver part.id) (e.retire (e.departed part))).storePart
        part (e.argumentsChanged part ||
          !sameFiles (((e.known part.id).map Snapshot.files).getD []) part.files) = .ok owning ∧
      Adopted part (e.retire (e.departed part)) (owning.adopt part) ∧
      (owning.adopt part).Agrees ∧
      Engine.applyPart env e part =
        (.ok ((Engine.enqueueDue env (e.argumentsChanged part) (owning.adopt part) part).1,
          (e.departed part).length),
          (Engine.enqueueDue env (e.argumentsChanged part) (owning.adopt part) part).2) := by
  rcases h.adopt_of_retire hsources with ⟨owning, hstore, hadopted, hagrees⟩
  refine ⟨owning, hstore, hadopted, hagrees, ?_⟩
  unfold Engine.applyPart
  rw [h.previous_eq]
  unfold departed argumentsChanged at hstore
  dsimp only
  rw [hstore]
  rfl

theorem Agrees.applyPart (h : e.Agrees) (env : Environment)
    (hsources : forall file, file ∈ part.files -> e.storage.store.hasSource file = true) :
    (Engine.applyPart env e part).1 =
        .ok ((tasksOf env e part).length, (e.departed part).length) ∧
      Applied env part e (Engine.applyPart env e part).2 := by
  rcases h.retire (e.departed part) with ⟨hgo, -⟩
  rcases scheduler_retire e (e.departed part) with ⟨queue, hretired, hqueue⟩
  rcases h.applyPart_eq env hsources with ⟨owning, -, hadopted, hagrees, hequation⟩
  rcases hagrees.enqueueDue env (e.argumentsChanged part) (fun _ => hadopted.taskFor?) with
    ⟨tasks, htasks, hcount, hscheduler, hwatcher, hstorage, howners, hparts, hoverlay, hpaths,
      hdone⟩
  have hsame : tasksOf env e part = tasks := by
    rw [tasksOf, hequation, htasks]
  have hstays : forall file, file ∈ part.files -> file ∉ e.departed part :=
    fun file hfile hgone => ((h.mem_departed file).mp hgone).2 hfile
  have howning : forall id, (owning.adopt part).path? id = e.path? id := by
    intro id
    rw [path?, hadopted.book, PathBook.path?_of_sources_eq hadopted.sources]
    exact hgo.path? id
  rw [hequation, hsame]
  refine ⟨by rw [hcount], ?_⟩
  refine
    { agrees := hdone
      owners := ?_
      snapshots := ?_
      members := ?_
      stored := ?_
      sources := ?_
      statuses := ?_
      records := ?_
      paths := ?_
      overlay := hoverlay.trans (hadopted.overlay.trans hgo.overlay)
      watcher := ?_
      known := ?_
      scheduler := ?_ }
  · intro file
    rw [ownerOf, howners]
    apply (hadopted.owners file).trans
    rw [hgo.owners]
  · intro id
    rw [hparts, hadopted.parts, hgo.parts]
    by_cases hid : id = part.id
    · rw [if_pos hid, if_pos hid, Option.map_some]
    · rw [if_neg hid, if_neg hid, Option.map_map, Option.map_map]
      rfl
  · intro file
    rw [hstorage, hadopted.members, hgo.members]
  · intro id
    rw [hstorage, hadopted.stored, hgo.stored]
  · rw [hstorage, hadopted.sources, hgo.sources]
  · intro file
    rw [hstorage, hadopted.statuses, hgo.statuses]
    by_cases hgone : file ∈ e.departed part
    · rw [if_pos hgone, if_pos hgone, Option.filter_none]
    · rw [if_neg hgone, if_neg hgone]
  · intro file hstatus
    rw [hstorage] at hstatus ⊢
    by_cases hgone : file ∈ e.departed part
    · -- the records of a file that is gone are blank, and so are those of one without status
      have hnone : (owning.adopt part).storage.store.statuses.get? file = none := by
        rw [hadopted.statuses, hgo.statuses, if_pos hgone, Option.filter_none]
      rw [hagrees.store.blank file hnone, h.store.blank file (hstatus.symm.trans hnone)]
    · rw [hadopted.records file, hgo.records file hgone]
      rw [hstatus, hgo.statuses, if_neg hgone]
  · exact fun id => (hpaths id).trans (howning id)
  · rw [hwatcher, hadopted.watcher,
      watchable_congr howning (hadopted.overlay.trans hgo.overlay)]
  · rw [← hgo.book, ← hadopted.book]
    exact extends_enqueueDue env _ _ part
  · refine ⟨(owning.adopt part).scheduler.queue.addOrUpdate tasks, ?_, ?_⟩
    · rw [hscheduler, hadopted.scheduler, hretired]
    · intro file
      have hform : forall task, task ∈ tasks -> task = part.task task.file := by
        intro task htask
        rw [htasks] at htask
        rcases List.mem_map.mp htask with ⟨other, -, rfl⟩
        rfl
      rw [get?_addOrUpdate_tasks _ hform, hadopted.scheduler, hretired, hsame]
      dsimp only
      rw [hqueue]

/-- The files that are enqueued, by what the store and the eye said before. -/
theorem Agrees.mem_tasksOf_iff (h : e.Agrees)
    (hsources : forall file, file ∈ part.files -> e.storage.store.hasSource file = true)
    (file : FileId) :
    file ∈ (tasksOf env e part).map Task.file ↔
      file ∈ part.files ∧ (Engine.applyPart env e part).2.watcher.isUnwatchable file = false ∧
        exists status, currentStatus? env e file = some status ∧
          (¬ e.storage.store.HasArguments part.id part.arguments ∨
            ¬ e.storage.store.IsIndexed file part.id status) := by
  rcases h.applyPart env hsources with ⟨-, happlied⟩
  have hseen : currentStatus? env (Engine.applyPart env e part).2 file =
      currentStatus? env e file := by
    rw [currentStatus?, currentStatus?, happlied.paths, happlied.overlay]
  have hmem : file ∈ (tasksOf env e part).map Task.file ↔ file ∈ part.files ∧
      isDue env (Engine.applyPart env e part).2 (e.argumentsChanged part) file = true := by
    rw [tasksOf, List.map_map, show Task.file ∘ part.task = id from rfl, List.map_id,
      List.mem_filter]
  rw [hmem, isDue_iff, hseen, h.argumentsChanged_iff]
  apply and_congr_right
  intro hfile
  apply and_congr_right
  intro _hwatchable
  apply exists_congr
  intro status
  apply and_congr_right
  intro _hstatus
  apply or_congr_right
  have hstays : file ∉ e.departed part := fun hgone => ((h.mem_departed file).mp hgone).2 hfile
  have hrow : (Engine.applyPart env e part).2.storage.store.indexedFile? file =
      ((e.storage.store.statuses.get? file).filter fun row => decide (row.part = part.id)).map
        fun row => ⟨file, row.part, row.status⟩ := by
    rw [Store.indexedFile?, happlied.statuses, if_neg hstays]
    congr 2
    funext row
    simp [Store.takesAway, hfile]
  rw [isOutdated, happlied.owners, if_pos hfile, hrow, Store.IsIndexed]
  cases e.storage.store.statuses.get? file with
  | none => simp
  | some row =>
      by_cases hpart : row.part = part.id
      · simp [hpart, Option.filter_some]
      · simp [hpart, Option.filter_some]

/-!
# Files of other parts
-/

theorem taskFor?_eq (e : Engine) (file : FileId) :
    e.taskFor? file = (e.ownerOf file).bind fun part =>
      ((e.parts.get? part).map Snapshot.arguments).map fun arguments => ⟨file, part, arguments⟩ := by
  unfold taskFor? ownerOf
  cases e.owners.get? file with
  | none => rfl
  | some part =>
      cases hsnapshot : e.parts.get? part with
      | none => simp [hsnapshot]
      | some snapshot => simp [hsnapshot]

/-- The second engine holds of one file what the first one held, in memory, store and queue. -/
structure Retains (file : FileId) (e e' : Engine) : Prop where
  owner : e'.ownerOf file = e.ownerOf file
  task : e'.taskFor? file = e.taskFor? file
  member : e'.storage.store.members.get? file = e.storage.store.members.get? file
  status : e'.storage.store.statuses.get? file = e.storage.store.statuses.get? file
  records : e'.storage.store.recordsAt file = e.storage.store.recordsAt file
  queued : e'.scheduler.queue.get? file = e.scheduler.queue.get? file

/-- Two engines to which one file is the same, and can be watched alike. -/
structure SameAt (file : FileId) (e e' : Engine) : Prop extends Retains file e e' where
  watch : e'.watcher.isUnwatchable file = e.watcher.isUnwatchable file

theorem SameAt.refl (file : FileId) (e : Engine) : SameAt file e e :=
  ⟨⟨rfl, rfl, rfl, rfl, rfl, rfl⟩, rfl⟩

theorem SameAt.trans {file : FileId} {e e' e'' : Engine} (h : SameAt file e e')
    (h' : SameAt file e' e'') : SameAt file e e'' where
  owner := h'.owner.trans h.owner
  task := h'.task.trans h.task
  member := h'.member.trans h.member
  status := h'.status.trans h.status
  records := h'.records.trans h.records
  watch := h'.watch.trans h.watch
  queued := h'.queued.trans h.queued

theorem Alike.sameAt (h : Alike e e') (file : FileId) : SameAt file e e' where
  owner := by rw [ownerOf, ownerOf, h.owners]
  task := h.taskFor? file
  member := by rw [h.storage]
  status := by rw [h.storage]
  records := by rw [h.storage]
  watch := by rw [h.watcher]
  queued := by rw [h.scheduler]

theorem Applied.queued (happlied : Applied env part e e') (file : FileId) :
    e'.scheduler.queue.get? file =
      if file ∈ (tasksOf env e part).map Task.file then some (part.task file)
      else if file ∈ e.departed part then none else e.scheduler.queue.get? file := by
  rcases happlied.scheduler with ⟨queue, hscheduler, hqueue⟩
  rw [hscheduler]
  exact hqueue file

theorem Applied.watch (happlied : Applied env part e e') {file : FileId}
    (hfile : file ∉ part.files) (hstays : file ∉ e.departed part) :
    e'.watcher.isUnwatchable file = e.watcher.isUnwatchable file := by
  rw [happlied.watcher]
  refine (Watcher.isUnwatchable_add _ _ _ ?_).trans (isUnwatchable_retire e _ hstays)
  exact fun hmem => hfile (map_fst_watchable _ _ hmem)

theorem notMem_tasksOf {file : FileId} (hfile : file ∉ part.files) :
    file ∉ (tasksOf env e part).map Task.file := by
  intro hmem
  rcases List.mem_map.mp hmem with ⟨task, htask, rfl⟩
  exact hfile (mem_tasksOf.mp htask).2.1

theorem Applied.row_of_row (happlied : Applied env part e e') {file : FileId} {row : StatusRow}
    (hrow : e'.storage.store.statuses.get? file = some row) :
    e.storage.store.statuses.get? file = some row ∧
      e'.storage.store.recordsAt file = e.storage.store.recordsAt file := by
  have hold := hrow
  rw [happlied.statuses] at hold
  split at hold
  · cases hold
  · have hbefore := (Option.filter_eq_some_iff.mp hold).1
    exact ⟨hbefore, happlied.records file (hrow.trans hbefore.symm)⟩

theorem Applied.owned (happlied : Applied env part e e') {file : FileId}
    (howned : forall owner, e.storage.store.members.get? file = some owner ->
      e.ownerOf file = some owner) (owner : PartId)
    (hmember : e'.storage.store.members.get? file = some owner) :
    e'.ownerOf file = some owner := by
  rw [happlied.members] at hmember
  rw [happlied.owners]
  split
  · rename_i hfile
    rw [if_pos hfile] at hmember
    exact hmember
  · rename_i hfile
    rw [if_neg hfile] at hmember
    split
    · rename_i hgone
      rw [if_pos hgone] at hmember
      cases hmember
    · rename_i hstays
      rw [if_neg hstays] at hmember
      exact howned owner hmember

theorem Applied.sameAt (h : e.Agrees) (happlied : Applied env part e e') {file : FileId}
    (hfile : file ∉ part.files) (hstays : file ∉ e.departed part) : SameAt file e e' := by
  have howner : e'.ownerOf file = e.ownerOf file := by
    rw [happlied.owners, if_neg hfile, if_neg hstays]
  have hstatus :
      e'.storage.store.statuses.get? file = e.storage.store.statuses.get? file := by
    rw [happlied.statuses, if_neg hstays]
    cases e.storage.store.statuses.get? file with
    | none => rfl
    | some row => simp [Store.takesAway, hfile, Option.filter_some]
  refine
    { owner := howner
      task := ?_
      member := by rw [happlied.members, if_neg hfile, if_neg hstays]
      status := hstatus
      records := happlied.records file hstatus
      watch := happlied.watch hfile hstays
      queued := by rw [happlied.queued, if_neg (notMem_tasksOf hfile), if_neg hstays] }
  · rw [taskFor?_eq, taskFor?_eq, howner]
    cases hid : e.ownerOf file with
    | none => rfl
    | some id =>
        have hne : id ≠ part.id := by
          rintro rfl
          exact hstays ((h.mem_departed file).mpr ⟨h.member_of_owner hid, hfile⟩)
        rw [Option.bind_some, Option.bind_some, happlied.snapshots, if_neg hne]

theorem Applied.taskFor? (happlied : Applied env part e e') {file : FileId}
    (hfile : file ∈ part.files) : e'.taskFor? file = some (part.task file) := by
  rw [taskFor?_eq, happlied.owners, if_pos hfile, Option.bind_some, happlied.snapshots,
    if_pos rfl]
  rfl

theorem Applied.retains (h : e.Agrees) (happlied : Applied env part e e') {file : FileId}
    (hfile : file ∈ part.files) (howner : e.ownerOf file = some part.id)
    (harguments : e.storage.store.HasArguments part.id part.arguments) {status : FileStatus}
    (hindexed : e.storage.store.IsIndexed file part.id status)
    (hnone : file ∉ (tasksOf env e part).map Task.file) : Retains file e e' := by
  have hstays : file ∉ e.departed part := fun hgone => ((h.mem_departed file).mp hgone).2 hfile
  have hstatus :
      e'.storage.store.statuses.get? file = e.storage.store.statuses.get? file := by
    rcases hindexed with ⟨row, hrow, hpart, -⟩
    rw [happlied.statuses, if_neg hstays, hrow]
    simp [Store.takesAway, hpart, Option.filter_some]
  refine
    { owner := by rw [happlied.owners, if_pos hfile, howner]
      task := ?_
      member := by rw [happlied.members, if_pos hfile, h.member_of_owner howner]
      status := hstatus
      records := happlied.records file hstatus
      queued := by rw [happlied.queued, if_neg hnone, if_neg hstays] }
  rcases (h.owned file part.id).mp howner with ⟨snapshot, hsnapshot, -⟩
  have hstored := h.arguments part.id snapshot hsnapshot
  rw [Store.HasArguments, hstored, Option.some.injEq, StoredArguments.written.injEq]
    at harguments
  rw [happlied.taskFor? hfile, taskFor?_eq, howner, Option.bind_some, hsnapshot,
    Option.map_some, Option.map_some, harguments]
  rfl

theorem Agrees.enqueued_or_retains (h : e.Agrees)
    (hsources : forall file, file ∈ part.files -> e.storage.store.hasSource file = true)
    {file : FileId} (hfile : file ∈ part.files)
    (howned : forall owner, e.storage.store.members.get? file = some owner ->
      e.ownerOf file = some owner)
    {status : FileStatus} (hstatus : currentStatus? env e file = some status)
    (hwatchable : (Engine.applyPart env e part).2.watcher.isUnwatchable file = false) :
    (Engine.applyPart env e part).2.scheduler.queue.get? file = some (part.task file) ∨
      (Retains file e (Engine.applyPart env e part).2 ∧
        e.storage.store.IsIndexed file part.id status) := by
  have happlied := (h.applyPart env hsources).2
  by_cases hdue : file ∈ (tasksOf env e part).map Task.file
  · left
    rw [happlied.queued, if_pos hdue]
  · right
    have hindexed : e.storage.store.HasArguments part.id part.arguments ∧
        e.storage.store.IsIndexed file part.id status := by
      by_contra hmissing
      apply hdue
      exact (h.mem_tasksOf_iff hsources file).mpr
        ⟨hfile, hwatchable, status, hstatus, not_and_or.mp hmissing⟩
    have howner : e.ownerOf file = some part.id := by
      rcases hindexed.2 with ⟨row, hrow, hpart, -⟩
      rw [← hpart]
      exact howned row.part (h.store.tracked file row hrow)
    exact ⟨happlied.retains h hfile howner hindexed.1 hindexed.2 hdue, hindexed.2⟩

/-- How a file fares when a part is applied. -/
inductive Fared (part : PreparedPart) (file : FileId) (e e' : Engine) : Prop where
  | kept (hretains : Retains file e e')
  | enqueued (htask : e'.taskFor? file = some (part.task file))
      (hqueue : e'.scheduler.queue.get? file = some (part.task file))
  | departed (hstatus : e'.storage.store.statuses.get? file = none)
      (htask : e'.taskFor? file = none) (hqueue : e'.scheduler.queue.get? file = none)

theorem Agrees.fared_applyPart (h : e.Agrees)
    (hsources : forall file, file ∈ part.files -> e.storage.store.hasSource file = true)
    {file : FileId}
    (howned : forall owner, e.storage.store.members.get? file = some owner ->
      e.ownerOf file = some owner)
    (hseen : file ∈ part.files ->
      (exists status, currentStatus? env e file = some status) ∧
        (Engine.applyPart env e part).2.watcher.isUnwatchable file = false) :
    Fared part file e (Engine.applyPart env e part).2 := by
  have happlied := (h.applyPart env hsources).2
  by_cases hfile : file ∈ part.files
  · rcases hseen hfile with ⟨⟨status, hstatus⟩, hwatchable⟩
    rcases h.enqueued_or_retains hsources hfile howned hstatus hwatchable with
      hqueued | ⟨hretains, -⟩
    · exact .enqueued (happlied.taskFor? hfile) hqueued
    · exact .kept hretains
  · by_cases hgone : file ∈ e.departed part
    · apply Fared.departed
      · rw [happlied.statuses, if_pos hgone]
      · rw [taskFor?_eq, happlied.owners, if_neg hfile, if_pos hgone, Option.bind_none]
      · rw [happlied.queued, if_neg (notMem_tasksOf hfile), if_pos hgone]
    · exact .kept (happlied.sameAt h hfile hgone).toRetains

/-!
# Applying all parts
-/

/-- The tasks that applying some parts enqueues, part by part. -/
def submissionTasks (env : Environment) : Engine -> List PreparedPart -> List Task
  | _, [] => []
  | e, part :: rest =>
      tasksOf env e part ++ submissionTasks env (applyPart env e part).2 rest

theorem applyParts_cons (env : Environment) (e : Engine) (part : PreparedPart)
    (rest : List PreparedPart) :
    (applyParts env e (part :: rest)).2 =
      (applyParts env (applyPart env e part).2 rest).2 := by
  rw [applyParts]
  rcases applyPart env e part with ⟨failure | counts, e'⟩ <;> rfl

theorem applyParts_append (env : Environment) (e : Engine) (before after : List PreparedPart) :
    (applyParts env e (before ++ after)).2 =
      (applyParts env (applyParts env e before).2 after).2 := by
  induction before generalizing e with
  | nil => rfl
  | cons part rest ih => rw [List.cons_append, applyParts_cons, ih, applyParts_cons]

theorem submissionTasks_append (env : Environment) (e : Engine)
    (before after : List PreparedPart) :
    submissionTasks env e (before ++ after) =
      submissionTasks env e before ++
        submissionTasks env (applyParts env e before).2 after := by
  induction before generalizing e with
  | nil => rfl
  | cons part rest ih =>
      rw [List.cons_append, submissionTasks, ih, submissionTasks, applyParts_cons,
        List.append_assoc]

theorem task_of_mem_submissionTasks {accepted : List PreparedPart} {task : Task}
    (h : task ∈ submissionTasks env e accepted) :
    exists part, part ∈ accepted ∧ exists file, file ∈ part.files ∧ task = part.task file := by
  induction accepted generalizing e with
  | nil => cases h
  | cons part rest ih =>
      rcases List.mem_append.mp h with hfirst | hrest
      · rcases mem_tasksOf.mp hfirst with ⟨htask, hfile, -⟩
        exact ⟨part, List.mem_cons_self, task.file, hfile, htask⟩
      · rcases ih hrest with ⟨other, hother, hfile⟩
        exact ⟨other, List.mem_cons_of_mem _ hother, hfile⟩

theorem file_of_mem_submissionTasks {accepted : List PreparedPart} {task : Task}
    (h : task ∈ submissionTasks env e accepted) :
    exists part, part ∈ accepted ∧ task.file ∈ part.files := by
  rcases task_of_mem_submissionTasks h with ⟨part, hpart, file, hfile, rfl⟩
  exact ⟨part, hpart, hfile⟩

section Sources

variable {accepted : List PreparedPart}

/-- The files of prepared parts are known to a store. -/
def Sourced (e : Engine) (accepted : List PreparedPart) : Prop :=
  forall part, part ∈ accepted -> forall file, file ∈ part.files ->
    e.storage.store.hasSource file = true

theorem Sourced.tail {rest : List PreparedPart} (h : Sourced e (part :: rest))
    (hsources : e'.storage.store.sources = e.storage.store.sources) : Sourced e' rest := by
  intro other hother file hfile
  rw [Store.hasSource, Store.source?_of_sources_eq hsources]
  exact h other (List.mem_cons_of_mem _ hother) file hfile

/--
Parts are applied one after the other. What each one keeps is kept by all, and no part is
refused once it passed the checks.
-/
theorem Agrees.applyParts_induction {P : Engine -> List PreparedPart -> Prop}
    (h : e.Agrees) (hsources : Sourced e accepted) (hstart : P e accepted)
    (step : forall (e : Engine) (part : PreparedPart) (rest : List PreparedPart), e.Agrees ->
      Applied env part e (Engine.applyPart env e part).2 -> P e (part :: rest) ->
      P (Engine.applyPart env e part).2 rest) :
    P (Engine.applyParts env e accepted).2 [] := by
  induction accepted generalizing e with
  | nil => exact hstart
  | cons part rest ih =>
      have happlied := (h.applyPart env (hsources part List.mem_cons_self)).2
      rw [applyParts_cons]
      exact ih happlied.agrees (hsources.tail happlied.sources) (step e part rest h happlied hstart)

theorem Agrees.applyParts (h : e.Agrees) (env : Environment) (hsources : Sourced e accepted) :
    (Engine.applyParts env e accepted).2.Agrees :=
  h.applyParts_induction (P := fun e _ => e.Agrees) hsources h
    (fun _ _ _ _ happlied _ => happlied.agrees)

theorem Agrees.sources_applyParts (h : e.Agrees) (env : Environment)
    (hsources : Sourced e accepted) :
    (Engine.applyParts env e accepted).2.storage.store.sources = e.storage.store.sources :=
  h.applyParts_induction
    (P := fun e' _ => e'.storage.store.sources = e.storage.store.sources) hsources rfl
    (fun _ _ _ _ happlied hsame => happlied.sources.trans hsame)

theorem Agrees.applied_between (h : e.Agrees) (env : Environment)
    {before after : List PreparedPart} (hsources : Sourced e (before ++ part :: after)) :
    let applying := (Engine.applyParts env e before).2
    Sourced e before ∧ applying.Agrees ∧ Sourced applying (part :: after) ∧
      Applied env part applying (Engine.applyPart env applying part).2 := by
  intro applying
  have hbefore : Sourced e before :=
    fun other hother => hsources other (List.mem_append_left _ hother)
  have hlater : Sourced applying (part :: after) := by
    intro other hother file hfile
    rw [Store.hasSource, Store.source?_of_sources_eq (h.sources_applyParts env hbefore)]
    exact hsources other (List.mem_append_right _ hother) file hfile
  have hagrees := h.applyParts env hbefore
  exact ⟨hbefore, hagrees, hlater, (hagrees.applyPart env (hlater part List.mem_cons_self)).2⟩

theorem Agrees.report_applyParts (h : e.Agrees) (env : Environment)
    (hsources : Sourced e accepted) :
    (Engine.applyParts env e accepted).1.enqueued =
        (submissionTasks env e accepted).length ∧
      (Engine.applyParts env e accepted).1.rejected = [] := by
  induction accepted generalizing e with
  | nil => exact ⟨rfl, rfl⟩
  | cons part rest ih =>
      rcases h.applyPart env (hsources part List.mem_cons_self) with ⟨hok, happlied⟩
      have hrest := ih happlied.agrees (hsources.tail happlied.sources)
      rw [Engine.applyParts, submissionTasks, List.length_append, ← hrest.1]
      rcases hresult : Engine.applyPart env e part with ⟨outcome, e'⟩
      rw [hresult] at hok hrest
      dsimp only at hok hrest
      rw [hok]
      exact ⟨rfl, hrest.2⟩

theorem Agrees.scheduler_applyParts (h : e.Agrees) (env : Environment)
    (hsources : Sourced e accepted) :
    exists queue, (Engine.applyParts env e accepted).2.scheduler = { e.scheduler with queue } := by
  refine h.applyParts_induction (P := fun e' _ => exists queue, e'.scheduler =
    { e.scheduler with queue }) hsources ⟨e.scheduler.queue, rfl⟩ ?_
  rintro before part rest _hagrees happlied ⟨queue, hqueue⟩
  rcases happlied.scheduler with ⟨queue', hscheduler, -⟩
  exact ⟨queue', by rw [hscheduler, hqueue]⟩

theorem Agrees.applyParts_apart {R : Engine -> Engine -> Prop} (h : e.Agrees)
    (hsources : Sourced e accepted) {file : FileId}
    (hids : forall id, e.storage.store.members.get? file = some id ->
      id ∉ accepted.map PreparedPart.id)
    (hfiles : forall part, part ∈ accepted -> file ∉ part.files) (hrefl : forall e, R e e)
    (htrans : forall e e' e'', R e e' -> R e' e'' -> R e e'')
    (hone : forall e e' part, e.Agrees -> Applied env part e e' -> file ∉ part.files ->
      file ∉ e.departed part -> R e e') : R e (Engine.applyParts env e accepted).2 := by
  induction accepted generalizing e with
  | nil => exact hrefl e
  | cons part rest ih =>
      have happlied := (h.applyPart env (hsources part List.mem_cons_self)).2
      have hfile := hfiles part List.mem_cons_self
      have hstays : file ∉ e.departed part := fun hgone =>
        hids part.id ((h.mem_departed file).mp hgone).1 List.mem_cons_self
      rw [applyParts_cons]
      refine htrans _ _ _ (hone _ _ part h happlied hfile hstays)
        (ih happlied.agrees (hsources.tail happlied.sources) ?_ ?_)
      · intro id hmember
        rw [happlied.members, if_neg hfile, if_neg hstays] at hmember
        exact fun hid => hids id hmember (List.mem_cons_of_mem _ hid)
      · exact fun other hother => hfiles other (List.mem_cons_of_mem _ hother)

theorem Agrees.sameAt_applyParts (h : e.Agrees) (hsources : Sourced e accepted) {file : FileId}
    {id : PartId} (hmember : e.storage.store.members.get? file = some id)
    (hids : id ∉ accepted.map PreparedPart.id)
    (hfiles : forall part, part ∈ accepted -> file ∉ part.files) :
    SameAt file e (Engine.applyParts env e accepted).2 := by
  refine h.applyParts_apart hsources ?_ hfiles (SameAt.refl file) (fun _ _ _ => SameAt.trans)
    (fun _ _ _ hagrees happlied => happlied.sameAt hagrees)
  intro other hother
  rw [hmember] at hother
  cases hother
  exact hids

end Sources

end Engine
end SymbolIndex
