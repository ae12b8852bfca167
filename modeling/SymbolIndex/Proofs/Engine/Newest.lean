import SymbolIndex.Proofs.Engine.Treatment

/-!
# When the newest task wins

In a run that only submits parts and lets the workers go on, all results are answers of
the collector to the tasks that were handed out. Once everything is at rest, the store
holds for each file the results that landed last in full. These are the results of the
newest task unless an older task landed after it, or what landed before it had the same
digest; neither is kept from happening.
-/

namespace SymbolIndex
namespace Engine

variable {s : Surroundings} {d : Disk} {env : Environment} {e e' : Engine} {log : List Landing}

/-!
# What the collector answered
-/

/-- The results are the answer of the collector for a task, on a disk with nothing generated. -/
def Answers (s : Surroundings) (d : Disk) (e : Engine) (task : Task) (r : Results) : Prop :=
  exists p, e.storage.store.source? task.file = some p.display ∧
    s.collect d .empty p task.arguments = .results r

/-- How far a job has come is owed to the collector. -/
def Owed (s : Surroundings) (d : Disk) (e : Engine) (job : Job) : Prop :=
  match job.stage with
  | .reading p _ => e.storage.store.source? job.task.file = some p.display
  | .collected _ r => Answers s d e job.task r
  | _ => True

/-- All results, in the hands of workers or landed, are answers of the collector. -/
structure Faithful (s : Surroundings) (d : Disk) (e : Engine) (log : List Landing) : Prop where
  overlay : e.overlay = .empty
  jobs : forall job, job ∈ e.scheduler.jobs -> Owed s d e job
  landed : forall l, l ∈ log -> Answers s d e l.task l.results

theorem Answers.of_sources {task : Task} {r : Results} (h : Answers s d e task r)
    (hsources : forall id text, e.storage.store.source? id = some text ->
      e'.storage.store.source? id = some text) : Answers s d e' task r := by
  rcases h with ⟨p, hp, hanswer⟩
  exact ⟨p, hsources _ _ hp, hanswer⟩

theorem Owed.of_sources {job : Job} (h : Owed s d e job)
    (hsources : forall id text, e.storage.store.source? id = some text ->
      e'.storage.store.source? id = some text) : Owed s d e' job := by
  unfold Owed at h ⊢
  cases hstage : job.stage with
  | assigned => trivial
  | finished poisoned => trivial
  | reading p status =>
      rw [hstage] at h
      exact hsources _ _ h
  | collected status r =>
      rw [hstage] at h
      exact h.of_sources hsources

theorem Faithful.of_jobs (h : Faithful s d e log) (hoverlay : e'.overlay = e.overlay)
    (hsources : forall id text, e.storage.store.source? id = some text ->
      e'.storage.store.source? id = some text)
    (hjobs : forall job, job ∈ e'.scheduler.jobs -> job ∈ e.scheduler.jobs ∨ Owed s d e' job) :
    Faithful s d e' log where
  overlay := hoverlay.trans h.overlay
  jobs := by
    intro job hjob
    rcases hjobs job hjob with hold | howed
    · exact (h.jobs job hold).of_sources hsources
    · exact howed
  landed := fun l hl => (h.landed l hl).of_sources hsources

theorem Faithful.sweep (h : Faithful s d e log) :
    Faithful s d { e with scheduler := e.scheduler.freeSlots } log :=
  h.of_jobs rfl (fun _ _ hsource => hsource) (fun _ hjob => Or.inl (List.mem_of_mem_filter hjob))

theorem Faithful.dispatch (h : Faithful s d e log) (hagrees : e.Agrees) :
    Faithful s d (dispatch env e) log := by
  rcases Scheduler.exists_dispatched hagrees.queue env.fails with ⟨handed, hlaunched⟩
  refine h.sweep.of_jobs rfl (fun _ _ hsource => hsource) ?_
  intro job hjob
  rw [show (Engine.dispatch env e).scheduler.jobs = _ from hlaunched.jobs, List.mem_append] at hjob
  apply hjob.imp_right
  intro hnew
  rw [Owed, hlaunched.assigned job hnew]
  trivial

theorem Faithful.updateParts (h : Faithful s d e log) (hagrees : e.Agrees) (parts : List Part) :
    Faithful s d (updateParts env e parts).2 log := by
  rcases hagrees.prepare ∅ parts with ⟨hprepared, hinterned, haccepted, -⟩
  have hchecked : Faithful s d (Engine.prepare ∅ e parts).2 log := by
    apply h.of_jobs hinterned.overlay hinterned.grown.sources
    intro job hjob
    rw [hinterned.scheduler] at hjob
    exact Or.inl hjob
  have happlied : Faithful s d
      (Engine.applyParts env (Engine.prepare ∅ e parts).2 (Engine.prepare ∅ e parts).1.1).2
        log := by
    refine hprepared.applyParts_induction (P := fun e _ => Faithful s d e log)
      haccepted.sourced hchecked ?_
    intro before part rest _hagrees hpart hbefore
    rcases hpart.scheduler with ⟨queue, hscheduler, -⟩
    apply hbefore.of_jobs hpart.overlay
    · intro id text hsource
      rw [Store.source?_of_sources_eq hpart.sources]
      exact hsource
    · intro job hjob
      rw [hscheduler] at hjob
      exact Or.inl hjob
  unfold Engine.updateParts
  dsimp only
  split
  · exact happlied.dispatch (hprepared.applyParts env haccepted.sourced)
  · exact happlied

theorem mem_or_owed_of_setStage {t : Scheduler} {job : Job} (hmem : job ∈ e.scheduler.jobs)
    (hticketed : e.scheduler.Ticketed) {stage : Stage}
    (hjobs : t.jobs = (e.scheduler.setStage job.ticket stage).jobs)
    (howed : Owed s d e' { job with stage }) (found : Job) (hfound : found ∈ t.jobs) :
    found ∈ e.scheduler.jobs ∨ Owed s d e' found := by
  rw [hjobs] at hfound
  rcases hticketed.eq_of_mem_setStage hmem hfound with hold | rfl
  · exact Or.inl hold
  · exact Or.inr howed

theorem Faithful.setStage (h : Faithful s d e log) (hticketed : e.scheduler.Ticketed)
    {job : Job} (hmem : job ∈ e.scheduler.jobs) {stage : Stage}
    (halike : Alike (e.setStage job stage) e') (howed : Owed s d e { job with stage }) :
    Faithful s d e' log := by
  have hsources : forall id text, e.storage.store.source? id = some text ->
      e'.storage.store.source? id = some text := by
    rw [halike.storage]
    exact fun _ _ hsource => hsource
  apply h.of_jobs halike.overlay hsources
  intro found hfound
  rw [halike.scheduler] at hfound
  exact mem_or_owed_of_setStage hmem hticketed rfl (howed.of_sources hsources) found hfound

theorem Faithful.lands (h : Faithful s d e log) (hagrees : e.Agrees)
    (hticketed : e.scheduler.Ticketed) {job : Job} (hmem : job ∈ e.scheduler.jobs)
    {status : FileStatus} {r : Results} (hstage : job.stage = .collected status r)
    {outcome : ApplyOutcome} {wrote : Bool} {t : Store}
    (hok : e.storage.store.applyResults job.task status r = .ok (outcome, wrote, t)) :
    Faithful s d ({ e with storage := e.storage.advance wrote t }.finishJob job
      (outcomeOf outcome) false) (log ++ [⟨job.ticket, job.task, r, outcome⟩]) := by
  have hsources : forall id text, e.storage.store.source? id = some text ->
      t.source? id = some text := by
    intro id text hsource
    rw [Store.source?_of_sources_eq (hagrees.store.linked.frame_applyResults hok).1]
    exact hsource
  have howed : Owed s d e { job with stage := .finished false } := trivial
  have hrest : Faithful s d ({ e with storage := e.storage.advance wrote t }.finishJob job
      (outcomeOf outcome) false) log :=
    h.of_jobs rfl hsources
      (mem_or_owed_of_setStage hmem hticketed rfl (howed.of_sources hsources))
  refine ⟨hrest.overlay, hrest.jobs, ?_⟩
  intro l hl
  rcases List.mem_append.mp hl with hold | hlast
  · exact hrest.landed l hold
  · rw [List.mem_singleton.mp hlast]
    have howed := h.jobs job hmem
    rw [Owed, hstage] at howed
    exact howed.of_sources hsources

end Engine

namespace World

/-!
# Runs that only index
-/

variable {s : Surroundings} {d : Disk} {w : World} {file : FileId} {log : List Landing}

/-- Parts are submitted, or the workers go on. -/
def isIndexing : Event -> Bool
  | .submit _ => true
  | .work _ => true
  | .dispatch => true
  | .sweep => true
  | _ => false

/-- The file is there and can be watched if an event submits it. -/
def IndexableAt (s : Surroundings) (file : FileId) (w : World) : Event -> Prop
  | .submit parts =>
      let checked := Engine.prepare ∅ w.engine parts
      Engine.Indexable (s.environment w.disk) file checked.2 checked.1.1
  | _ => True

/-- The file is there and can be watched whenever it is submitted in the course of a history. -/
def IndexableThroughout (s : Surroundings) (file : FileId) : World -> List Event -> Prop
  | _, [] => True
  | w, event :: rest =>
      IndexableAt s file w event ∧ IndexableThroughout s file (happen s w event) rest

/-- The queue and the slots are empty. -/
def AtRest (w : World) : Prop :=
  w.engine.scheduler.queue.isEmpty = true ∧ w.engine.scheduler.jobs = []

instance (w : World) : Decidable w.AtRest :=
  inferInstanceAs (Decidable
    (w.engine.scheduler.queue.isEmpty = true ∧ w.engine.scheduler.jobs = []))

/-- What is known of a file and of all landings in the course of a history. -/
structure Followed (s : Surroundings) (d : Disk) (file : FileId) (w : World)
    (log : List Landing) : Prop where
  disk : w.disk = d
  tracked : Engine.Tracked file w.engine (Landing.ofFile file log)
  faithful : Engine.Faithful s d w.engine log

theorem landing?_work_eq_none {ticket : Nat} {job : Job}
    (hjob : w.engine.scheduler.job? ticket = some job)
    (hstage : forall status r, job.stage ≠ .collected status r) :
    landing? w (.work ticket) = none := by
  cases hnow : job.stage with
  | collected status r => exact absurd hnow (hstage status r)
  | assigned => simp only [landing?, hjob, hnow]
  | reading p status => simp only [landing?, hjob, hnow]
  | finished poisoned => simp only [landing?, hjob, hnow]

theorem landing?_work_of_idle {ticket : Nat}
    (hidle : forall job, w.engine.scheduler.job? ticket = some job -> job.isFinished = true) :
    landing? w (.work ticket) = none := by
  cases hjob : w.engine.scheduler.job? ticket with
  | none => simp only [landing?, hjob]
  | some job =>
      apply landing?_work_eq_none hjob
      intro status r hstage
      have hfinished := hidle job hjob
      rw [Job.isFinished, hstage] at hfinished
      cases hfinished

theorem landing?_work_eq_some {ticket : Nat} {job : Job} {status : FileStatus} {r : Results}
    {outcome : ApplyOutcome} {wrote : Bool} {t : Store}
    (hjob : w.engine.scheduler.job? ticket = some job) (hstage : job.stage = .collected status r)
    (hok : w.engine.storage.store.applyResults job.task status r = .ok (outcome, wrote, t)) :
    landing? w (.work ticket) = some ⟨ticket, job.task, r, outcome⟩ := by
  simp only [landing?, hjob, hstage, hok]

theorem Followed.work (h : Followed s d file w log) (ticket : Nat)
    (huntroubled : (happen s w (.work ticket)).engine.scheduler.Untroubled) :
    Followed s d file (happen s w (.work ticket))
      (log ++ (landing? w (.work ticket)).toList) := by
  rcases h with ⟨rfl, htracked, hfaithful⟩
  have hworked := Engine.worked_stepTicket (s.environment w.disk) w.engine ticket
  have hagrees := htracked.agrees
  have hticketed := htracked.ticketed
  suffices hboth :
      Engine.Tracked file (Engine.stepTicket (s.environment w.disk) w.engine ticket)
        (Landing.ofFile file (log ++ (landing? w (.work ticket)).toList)) ∧
      Engine.Faithful s w.disk (Engine.stepTicket (s.environment w.disk) w.engine ticket)
        (log ++ (landing? w (.work ticket)).toList) from ⟨rfl, hboth.1, hboth.2⟩
  change (Engine.stepTicket (s.environment w.disk) w.engine ticket).scheduler.Untroubled
    at huntroubled
  generalize Engine.stepTicket (s.environment w.disk) w.engine ticket = e' at hworked huntroubled ⊢
  cases hworked with
  | idle hidle =>
      rw [landing?_work_of_idle hidle, Option.toList_none, List.append_nil]
      exact ⟨htracked, hfaithful⟩
  | begins job p status hjob hstage hpath hstatus halike =>
      rw [landing?_work_eq_none hjob (by simp [hstage]), Option.toList_none, List.append_nil]
      rcases Scheduler.mem_of_job? hjob with ⟨hmem, rfl⟩
      constructor
      · apply (htracked.setStage hjob ?_ rfl).of_alike halike
        rw [Job.isFinished, hstage]
      · exact hfaithful.setStage hticketed hmem halike (hagrees.book.source?_of_path? hpath)
  | collects job p status r hjob hstage hanswer halike =>
      rw [landing?_work_eq_none hjob (by simp [hstage]), Option.toList_none, List.append_nil]
      rcases Scheduler.mem_of_job? hjob with ⟨hmem, rfl⟩
      constructor
      · apply (htracked.setStage hjob ?_ rfl).of_alike halike
        rw [Job.isFinished, hstage]
      · have howed := hfaithful.jobs job hmem
        rw [Engine.Owed, hstage] at howed
        rw [hfaithful.overlay] at hanswer
        exact hfaithful.setStage hticketed hmem halike ⟨p, howed, hanswer⟩
  | fails job outcome poisoned hjob hfailure halike =>
      exact absurd (huntroubled.since _) (Engine.not_untroubled_of_fails hfailure halike)
  | lands job status r outcome wrote t hjob hstage hok =>
      rw [landing?_work_eq_some hjob hstage hok, Option.toList_some]
      rcases Scheduler.mem_of_job? hjob with ⟨hmem, rfl⟩
      refine ⟨?_, hfaithful.lands hagrees hticketed hmem hstage hok⟩
      rw [Landing.ofFile, List.filter_append]
      by_cases hfile : job.task.file = file
      · subst hfile
        rw [List.filter_cons_of_pos (by simp), List.filter_nil]
        exact htracked.lands hjob (by rw [Job.isFinished, hstage]) hok
      · rw [List.filter_cons_of_neg (by simpa using hfile), List.filter_nil, List.append_nil]
        exact htracked.lands_other hjob (Ne.symm hfile) hok

theorem Followed.happen (h : Followed s d file w log) {event : Event}
    (hindexing : isIndexing event = true)
    (hindexable : IndexableAt s file w event)
    (huntroubled : (happen s w event).engine.scheduler.Untroubled) :
    Followed s d file (World.happen s w event) (log ++ (landing? w event).toList) := by
  cases event with
  | work ticket => exact h.work ticket huntroubled
  | submit parts =>
      show Followed s d file _ (log ++ [])
      rw [List.append_nil]
      exact ⟨h.disk, h.tracked.updateParts parts hindexable huntroubled,
        h.faithful.updateParts h.tracked.agrees parts⟩
  | dispatch =>
      show Followed s d file _ (log ++ [])
      rw [List.append_nil]
      exact ⟨h.disk, h.tracked.dispatch huntroubled, h.faithful.dispatch h.tracked.agrees⟩
  | sweep =>
      show Followed s d file _ (log ++ [])
      rw [List.append_nil]
      exact ⟨h.disk, h.tracked.sweep, h.faithful.sweep⟩
  | _ => cases hindexing

theorem restart_notMem {history : List Event}
    (hindexing : forall event, event ∈ history -> isIndexing event = true) (concurrency : Nat) :
    .restart concurrency ∉ history := by
  intro hmem
  cases hindexing _ hmem

theorem Followed.run (h : Followed s d file w log) {history : List Event}
    (hindexing : forall event, event ∈ history -> isIndexing event = true)
    (hindexable : IndexableThroughout s file w history)
    (huntroubled : (run s w history).engine.scheduler.Untroubled) :
    Followed s d file (World.run s w history) (log ++ landings s w history) := by
  induction history generalizing w log with
  | nil =>
      rw [landings, List.append_nil]
      exact h
  | cons event rest ih =>
      have hrest : forall next, next ∈ rest -> isIndexing next = true :=
        fun next hnext => hindexing next (List.mem_cons_of_mem _ hnext)
      have hone := h.happen (hindexing event List.mem_cons_self) hindexable.1
        (huntroubled.of_prefix
          (reports_run (agrees_happen h.tracked.agrees event) (restart_notMem hrest)))
      rw [landings, ← List.append_assoc]
      exact ih hone hrest hindexable.2 huntroubled

theorem followed_fresh (s : Surroundings) (d : Disk) (concurrency : Nat) (file : FileId) :
    Followed s d file (fresh d concurrency) [] where
  disk := rfl
  tracked := Engine.tracked_start file concurrency .empty
  faithful :=
    { overlay := rfl
      jobs := by
        intro job hjob
        cases hjob
      landed := by
        intro l hl
        cases hl }

/--
A run that only submits parts and lets the workers go on, with any number of them and
in any order, comes to rest without a failure, and a file was there and could be watched
whenever it was submitted. Then the newest task of the file asked for what its owner asks
for now, and it landed with what the collector answered. What is stored is what landed
last in full, which is what the newest task collected exactly if the two are the same;
when no older task landed after the newest one, they have the same digest.
-/
theorem stored_eq_newest_iff {s : Surroundings} {d : Disk} {concurrency : Nat}
    {history : List Event} (hindexing : forall event, event ∈ history -> isIndexing event = true)
    {file : FileId} (hindexable : IndexableThroughout s file (fresh d concurrency) history)
    (huntroubled : (run s (fresh d concurrency) history).engine.scheduler.Untroubled)
    (hrest : (run s (fresh d concurrency) history).AtRest) {part : PartId}
    (howner : (run s (fresh d concurrency) history).engine.ownerOf file = some part) :
    let w := run s (fresh d concurrency) history
    let log := Landing.ofFile file (landings s (fresh d concurrency) history)
    exists newest last, newest ∈ log ∧ (forall l, l ∈ log -> l.ticket ≤ newest.ticket) ∧
      w.engine.taskFor? file = some newest.task ∧
      Engine.Answers s d w.engine newest.task newest.results ∧
      Landing.last? Landing.isFull log = some last ∧
      w.engine.storage.store.Records file part last.results ∧
      (w.engine.storage.store.Records file part newest.results ↔
        newest.results = last.results) ∧
      (log.getLast? = some newest -> newest.results.digest = last.results.digest) := by
  intro w log
  have hfollowed : Followed s d file w (landings s (fresh d concurrency) history) :=
    (followed_fresh s d concurrency file).run hindexing hindexable huntroubled
  have htracked : Engine.Tracked file w.engine log := hfollowed.tracked
  rcases (htracked.agrees.owned file part).mp howner with ⟨snapshot, hsnapshot, -⟩
  have htask : w.engine.taskFor? file = some ⟨file, part, snapshot.arguments⟩ :=
    (Engine.taskFor?_eq_some_iff w.engine file _).mpr ⟨part, snapshot, howner, hsnapshot, rfl⟩
  have hqueue : w.engine.scheduler.queue.get? file = none := by
    exact (TaskQueue.isEmpty_iff _).mp hrest.1 file
  rcases htracked.newest _ htask hqueue with ⟨ticket, hheld, -, hbound⟩
  rcases hheld with ⟨job, hjob, -⟩ | ⟨⟨newest, hnewest, rfl, hsame, hkept⟩, row, hrow⟩
  · rw [hrest.2] at hjob
    cases hjob
  · rcases htracked.mirrored row hrow with
      ⟨⟨last, hlast, hstray, hdigest, hrecords⟩, kept, hlastKept, hkeptDigest⟩
    have hpart : row.part = part := by
      have hmember := htracked.agrees.store.tracked file row hrow
      rw [htracked.agrees.member_of_owner howner] at hmember
      exact (Option.some.inj hmember).symm
    rw [hpart] at hrecords
    refine ⟨newest, last, hnewest, hbound, by rw [htask, hsame],
      hfollowed.faithful.landed newest (List.mem_of_mem_filter hnewest), hlast, hrecords,
      ⟨fun hr => hr.unique hrecords hstray, fun heq => by rw [heq]; exact hrecords⟩, ?_⟩
    intro hend
    rw [Landing.last?_of_getLast? hend hkept] at hlastKept
    rw [Option.some.inj hlastKept, hkeptDigest, hdigest]

/-!
# A newest task that loses
-/

/-- A part is submitted once, and its task is carried to its end. -/
def submitOnce : List Event :=
  [.submit [partWith ["-O0"]], .work 0, .work 0, .work 0, .dispatch]

/-- Two workers have tasks of the same file, and the older one stores its results last. -/
def overtaking : List Event :=
  [.submit [partWith ["-O0"]], .submit [partWith ["-O2"]], .work 0, .work 0, .work 1, .work 1,
    .work 1, .work 0, .sweep]

/-- Two symbols without optimisation and one with it, the digests of which are the same. -/
def colliding : Surroundings :=
  answering fun arguments =>
    if arguments = ["-O0"] then [⟨"a", .callable, "b"⟩, ⟨"c", .value, "d"⟩]
    else [⟨"a", .callable, "b\u0001c\u0000value\u0000d"⟩]

/-- A part is submitted with other arguments when the task before was carried to its end. -/
def submitTwice : List Event :=
  submitOnce ++ [.submit [partWith ["-O2"]], .work 1, .work 1, .work 1, .dispatch]

/-- A file has two tasks, and what the newer one collected is stored when it landed last. -/
theorem newer_task_is_stored :
    let w := run lastArgument (fresh oneFileDisk 1) submitTwice
    exists older newest,
      Landing.ofFile ⟨1⟩ (landings lastArgument (fresh oneFileDisk 1) submitTwice) =
        [older, newest] ∧
      older.ticket < newest.ticket ∧ older.results ≠ newest.results ∧
      w.engine.taskFor? ⟨1⟩ = some newest.task ∧
      w.engine.storage.store.Records ⟨1⟩ ⟨"app"⟩ newest.results := by
  intro w
  have hlog : Landing.ofFile ⟨1⟩ (landings lastArgument (fresh oneFileDisk 1) submitTwice) =
      [⟨0, ⟨⟨1⟩, ⟨"app"⟩, ["-O0"]⟩, ⟨[⟨"c:a", .callable, "-O0"⟩], []⟩, .applied 1 0⟩,
        ⟨1, ⟨⟨1⟩, ⟨"app"⟩, ["-O2"]⟩, ⟨[⟨"c:a", .callable, "-O2"⟩], []⟩, .applied 1 0⟩] := by
    decide +kernel
  rcases @stored_eq_newest_iff lastArgument oneFileDisk 1 submitTwice (by decide) ⟨1⟩
    ⟨⟨fun _ => ⟨⟨⟨0, 0⟩, by decide +kernel⟩, by decide +kernel⟩, trivial⟩, trivial, trivial,
      trivial, trivial, ⟨fun _ => ⟨⟨⟨0, 0⟩, by decide +kernel⟩, by decide +kernel⟩, trivial⟩,
      trivial, trivial, trivial, trivial, trivial⟩
    (by decide +kernel) (by decide +kernel) ⟨"app"⟩ (by decide +kernel) with
    ⟨newest, last, hmem, hnewest, htask, -, hlast, -, hiff, -⟩
  rw [hlog] at hmem hnewest hlast
  rcases List.mem_pair.mp hmem with rfl | rfl
  · cases hnewest _ (List.mem_cons_of_mem _ List.mem_cons_self)
  · refine ⟨_, _, hlog, Nat.zero_lt_one, by decide, htask, hiff.mpr ?_⟩
    exact congrArg Landing.results (Option.some.inj hlast)

/--
In the first run the owner of the file asks for `-O2`, and what is stored was collected
with `-O0`. So it is in the second run, where no two tasks of the file were ever in the
hands of workers: the new results have the digest of the old ones.
-/
theorem newest_task_may_lose :
    (let w := run lastArgument (fresh oneFileDisk 2) overtaking
     w.engine.scheduler.Untroubled ∧ w.AtRest ∧
      w.engine.taskFor? ⟨1⟩ = some ⟨⟨1⟩, ⟨"app"⟩, ["-O2"]⟩ ∧
      w.engine.storage.store.symbols.map SymbolRow.name = ["-O0"]) ∧
    (let w := run colliding (fresh oneFileDisk 1) submitTwice
     w.engine.scheduler.Untroubled ∧ w.AtRest ∧
      w.engine.taskFor? ⟨1⟩ = some ⟨⟨1⟩, ⟨"app"⟩, ["-O2"]⟩ ∧
      w.engine.storage.store.symbols.map SymbolRow.name = ["b", "d"]) := by
  constructor
  · dsimp only
    decide +kernel
  · dsimp only
    decide +kernel

end World
end SymbolIndex
