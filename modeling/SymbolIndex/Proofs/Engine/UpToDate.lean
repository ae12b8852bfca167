import SymbolIndex.Proofs.Engine.Treatment
import SymbolIndex.Proofs.Engine.Working

/-!
# Engines that are up to date

As long as no task fails, whatever is stored about a file is an answer of the collector:
to the arguments that the owner of the file asks for now, in a scene in which the file
had the status that is stored with it. A file of which this is not so yet has its task
in the queue or in the hands of a worker.
-/

namespace SymbolIndex

/-- What is there to be collected: a disk and the generated contents. -/
structure Scene where
  disk : Disk
  overlay : Overlay

namespace Engine

variable {s : Surroundings} {seen : List Scene} {d : Disk} {due : List Task}
  {e e' : Engine} {log : List Landing} {file : FileId}

/-- In some scene the file had this status, and the collector answered so. -/
def Answered (s : Surroundings) (seen : List Scene) (p : Path) (status : FileStatus)
    (arguments : List String) (r : Results) : Prop :=
  exists scene, scene ∈ seen ∧ scene.overlay.currentStatus scene.disk p = .ok status ∧
    s.collect scene.disk scene.overlay p arguments = .results r

/-- The task that the owner of a file asks for is queued or runs. -/
def Pending (e : Engine) (file : FileId) : Prop :=
  exists task, e.taskFor? file = some task ∧
    (e.scheduler.queue.get? file = some task ∨ exists ticket, e.scheduler.Runs ticket task)

/-- What a worker has in hand is what is there. -/
def InHand (s : Surroundings) (d : Disk) (e : Engine) (job : Job) : Prop :=
  match job.stage with
  | .reading p status =>
      e.path? job.task.file = some p ∧ e.overlay.currentStatus d p = .ok status
  | .collected status r =>
      exists p, e.path? job.task.file = some p ∧ e.overlay.currentStatus d p = .ok status ∧
        s.collect d e.overlay p job.task.arguments = .results r
  | _ => True

/-- What is stored about a file is the answer to what its owner asks for. -/
def Matches (s : Surroundings) (seen : List Scene) (e : Engine) (file : FileId)
    (row : StatusRow) : Prop :=
  exists p task r, e.path? file = some p ∧ e.taskFor? file = some task ∧
    Answered s seen p row.status task.arguments r ∧
    e.storage.store.Records file row.part r

structure UpToDate (s : Surroundings) (seen : List Scene) (d : Disk) (due : List Task)
    (e : Engine) (log : List Landing) : Prop where
  agrees : e.Agrees
  ticketed : e.scheduler.Ticketed
  owned : Owned e
  textual : Textual e
  now : ⟨d, e.overlay⟩ ∈ seen
  queued : forall file task, e.scheduler.queue.get? file = some task ->
    e.taskFor? file = some task
  running : forall job, job ∈ e.scheduler.jobs -> job.isFinished = false ->
    e.storage.store.members.get? job.task.file = some job.task.part ->
    e.taskFor? job.task.file = some job.task
  inHand : forall job, job ∈ e.scheduler.jobs -> InHand s d e job
  landed : forall file row, e.storage.store.statuses.get? file = some row ->
    exists l, l ∈ log ∧ l.results.digest = row.digest ∧
      e.storage.store.Records file row.part l.results
  current : forall file row, e.storage.store.statuses.get? file = some row ->
    Pending e file ∨ Matches s seen e file row
  fresh : forall task, task ∈ due -> e.taskFor? task.file = some task ∧
    (Pending e task.file ∨
      exists status, currentStatus? (s.environment d) e task.file = some status ∧
        e.storage.store.IsIndexed task.file task.part status)

theorem upToDate_start (hseen : ⟨d, .empty⟩ ∈ seen) (concurrency : Nat) (log : CallLog) :
    UpToDate s seen d [] (start .empty concurrency log) [] where
  agrees := agrees_start Store.sound_empty List.nodup_nil concurrency log
  ticketed := Scheduler.ticketed_ofCapacity concurrency
  owned := by
    intro file part hmember
    cases hmember
  textual := by
    intro id
    rfl
  now := hseen
  queued := by
    intro file task htask
    cases htask
  running := by
    intro job hjob
    cases hjob
  inHand := by
    intro job hjob
    cases hjob
  landed := by
    intro file row hrow
    cases hrow
  current := by
    intro file row hrow
    cases hrow
  fresh := by
    intro task htask
    cases htask

theorem InHand.of_paths {job : Job} (h : InHand s d e job)
    (hpaths : forall id, e'.path? id = e.path? id) (hoverlay : e'.overlay = e.overlay) :
    InHand s d e' job := by
  unfold InHand at h ⊢
  cases hstage : job.stage with
  | assigned => trivial
  | finished poisoned => trivial
  | reading p status =>
      rw [hstage] at h
      rw [hpaths, hoverlay]
      exact h
  | collected status r =>
      rw [hstage] at h
      rw [hoverlay]
      rcases h with ⟨p, hp, hrest⟩
      exact ⟨p, (hpaths _).trans hp, hrest⟩

theorem Pending.of_alike (h : Pending e file) (halike : Alike e e') : Pending e' file := by
  rcases h with ⟨task, htask, hpending⟩
  refine ⟨task, (halike.taskFor? file).trans htask, ?_⟩
  rw [halike.scheduler]
  exact hpending

theorem UpToDate.of_alike (h : UpToDate s seen d due e log) (halike : Alike e e') :
    UpToDate s seen d due e' log where
  agrees := h.agrees.of_alike halike
  ticketed := by
    rw [halike.scheduler]
    exact h.ticketed
  owned := halike.carried.owned h.owned
  textual := halike.carried.textual h.textual
  now := by
    rw [halike.overlay]
    exact h.now
  queued := by
    intro file task htask
    rw [halike.scheduler] at htask
    exact (halike.taskFor? file).trans (h.queued file task htask)
  running := by
    intro job hjob hruns hmember
    rw [halike.scheduler] at hjob
    rw [halike.storage] at hmember
    exact (halike.taskFor? _).trans (h.running job hjob hruns hmember)
  inHand := by
    intro job hjob
    rw [halike.scheduler] at hjob
    exact (h.inHand job hjob).of_paths halike.paths halike.overlay
  landed := by
    rw [halike.storage]
    exact h.landed
  current := by
    intro file row hrow
    rw [halike.storage] at hrow
    refine (h.current file row hrow).imp (fun hpending => hpending.of_alike halike) ?_
    intro hmatches
    rcases hmatches with ⟨p, task, r, hp, htask, hanswer, hrecords⟩
    refine ⟨p, task, r, (halike.paths file).trans hp, (halike.taskFor? file).trans htask,
      hanswer, ?_⟩
    rw [halike.storage]
    exact hrecords
  fresh := by
    intro task htask
    rcases h.fresh task htask with ⟨hcurrent, hfresh⟩
    refine ⟨(halike.taskFor? _).trans hcurrent, ?_⟩
    refine hfresh.imp (fun hpending => hpending.of_alike halike) ?_
    rw [halike.currentStatus?, halike.storage]
    exact id

/-!
# Handing out and sweeping up
-/

theorem UpToDate.with_scheduler (h : UpToDate s seen d due e log) {t : Scheduler}
    (hqueue : t.queue.Sound) (hticketed : t.Ticketed)
    (hqueued : forall file task, t.queue.get? file = some task -> e.taskFor? file = some task)
    (hrunning : forall job, job ∈ t.jobs -> job.isFinished = false ->
      e.storage.store.members.get? job.task.file = some job.task.part ->
      e.taskFor? job.task.file = some job.task)
    (hinHand : forall job, job ∈ t.jobs -> InHand s d e job)
    (hpending : forall file, Pending e file -> Pending { e with scheduler := t } file) :
    UpToDate s seen d due { e with scheduler := t } log where
  agrees := by
    apply h.agrees.with_scheduler hqueue
    intro file task htask
    rcases (taskFor?_eq_some_iff e file task).mp (hqueued file task htask) with
      ⟨part, -, howner, -⟩
    exact ⟨part, howner⟩
  ticketed := hticketed
  owned := h.owned
  textual := h.textual
  now := h.now
  queued := hqueued
  running := hrunning
  inHand := hinHand
  landed := h.landed
  current := fun file row hrow => (h.current file row hrow).imp (hpending file) id
  fresh := fun task htask =>
    ⟨(h.fresh task htask).1, (h.fresh task htask).2.imp (hpending task.file) id⟩

theorem UpToDate.sweep (h : UpToDate s seen d due e log) :
    UpToDate s seen d due { e with scheduler := e.scheduler.freeSlots } log := by
  refine h.with_scheduler (t := e.scheduler.freeSlots) h.agrees.queue h.ticketed.freeSlots
    h.queued ?_ ?_ ?_
  · intro job hjob
    exact h.running job (List.mem_of_mem_filter hjob)
  · intro job hjob
    exact h.inHand job (List.mem_of_mem_filter hjob)
  · intro file hpending
    rcases hpending with ⟨task, htask, hqueued | ⟨ticket, hruns⟩⟩
    · exact ⟨task, htask, Or.inl hqueued⟩
    · exact ⟨task, htask, Or.inr ⟨ticket, (Scheduler.runs_freeSlots _ _ _).mpr hruns⟩⟩

theorem UpToDate.dispatch (h : UpToDate s seen d due e log) {env : Environment}
    (huntroubled : (dispatch env e).scheduler.Untroubled) :
    UpToDate s seen d due (Engine.dispatch env e) log := by
  have hswept := h.sweep
  rcases Scheduler.exists_dispatched h.agrees.queue env.fails with ⟨handed, hlaunched⟩
  have htask : forall job, job ∈ handed -> e.taskFor? job.task.file = some job.task := by
    intro job hjob
    rcases hlaunched.fate (huntroubled.since _) job.task.file with
      ⟨-, hnone⟩ | ⟨other, -, -, hqueued, -, honly⟩
    · exact absurd rfl (hnone job hjob)
    · rw [honly job hjob rfl]
      rw [← honly job hjob rfl] at hqueued ⊢
      exact h.queued _ _ hqueued
  have hjobs : forall job, job ∈ (e.scheduler.dispatch env.fails).jobs ->
      job ∈ e.scheduler.freeSlots.jobs ∨ job ∈ handed := by
    intro job hjob
    rw [hlaunched.jobs] at hjob
    exact List.mem_append.mp hjob
  apply hswept.with_scheduler hlaunched.queue (h.ticketed.dispatch env.fails)
  · intro file task hqueued
    exact h.queued file task (hlaunched.queued hqueued)
  · intro job hjob hruns hmember
    rcases hjobs job hjob with hold | hnew
    · exact hswept.running job hold hruns hmember
    · exact htask job hnew
  · intro job hjob
    rcases hjobs job hjob with hold | hnew
    · exact hswept.inHand job hold
    · rw [InHand, hlaunched.assigned job hnew]
      trivial
  · intro file hpending
    rcases hpending with ⟨task, hcurrent, hqueued | ⟨ticket, hruns⟩⟩
    · refine ⟨task, hcurrent, ?_⟩
      rcases hlaunched.fate (huntroubled.since _) file with
        ⟨hsame, -⟩ | ⟨job, hjob, -, hjobQueued, -, -⟩
      · exact Or.inl (hsame.trans hqueued)
      · have heq : job.task = task := Option.some.inj (hjobQueued.symm.trans hqueued)
        exact Or.inr ⟨job.ticket, (hlaunched.runs _ _).mpr (Or.inr ⟨job, hjob, rfl, heq⟩)⟩
    · exact ⟨task, hcurrent, Or.inr ⟨ticket, (hlaunched.runs _ _).mpr (Or.inl hruns)⟩⟩

/-!
# Steps of workers
-/

theorem UpToDate.setStage (h : UpToDate s seen d due e log) {job : Job}
    (hjob : e.scheduler.job? job.ticket = some job) (hruns : job.isFinished = false)
    {stage : Stage} (hstage : { job with stage }.isFinished = false)
    (hinHand : InHand s d e { job with stage }) :
    UpToDate s seen d due (e.setStage job stage) log := by
  have hmem := (Scheduler.mem_of_job? hjob).1
  refine h.with_scheduler (t := e.scheduler.setStage job.ticket stage) h.agrees.queue
    (h.ticketed.setStage job.ticket stage) h.queued ?_ ?_ ?_
  · intro found hfound hfoundRuns hmember
    rcases h.ticketed.eq_of_mem_setStage hmem hfound with hold | rfl
    · exact h.running found hold hfoundRuns hmember
    · exact h.running job hmem hruns hmember
  · intro found hfound
    rcases h.ticketed.eq_of_mem_setStage hmem hfound with hold | rfl
    · exact h.inHand found hold
    · exact hinHand
  · intro file hpending
    rcases hpending with ⟨task, htask, hqueued | ⟨ticket, hrunning⟩⟩
    · exact ⟨task, htask, Or.inl hqueued⟩
    · exact ⟨task, htask,
        Or.inr ⟨ticket, (h.ticketed.runs_setStage hjob hruns hstage _ _).mpr hrunning⟩⟩

/-- Different results that landed have different digests. -/
def Apart (log : List Landing) : Prop :=
  forall l, l ∈ log -> forall l', l' ∈ log -> l.results ≠ l'.results ->
    l.results.digest ≠ l'.results.digest

instance (log : List Landing) : Decidable (Apart log) :=
  inferInstanceAs (Decidable (forall l, l ∈ log -> forall l', l' ∈ log ->
    l.results ≠ l'.results -> l.results.digest ≠ l'.results.digest))

theorem Apart.of_append_left {rest : List Landing} (h : Apart (log ++ rest)) : Apart log :=
  fun l hl l' hl' => h l (List.mem_append_left _ hl) l' (List.mem_append_left _ hl')

section Lands

variable {job : Job} {status : FileStatus} {r : Results} {outcome : ApplyOutcome}
  {wrote : Bool} {t : Store}

theorem UpToDate.records_of_lands (h : UpToDate s seen d due e log)
    (hcurrent : e.storage.store.isCurrent job.task = true)
    (hok : e.storage.store.applyResults job.task status r = .ok (outcome, wrote, t))
    (hapart : Apart (log ++ [⟨job.ticket, job.task, r, outcome⟩])) :
    t.Records job.task.file job.task.part r := by
  rcases Store.applyResults_eq_ok hok with
    ⟨hstale, -⟩ | ⟨-, ⟨old, hold, hpart, hdigest⟩, -, htarget⟩ | ⟨-, -, -, -, htarget⟩
  · rw [hcurrent] at hstale
    cases hstale
  · rcases h.landed job.task.file old hold with ⟨l, hl, hlDigest, hrecords⟩
    have hsame : l.results = r := by
      apply Decidable.byContradiction
      intro hne
      exact hapart l (List.mem_append_left _ hl) _ (List.mem_append_right _ List.mem_cons_self)
        hne (hlDigest.trans hdigest)
    rw [hsame, hpart] at hrecords
    rw [htarget]
    exact hrecords.of_recordsAt_eq (Store.recordsAt_of_rows_eq rfl rfl _)
  · have hr := h.agrees.store.linked.records_replaceRecords job.task.file job.task.part r
    rw [htarget]
    exact hr.of_recordsAt_eq (Store.recordsAt_of_rows_eq rfl rfl _)

theorem UpToDate.pending_of_lands (h : UpToDate s seen d due e log)
    (hjob : e.scheduler.job? job.ticket = some job)
    (hother : e.taskFor? file ≠ some job.task) (hpending : Pending e file) (storage : Storage) :
    Pending ({ e with storage }.finishJob job (outcomeOf outcome) false) file := by
  rcases hpending with ⟨task, htask, hqueued | ⟨ticket, hruns⟩⟩
  · exact ⟨task, htask, Or.inl hqueued⟩
  · refine ⟨task, htask, Or.inr ⟨ticket, (Scheduler.runs_finish _ _ _ _ _ _).mpr ⟨hruns, ?_⟩⟩⟩
    intro hticket
    rcases hruns with ⟨found, hfound, hfoundTicket, hfoundTask, -⟩
    have hsame := h.ticketed.eq_of_ticket_eq hfound (Scheduler.mem_of_job? hjob).1
      (hfoundTicket.trans hticket)
    rw [← hfoundTask, hsame] at htask
    exact hother htask

theorem UpToDate.unchanged_of_lands (h : UpToDate s seen d due e log)
    (hjob : e.scheduler.job? job.ticket = some job) (hruns : job.isFinished = false)
    (hok : e.storage.store.applyResults job.task status r = .ok (outcome, wrote, t))
    (hother : e.taskFor? file ≠ some job.task) :
    t.statuses.get? file = e.storage.store.statuses.get? file ∧
      t.recordsAt file = e.storage.store.recordsAt file := by
  by_cases hfile : file = job.task.file
  · subst hfile
    rcases Store.applyResults_eq_ok hok with ⟨-, -, rfl⟩ | ⟨hcurrent, -⟩ | ⟨hcurrent, -⟩
    · exact ⟨rfl, rfl⟩
    all_goals
      have hmember := (Store.isCurrent_iff h.agrees.store job.task).mp hcurrent
      exact absurd (h.running job (Scheduler.mem_of_job? hjob).1 hruns hmember) hother
  · exact (h.agrees.store.linked.frame_applyResults hok).2.2.2 file hfile

theorem UpToDate.stored_of_lands (h : UpToDate s seen d due e log)
    (hok : e.storage.store.applyResults job.task status r = .ok (outcome, wrote, t))
    (hapart : Apart (log ++ [⟨job.ticket, job.task, r, outcome⟩]))
    (hasked : e.taskFor? file = some job.task) :
    file = job.task.file ∧ t.statuses.get? file = some (Store.rowOf job.task status r) ∧
      t.Records file job.task.part r := by
  have hfile : job.task.file = file := file_of_taskFor? hasked
  subst hfile
  have hcurrent : e.storage.store.isCurrent job.task = true := by
    rw [Store.isCurrent_iff h.agrees.store]
    rcases (taskFor?_eq_some_iff _ _ _).mp hasked with ⟨part, snapshot, howner, -, heq⟩
    rw [h.agrees.member_of_owner howner, heq]
  exact ⟨rfl, Store.get?_statuses_applyResults hok hcurrent,
    h.records_of_lands hcurrent hok hapart⟩

theorem UpToDate.landed_of_lands (h : UpToDate s seen d due e log)
    (hjob : e.scheduler.job? job.ticket = some job) (hruns : job.isFinished = false)
    (hok : e.storage.store.applyResults job.task status r = .ok (outcome, wrote, t))
    (hapart : Apart (log ++ [⟨job.ticket, job.task, r, outcome⟩])) {row : StatusRow}
    (hrow : t.statuses.get? file = some row) :
    exists l, l ∈ log ++ [⟨job.ticket, job.task, r, outcome⟩] ∧
      l.results.digest = row.digest ∧ t.Records file row.part l.results := by
  by_cases hasked : e.taskFor? file = some job.task
  · rcases h.stored_of_lands hok hapart hasked with ⟨-, hstored, hrecords⟩
    cases hstored.symm.trans hrow
    exact ⟨_, List.mem_append_right _ List.mem_cons_self, rfl, hrecords⟩
  · rcases h.unchanged_of_lands hjob hruns hok hasked with ⟨hsame, hrecordsAt⟩
    rcases h.landed file row (hsame.symm.trans hrow) with ⟨l, hl, hdigest, hrecords⟩
    exact ⟨l, List.mem_append_left _ hl, hdigest, hrecords.of_recordsAt_eq hrecordsAt⟩

theorem UpToDate.current_of_lands (h : UpToDate s seen d due e log)
    (hjob : e.scheduler.job? job.ticket = some job) (hruns : job.isFinished = false)
    (hok : e.storage.store.applyResults job.task status r = .ok (outcome, wrote, t))
    (hapart : Apart (log ++ [⟨job.ticket, job.task, r, outcome⟩])) {p : Path}
    (hp : e.path? job.task.file = some p)
    (hanswer : Answered s seen p status job.task.arguments r) {row : StatusRow}
    (hpaths : forall id, Engine.path? { e with storage := e.storage.advance wrote t } id =
      e.path? id)
    (hrow : t.statuses.get? file = some row) :
    let landed := Engine.finishJob { e with storage := e.storage.advance wrote t } job
      (outcomeOf outcome) false
    Pending landed file ∨ Matches s seen landed file row := by
  by_cases hasked : e.taskFor? file = some job.task
  · rcases h.stored_of_lands hok hapart hasked with ⟨hfile, hstored, hrecords⟩
    cases hstored.symm.trans hrow
    rw [← hfile] at hp
    exact Or.inr ⟨p, job.task, r, (hpaths file).trans hp, hasked, hanswer, hrecords⟩
  · rcases h.unchanged_of_lands hjob hruns hok hasked with ⟨hsame, hrecordsAt⟩
    rcases h.current file row (hsame.symm.trans hrow) with hpending | hmatches
    · exact Or.inl (h.pending_of_lands hjob hasked hpending _)
    · rcases hmatches with ⟨q, task, results, hq, htask, hanswered, hrecords⟩
      exact Or.inr ⟨q, task, results, (hpaths file).trans hq, htask, hanswered,
        hrecords.of_recordsAt_eq hrecordsAt⟩

theorem UpToDate.fresh_of_lands (h : UpToDate s seen d due e log)
    (hjob : e.scheduler.job? job.ticket = some job) (hruns : job.isFinished = false)
    (hok : e.storage.store.applyResults job.task status r = .ok (outcome, wrote, t))
    (hapart : Apart (log ++ [⟨job.ticket, job.task, r, outcome⟩]))
    (hstatus : currentStatus? (s.environment d) e job.task.file = some status) {task : Task}
    (htask : task ∈ due) :
    Pending ({ e with storage := e.storage.advance wrote t }.finishJob job
        (outcomeOf outcome) false) task.file ∨
      exists now, currentStatus? (s.environment d) e task.file = some now ∧
        t.IsIndexed task.file task.part now := by
  rcases h.fresh task htask with ⟨hcurrent, hfresh⟩
  by_cases hasked : e.taskFor? task.file = some job.task
  · have hsame : task = job.task := Option.some.inj (hcurrent.symm.trans hasked)
    subst hsame
    exact Or.inr ⟨status, hstatus, _, (h.stored_of_lands hok hapart hasked).2.1, rfl, rfl⟩
  · rcases hfresh with hpending | ⟨now, hnow, row, hrow, hrest⟩
    · exact Or.inl (h.pending_of_lands hjob hasked hpending _)
    · have hsame := (h.unchanged_of_lands hjob hruns hok hasked).1
      exact Or.inr ⟨now, hnow, row, hsame.trans hrow, hrest⟩

theorem UpToDate.lands (h : UpToDate s seen d due e log)
    (hjob : e.scheduler.job? job.ticket = some job) (hstage : job.stage = .collected status r)
    (hok : e.storage.store.applyResults job.task status r = .ok (outcome, wrote, t))
    (hapart : Apart (log ++ [⟨job.ticket, job.task, r, outcome⟩])) :
    UpToDate s seen d due ({ e with storage := e.storage.advance wrote t }.finishJob job
      (outcomeOf outcome) false) (log ++ [⟨job.ticket, job.task, r, outcome⟩]) := by
  have hmem := (Scheduler.mem_of_job? hjob).1
  have hruns : job.isFinished = false := by rw [Job.isFinished, hstage]
  rcases h.agrees.store.linked.frame_applyResults hok with ⟨hsources, -, hmembers, -⟩
  have hpaths : forall id, Engine.path? { e with storage := e.storage.advance wrote t } id =
      e.path? id := fun id => PathBook.path?_of_sources_eq hsources id
  have hinHand := h.inHand job hmem
  rw [InHand, hstage] at hinHand
  rcases hinHand with ⟨p, hp, hstatus, hanswer⟩
  have hseen : forall id, currentStatus? (s.environment d)
      { e with storage := e.storage.advance wrote t } id =
        currentStatus? (s.environment d) e id := by
    intro id
    rw [currentStatus?, hpaths]
    rfl
  refine
    { agrees := (h.agrees.with_results hok).finishJob job _ _
      ticketed := h.ticketed.finish job _ _
      owned := ?_
      textual := ?_
      now := h.now
      queued := h.queued
      running := ?_
      inHand := ?_
      landed := fun file row hrow => h.landed_of_lands hjob hruns hok hapart hrow
      current := fun file row hrow => h.current_of_lands hjob hruns hok hapart hp
        ⟨⟨d, e.overlay⟩, h.now, hstatus, hanswer⟩ hpaths hrow
      fresh := ?_ }
  · intro file part hmember
    exact h.owned file part (by rw [← hmembers]; exact hmember)
  · intro id
    apply (hpaths id).trans
    exact (h.textual id).trans (by rw [← Store.source?_of_sources_eq hsources]; rfl)
  · intro found hfound hfoundRuns hmember
    rcases h.ticketed.eq_of_mem_setStage hmem hfound with hold | rfl
    · exact h.running found hold hfoundRuns (by rw [← hmembers]; exact hmember)
    · cases hfoundRuns
  · intro found hfound
    rcases h.ticketed.eq_of_mem_setStage hmem hfound with hold | rfl
    · exact (h.inHand found hold).of_paths hpaths rfl
    · trivial
  · intro task htask
    refine ⟨(h.fresh task htask).1, ?_⟩
    have hnow : currentStatus? (s.environment d) e job.task.file = some status := by
      rw [currentStatus?, hp, Option.bind_some]
      show (e.overlay.currentStatus d p).toOption = some status
      rw [hstatus]
      rfl
    rcases h.fresh_of_lands hjob hruns hok hapart hnow htask with hpending | hindexed
    · exact Or.inl hpending
    · rcases hindexed with ⟨now, hnow, hrow⟩
      exact Or.inr ⟨now, (hseen task.file).trans hnow, hrow⟩

end Lands

/-!
# Calls
-/

theorem Carried.records {row : StatusRow} (h : Carried e e')
    (hrow : e'.storage.store.statuses.get? file = some row) :
    e.storage.store.statuses.get? file = some row ∧
      e'.storage.store.recordsAt file = e.storage.store.recordsAt file := by
  cases h.treated file with
  | kept hretains => exact ⟨hretains.status.symm.trans hrow, hretains.records⟩
  | dropped hstatus hqueue =>
      rw [hstatus] at hrow
      cases hrow
  | enqueued task htask hqueue hrecords =>
      rcases hrecords with hnone | ⟨hstatus, hrecords⟩
      · rw [hnone] at hrow
        cases hrow
      · exact ⟨hstatus.symm.trans hrow, hrecords⟩

theorem UpToDate.queued_of_carried (h : UpToDate s seen d due e log) (hcarried : Carried e e')
    {task : Task} (htask : e'.scheduler.queue.get? file = some task) :
    e'.taskFor? file = some task := by
  cases hcarried.treated file with
  | kept hretains =>
      exact hretains.task.trans (h.queued file task (hretains.queued.symm.trans htask))
  | dropped hstatus hqueue =>
      rw [hqueue] at htask
      cases htask
  | enqueued newest hnewest hqueue hrecords =>
      rw [hqueue] at htask
      rw [hnewest, htask]

theorem UpToDate.running_of_carried (h : UpToDate s seen d due e log) (hcarried : Carried e e')
    (hagrees : e'.Agrees) {job : Job} (hjob : job ∈ e.scheduler.jobs)
    (hruns : job.isFinished = false)
    (hsteady : e'.taskFor? job.task.file = e.taskFor? job.task.file ∨
      e'.taskFor? job.task.file = none)
    (hmember : e'.storage.store.members.get? job.task.file = some job.task.part) :
    e'.taskFor? job.task.file = some job.task := by
  -- the file has an owner, so its task is the one that was asked for before
  have howner := hcarried.owned h.owned _ _ hmember
  rcases (hagrees.owned _ _).mp howner with ⟨snapshot, hsnapshot, -⟩
  have htask := (taskFor?_eq_some_iff e' job.task.file _).mpr
    ⟨job.task.part, snapshot, howner, hsnapshot, rfl⟩
  rcases hsteady with hsame | hnone
  · have hbefore := hsame.symm.trans htask
    rcases (taskFor?_eq_some_iff e job.task.file _).mp hbefore with ⟨part, old, hold, -, heq⟩
    have hpart : job.task.part = part := congrArg Task.part heq
    rw [hsame]
    apply h.running job hjob hruns
    rw [hpart]
    exact h.agrees.member_of_owner hold
  · rw [hnone] at htask
    cases htask

theorem UpToDate.current_of_carried (h : UpToDate s seen d due e log) (hcarried : Carried e e')
    {row : StatusRow} (hrow : e'.storage.store.statuses.get? file = some row) :
    Pending e' file ∨ Matches s seen e' file row := by
  rcases hcarried.records hrow with ⟨hbefore, hrecordsAt⟩
  rcases hcarried.scheduler with ⟨queue, hscheduler⟩
  cases hcarried.treated file with
  | dropped hstatus hqueue =>
      rw [hstatus] at hrow
      cases hrow
  | enqueued task htask hqueue hrecords => exact Or.inl ⟨task, htask, Or.inl hqueue⟩
  | kept hretains =>
      rcases h.current file row hbefore with hpending | hmatches
      · rcases hpending with ⟨task, htask, hqueued | ⟨ticket, hruns⟩⟩
        · exact Or.inl ⟨task, hretains.task.trans htask, Or.inl (hretains.queued.trans hqueued)⟩
        · refine Or.inl ⟨task, hretains.task.trans htask, Or.inr ⟨ticket, ?_⟩⟩
          rw [hscheduler]
          exact hruns
      · rcases hmatches with ⟨p, task, r, hp, htask, hanswer, hrecords⟩
        exact Or.inr ⟨p, task, r, hcarried.path? h.textual hp, hretains.task.trans htask,
          hanswer, hrecords.of_recordsAt_eq hrecordsAt⟩

/--
After a call the engine is up to date in the scene that the call leaves behind, if what
workers have in hand is still there and their tasks are still asked for or not at all.
-/
theorem UpToDate.of_carried (h : UpToDate s seen d due e log) (hcarried : Carried e e')
    (hagrees : e'.Agrees) {d' : Disk} (hnow : ⟨d', e'.overlay⟩ ∈ seen) {asked : List Task}
    (hinHand : forall job, job ∈ e.scheduler.jobs -> InHand s d' e' job)
    (hsteady : forall job, job ∈ e.scheduler.jobs ->
      e'.taskFor? job.task.file = e.taskFor? job.task.file ∨
        e'.taskFor? job.task.file = none)
    (hfresh : forall task, task ∈ asked -> Fresh (s.environment d') e' task) :
    UpToDate s seen d' asked e' log := by
  rcases hcarried.scheduler with ⟨queue, hscheduler⟩
  have hjobs : e'.scheduler.jobs = e.scheduler.jobs := by rw [hscheduler]
  refine
    { agrees := hagrees
      ticketed := ?_
      owned := hcarried.owned h.owned
      textual := hcarried.textual h.textual
      now := hnow
      queued := fun file task htask => h.queued_of_carried hcarried htask
      running := ?_
      inHand := ?_
      landed := ?_
      current := fun file row hrow => h.current_of_carried hcarried hrow
      fresh := ?_ }
  · rw [hscheduler]
    exact h.ticketed.of_jobs_eq rfl rfl
  · intro job hjob hruns hmember
    rw [hjobs] at hjob
    exact h.running_of_carried hcarried hagrees hjob hruns (hsteady job hjob) hmember
  · rw [hjobs]
    exact hinHand
  · intro file row hrow
    rcases hcarried.records hrow with ⟨hbefore, hrecordsAt⟩
    rcases h.landed file row hbefore with ⟨l, hl, hdigest, hrecords⟩
    exact ⟨l, hl, hdigest, hrecords.of_recordsAt_eq hrecordsAt⟩
  · intro task htask
    rcases hfresh task htask with ⟨hasked, hqueued | hindexed⟩
    · exact ⟨hasked, Or.inl ⟨task, hasked, Or.inl hqueued⟩⟩
    · exact ⟨hasked, Or.inr hindexed⟩

theorem UpToDate.of_carried_idle (h : UpToDate s seen d due e log)
    (hidle : e.scheduler.jobs = []) (hcarried : Carried e e') (hagrees : e'.Agrees)
    {d' : Disk} (hnow : ⟨d', e'.overlay⟩ ∈ seen) {asked : List Task}
    (hfresh : forall task, task ∈ asked -> Fresh (s.environment d') e' task) :
    UpToDate s seen d' asked e' log := by
  apply h.of_carried hcarried hagrees hnow ?_ ?_ hfresh
  · intro job hjob
    rw [hidle] at hjob
    cases hjob
  · intro job hjob
    rw [hidle] at hjob
    cases hjob

theorem UpToDate.of_carried_steady (h : UpToDate s seen d due e log) (hcarried : Carried e e')
    (hagrees : e'.Agrees) (hoverlay : e'.overlay = e.overlay)
    (hsteady : forall file, e'.taskFor? file = e.taskFor? file ∨ e'.taskFor? file = none) :
    UpToDate s seen d [] e' log := by
  apply h.of_carried hcarried hagrees ?_ ?_
    (fun job _hjob => hsteady job.task.file) (fun task htask => absurd htask List.not_mem_nil)
  · rw [hoverlay]
    exact h.now
  · intro job hjob
    have hinHand := h.inHand job hjob
    unfold InHand at hinHand ⊢
    cases hstage : job.stage with
    | assigned => trivial
    | finished poisoned => trivial
    | reading p status =>
        rw [hstage] at hinHand
        rw [hoverlay]
        exact ⟨hcarried.path? h.textual hinHand.1, hinHand.2⟩
    | collected status r =>
        rw [hstage] at hinHand
        rw [hoverlay]
        rcases hinHand with ⟨p, hp, hrest⟩
        exact ⟨p, hcarried.path? h.textual hp, hrest⟩

theorem UpToDate.handleChanged (h : UpToDate s seen d due e log) {env : Environment}
    (files : List FileId)
    (huntroubled : (Engine.handleChanged env e files).2.scheduler.Untroubled) :
    UpToDate s seen d [] (Engine.handleChanged env e files).2 log := by
  rcases h.agrees.handleChanged_eq env files with
    ⟨e', hcarried, hagrees, hoverlay, htasks, heq | heq⟩
  · rw [heq]
    exact h.of_carried_steady hcarried hagrees hoverlay (fun file => Or.inl (htasks file))
  · rw [heq] at huntroubled ⊢
    have hcalled := h.of_carried_steady hcarried hagrees hoverlay
      (fun file => Or.inl (htasks file))
    exact hcalled.dispatch huntroubled

theorem UpToDate.handleRemoved (h : UpToDate s seen d due e log) (files : List FileId) :
    UpToDate s seen d [] (e.handleRemoved files).2 log :=
  h.of_carried_steady (h.agrees.carried_handleRemoved files) (h.agrees.handleRemoved files)
    (h.agrees.overlay_handleRemoved files) (h.agrees.taskFor?_handleRemoved files)

theorem UpToDate.handleChange (h : UpToDate s seen d due e log) {env : Environment}
    (change : PathChange)
    (huntroubled : (Engine.handleChange env e change).2.scheduler.Untroubled) :
    UpToDate s seen d [] (Engine.handleChange env e change).2 log := by
  cases change with
  | changed files => exact h.handleChanged files huntroubled
  | removed files => exact h.handleRemoved files

theorem UpToDate.of_carried_unasked (h : UpToDate s seen d due e log)
    (hidle : e.scheduler.jobs = []) (hcarried : Carried e e') (hagrees : e'.Agrees) {d' : Disk}
    (hnow : ⟨d', e'.overlay⟩ ∈ seen) : UpToDate s seen d' [] e' log :=
  h.of_carried_idle hidle hcarried hagrees hnow (fun _task htask => absurd htask List.not_mem_nil)

theorem UpToDate.removeParts (h : UpToDate s seen d due e log)
    (hidle : e.scheduler.jobs = []) (ids : List PartId)
    (hnow : ⟨d, (e.removeParts ids).2.overlay⟩ ∈ seen) :
    UpToDate s seen d [] (e.removeParts ids).2 log :=
  h.of_carried_unasked hidle (h.agrees.carried_removeParts ids) (h.agrees.removeParts ids) hnow

theorem UpToDate.updateGenerated (h : UpToDate s seen d due e log)
    (hidle : e.scheduler.jobs = []) {env : Environment} {files : List (Path × String)}
    (htext : forall f, f ∈ files -> f.1.IsText)
    (hnow : ⟨d, (Engine.updateGenerated env e files).2.overlay⟩ ∈ seen)
    (huntroubled : (Engine.updateGenerated env e files).2.scheduler.Untroubled) :
    UpToDate s seen d [] (Engine.updateGenerated env e files).2 log := by
  have hset := h.agrees.setContents files
  have hcarried := h.agrees.carried_setContents htext
  revert hnow huntroubled
  unfold Engine.updateGenerated
  dsimp only
  split
  · intro hnow _huntroubled
    exact h.of_carried_unasked hidle hcarried hset hnow
  · have hwatched := hset.with_watcher
      ((e.setContents files).2.watcher.remove (e.setContents files).1)
    intro hnow huntroubled
    rw [hwatched.overlay_handleChange] at hnow
    have hcontents := h.of_carried_unasked hidle
      (hcarried.trans (carried_with_watcher _ _)) hwatched hnow
    exact hcontents.handleChange _ huntroubled

theorem UpToDate.removeGenerated (h : UpToDate s seen d due e log)
    (hidle : e.scheduler.jobs = []) {env : Environment} {paths : List Path}
    (htext : forall p, p ∈ paths -> p.IsText)
    (hnow : ⟨d, (Engine.removeGenerated env e paths).2.overlay⟩ ∈ seen)
    (huntroubled : (Engine.removeGenerated env e paths).2.scheduler.Untroubled) :
    UpToDate s seen d [] (Engine.removeGenerated env e paths).2 log := by
  have hdropped := (h.agrees.dropContents env.disk paths).with_watcher
    ((Engine.dropContents env.disk e paths).2.watcher.add env.backend
      ((Engine.dropContents env.disk e paths).1.1.filter fun f =>
        (Engine.dropContents env.disk e paths).2.isOwned f.1))
  have hcarried := (h.agrees.carried_dropContents env.disk htext).trans
    (carried_with_watcher _ ((Engine.dropContents env.disk e paths).2.watcher.add env.backend
      ((Engine.dropContents env.disk e paths).1.1.filter fun f =>
        (Engine.dropContents env.disk e paths).2.isOwned f.1)))
  have hcontents := fun hnow => @UpToDate.of_carried_unasked s seen d due e _ log h hidle hcarried
    hdropped d hnow
  revert hnow huntroubled
  unfold Engine.removeGenerated
  dsimp only
  split
  · split
    · intro hnow _huntroubled
      exact hcontents hnow
    · intro hnow huntroubled
      rw [hdropped.overlay_handleChange] at hnow
      exact (hcontents hnow).handleChange _ huntroubled
  · split
    · intro hnow huntroubled
      rw [hdropped.overlay_handleChange] at hnow
      exact (hcontents hnow).handleChange _ huntroubled
    · intro hnow huntroubled
      have hchanged := @Agrees.handleChange _ env hdropped
        (.changed ((Engine.dropContents env.disk e paths).1.1.map Prod.fst))
      rw [hchanged.overlay_handleChange, hdropped.overlay_handleChange] at hnow
      have hbefore := huntroubled.of_prefix (hchanged.reports_handleChange _)
      exact ((hcontents hnow).handleChange _ hbefore).handleChange _ huntroubled

/-- The tasks of the parts that passed the checks. -/
def tasksAsked (accepted : List PreparedPart) : List Task :=
  accepted.flatMap fun part => part.files.map part.task

theorem UpToDate.updateParts (h : UpToDate s seen d due e log)
    (hidle : e.scheduler.jobs = []) {parts : List Part} (hids : (parts.map Part.id).Nodup)
    (htext : forall part, part ∈ parts -> forall p, p ∈ part.files -> p.IsText)
    (hindexable : forall file, Indexable (s.environment d) file (Engine.prepare ∅ e parts).2
      (Engine.prepare ∅ e parts).1.1)
    (huntroubled : (Engine.updateParts (s.environment d) e parts).2.scheduler.Untroubled) :
    UpToDate s seen d (tasksAsked (Engine.prepare ∅ e parts).1.1)
      (Engine.updateParts (s.environment d) e parts).2 log := by
  rcases h.agrees.prepare ∅ parts with ⟨hprepared, hinterned, haccepted, -⟩
  have hissued : Carried e (Engine.prepare ∅ e parts).2 :=
    hinterned.carried (fun htextual => htextual.prepare ∅ htext)
  rcases hprepared.carried_applyParts (hissued.owned h.owned) haccepted.sourced
    (haccepted.ids.nodup hids) haccepted.disjoint hindexable with
    ⟨happlied, hoverlay, -, hfresh⟩
  have hsubmitted : UpToDate s seen d (tasksAsked (Engine.prepare ∅ e parts).1.1)
      (Engine.applyParts (s.environment d) (Engine.prepare ∅ e parts).2
        (Engine.prepare ∅ e parts).1.1).2 log := by
    apply h.of_carried_idle hidle (hissued.trans happlied)
      (hprepared.applyParts _ haccepted.sourced)
    · rw [hoverlay, hinterned.overlay]
      exact h.now
    · intro task htask
      rcases List.mem_flatMap.mp htask with ⟨part, hpart, hmem⟩
      rcases List.mem_map.mp hmem with ⟨file, hfile, rfl⟩
      exact hfresh part hpart file hfile
  revert huntroubled
  unfold Engine.updateParts
  dsimp only
  split
  · intro huntroubled
    exact hsubmitted.dispatch huntroubled
  · intro _huntroubled
    exact hsubmitted

/-!
# At rest
-/

theorem UpToDate.answered_of_rest (h : UpToDate s seen d due e log)
    (hqueue : e.scheduler.queue.isEmpty = true) (hidle : e.scheduler.jobs = []) {task : Task}
    (htask : task ∈ due) :
    exists p status r, e.path? task.file = some p ∧ e.overlay.currentStatus d p = .ok status ∧
      Answered s seen p status task.arguments r ∧
      e.storage.store.Records task.file task.part r := by
  have hnot : forall file, ¬ Pending e file := by
    intro file hpending
    rcases hpending with ⟨other, -, hqueued | ⟨ticket, job, hjob, -⟩⟩
    · rw [(TaskQueue.isEmpty_iff _).mp hqueue file] at hqueued
      cases hqueued
    · rw [hidle] at hjob
      cases hjob
  rcases h.fresh task htask with ⟨hasked, hpending | ⟨status, hstatus, row, hrow, hpart, hsame⟩⟩
  · exact absurd hpending (hnot _)
  · rcases h.current task.file row hrow with hpending | ⟨p, other, r, hp, hother, hanswer, hrecords⟩
    · exact absurd hpending (hnot _)
    · have heq : other = task := Option.some.inj (hother.symm.trans hasked)
      rw [heq, hsame] at hanswer
      rw [hpart] at hrecords
      rw [currentStatus?, hp, Option.bind_some] at hstatus
      refine ⟨p, status, r, hp, ?_, hanswer, hrecords⟩
      change (e.overlay.currentStatus d p).toOption = some status at hstatus
      cases hcurrent : e.overlay.currentStatus d p with
      | error fault =>
          rw [hcurrent] at hstatus
          cases hstatus
      | ok now =>
          rw [hcurrent] at hstatus
          cases hstatus
          rfl

end Engine
end SymbolIndex
