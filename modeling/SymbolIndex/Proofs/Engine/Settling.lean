import SymbolIndex.Proofs.Engine.Placement
import SymbolIndex.Proofs.Engine.Scheduling

/-!
# Until all is at rest

After a submission the workers go on and the notifications that it raised are handled.
None of this changes what the store has of the parts, and a file that can be seen and
watched ends up indexed for its part in the state in which it is, as long as no task
fails. The one thing that may spoil this is a job that was handed out before the
submission and had read another state of its file by then: it lands in the course of the
drain and leaves the old state in the store.
-/

namespace SymbolIndex

/-- The state in which a worker saw its file. -/
def Job.seen? (job : Job) : Option FileStatus :=
  match job.stage with
  | .reading _ status => some status
  | .collected status _ => some status
  | _ => none

namespace Engine

variable {env : Environment} {e e' : Engine} {part : PreparedPart}
  {asked done : List PreparedPart} {file : FileId} {ticket : Nat}

/-- Whatever jobs of some parts saw of their files is what can be seen of them now. -/
def ReadPresent (env : Environment) (asked : List PreparedPart) (e : Engine) (jobs : List Job) :
    Prop :=
  forall job, job ∈ jobs ->
    (exists part, part ∈ asked ∧ job.task.part = part.id ∧ job.task.file ∈ part.files) ->
    forall status now, job.seen? = some status ->
      currentStatus? env e job.task.file = some now -> status = now

theorem ReadPresent.of_seen {jobs : List Job} (h : ReadPresent env asked e jobs)
    (hseen : forall file, currentStatus? env e' file = currentStatus? env e file) :
    ReadPresent env asked e' jobs := by
  intro job hjob hasked status now hstatus hnow
  rw [hseen] at hnow
  exact h job hjob hasked status now hstatus hnow

/-- A file is indexed for a part in a state, or a task of the part is going to index it. -/
inductive Underway (e : Engine) (part : PartId) (file : FileId) (status : FileStatus) : Prop where
  | queued (task : Task) (hqueued : e.scheduler.queue.get? file = some task)
      (hpart : task.part = part)
  | running (ticket : Nat) (task : Task) (hruns : e.scheduler.Runs ticket task)
      (hfile : task.file = file) (hpart : task.part = part)
  | indexed (hindexed : e.storage.store.IsIndexed file part status)

/-- Some of the parts were applied, and their files are on their way to be indexed as they are. -/
structure Settling (env : Environment) (asked done : List PreparedPart) (e : Engine) : Prop
    extends Placed done e where
  ticketed : e.scheduler.Ticketed
  present : ReadPresent env asked e e.scheduler.jobs
  underway : forall part, part ∈ done -> forall file, file ∈ part.files ->
    e.watcher.isUnwatchable file = false -> forall status,
      currentStatus? env e file = some status -> Underway e part.id file status

theorem settling_nil (h : e.Agrees) (hticketed : e.scheduler.Ticketed)
    (houtbox : e.watcher.outbox = []) (hpresent : ReadPresent env asked e e.scheduler.jobs) :
    Settling env asked [] e where
  toPlaced := placed_nil h houtbox
  ticketed := hticketed
  present := hpresent
  underway := fun _part hpart => absurd hpart List.not_mem_nil

theorem Underway.of_sameAt {id : PartId} {status : FileStatus} (h : Underway e id file status)
    (hsame : SameAt file e e') (hjobs : e'.scheduler.jobs = e.scheduler.jobs) :
    Underway e' id file status := by
  cases h with
  | queued task hqueued hpart => exact .queued task (hsame.queued.trans hqueued) hpart
  | running ticket task hruns hfile hpart =>
      refine .running ticket task ?_ hfile hpart
      rw [Scheduler.Runs, hjobs]
      exact hruns
  | indexed hindexed =>
      apply Underway.indexed
      rw [Store.IsIndexed, hsame.status]
      exact hindexed

theorem Agrees.underway_applyPart (h : e.Agrees)
    (hsources : forall file, file ∈ part.files -> e.storage.store.hasSource file = true)
    (hfile : file ∈ part.files)
    (hwatchable : (Engine.applyPart env e part).2.watcher.isUnwatchable file = false)
    {status : FileStatus} (hstatus : currentStatus? env e file = some status) :
    Underway (Engine.applyPart env e part).2 part.id file status := by
  have happlied := (h.applyPart env hsources).2
  by_cases hdue : file ∈ (tasksOf env e part).map Task.file
  · exact .queued (part.task file) (by rw [happlied.queued, if_pos hdue]) rfl
  · have hindexed : e.storage.store.IsIndexed file part.id status := by
      by_contra hmissing
      exact hdue ((h.mem_tasksOf_iff hsources file).mpr
        ⟨hfile, hwatchable, status, hstatus, Or.inr hmissing⟩)
    rcases hindexed with ⟨row, hrow, hpart, hsame⟩
    have hstays : file ∉ e.departed part := fun hgone => ((h.mem_departed file).mp hgone).2 hfile
    refine .indexed ⟨row, ?_, hpart, hsame⟩
    rw [happlied.statuses, if_neg hstays, hrow]
    simp [Store.takesAway, hpart, Option.filter_some]

theorem Settling.applyPart (h : Settling env asked done e)
    (hsources : forall file, file ∈ part.files -> e.storage.store.hasSource file = true)
    (hseparate : Separate part done) :
    Settling env asked (done ++ [part]) (Engine.applyPart env e part).2 := by
  have happlied := (h.agrees.applyPart env hsources).2
  have hseen : forall file, currentStatus? env (Engine.applyPart env e part).2 file =
      currentStatus? env e file := by
    intro file
    rw [currentStatus?, currentStatus?, happlied.paths, happlied.overlay]
  rcases happlied.scheduler with ⟨queue, hscheduler, -⟩
  refine
    { toPlaced := h.toPlaced.applyPart hsources hseparate env
      ticketed := by rw [hscheduler]; exact h.ticketed.of_jobs_eq rfl rfl
      present := by rw [hscheduler]; exact h.present.of_seen hseen
      underway := ?_ }
  intro other hother file hfile hwatchable status hstatus
  rw [hseen] at hstatus
  rcases List.mem_append.mp hother with hold | hlast
  · have hsame := h.toPlaced.sameAt hseparate happlied hold hfile
    rw [hsame.watch] at hwatchable
    exact (h.underway other hold file hfile hwatchable status hstatus).of_sameAt hsame
      (by rw [hscheduler])
  · rw [List.mem_singleton.mp hlast] at hfile ⊢
    exact h.agrees.underway_applyPart hsources hfile hwatchable hstatus

/-!
# Steps of a drain
-/

theorem Settling.of_draining (h : Settling env done done e) (hdraining : Draining e e')
    (hticketed : e'.scheduler.Ticketed) (hpresent : ReadPresent env done e e'.scheduler.jobs)
    (hunderway : forall part, part ∈ done -> forall file, file ∈ part.files ->
      e.watcher.isUnwatchable file = false -> forall status,
        currentStatus? env e file = some status -> Underway e part.id file status ->
          Underway e' part.id file status) :
    Settling env done done e' where
  toPlaced := hdraining.placed h.toPlaced
  ticketed := hticketed
  present := hpresent.of_seen (hdraining.currentStatus? env)
  underway := by
    intro part hpart file hfile hwatchable status hstatus
    rw [hdraining.isUnwatchable] at hwatchable
    rw [hdraining.currentStatus?] at hstatus
    exact hunderway part hpart file hfile hwatchable status hstatus
      (h.underway part hpart file hfile hwatchable status hstatus)

theorem Agrees.draining_sweep (h : e.Agrees) :
    Draining e { e with scheduler := e.scheduler.freeSlots } :=
  .of_alike (Alike.refl _) (h.with_scheduler h.queue h.pending)

theorem Settling.sweep (h : Settling env done done e) :
    Settling env done done { e with scheduler := e.scheduler.freeSlots } := by
  refine h.of_draining h.agrees.draining_sweep h.ticketed.freeSlots ?_ ?_
  · exact fun job hjob => h.present job (List.mem_of_mem_filter hjob)
  · intro part _hpart file _hfile _hwatchable status _hstatus hunderway
    cases hunderway with
    | queued task hqueued hpart => exact .queued task hqueued hpart
    | running ticket task hruns hfile hpart =>
        exact .running ticket task ((Scheduler.runs_freeSlots _ _ _).mpr hruns) hfile hpart
    | indexed hindexed => exact .indexed hindexed

theorem Agrees.draining_dispatch (h : e.Agrees) (env : Environment) :
    Draining e (Engine.dispatch env e) :=
  .of_alike (Alike.refl _) h.dispatch

theorem Settling.dispatch (h : Settling env done done e)
    (huntroubled : (dispatch env e).scheduler.UntroubledSince e.scheduler.reports.length) :
    Settling env done done (Engine.dispatch env e) := by
  rcases Scheduler.exists_dispatched h.agrees.queue env.fails with ⟨handed, hlaunched⟩
  have hfate := hlaunched.fate huntroubled
  have hruns := hlaunched.runs
  refine h.of_draining (h.agrees.draining_dispatch env) (h.ticketed.dispatch env.fails) ?_ ?_
  · intro job hjob hasked status now hstatus
    have hjobs : job ∈ e.scheduler.freeSlots.jobs ++ handed := by
      rw [← hlaunched.jobs]
      exact hjob
    rcases List.mem_append.mp hjobs with hold | hnew
    · exact h.present job (List.mem_of_mem_filter hold) hasked status now hstatus
    · rw [Job.seen?, hlaunched.assigned job hnew] at hstatus
      cases hstatus
  · intro part _hpart file _hfile _hwatchable status _hstatus hunderway
    cases hunderway with
    | queued task hqueued hpart =>
        rcases hfate file with ⟨hsame, -⟩ | ⟨job, hjob, hfile, hjobQueued, -, -⟩
        · exact .queued task (hsame.trans hqueued) hpart
        · have heq : job.task = task := Option.some.inj (hjobQueued.symm.trans hqueued)
          exact .running job.ticket job.task ((hruns _ _).mpr (Or.inr ⟨job, hjob, rfl, rfl⟩))
            hfile (heq ▸ hpart)
    | running ticket task hrunning hfile hpart =>
        refine .running ticket task ((hruns _ _).mpr (Or.inl ?_)) hfile hpart
        exact (Scheduler.runs_freeSlots _ _ _).mpr hrunning
    | indexed hindexed => exact .indexed hindexed

/-!
# Steps of workers
-/

theorem Agrees.draining_worked (h : e.Agrees) (hworked : Worked env e ticket e')
    (hagrees : e'.Agrees) : Draining e e' := by
  cases hworked with
  | idle hidle => exact Draining.refl h
  | begins job p status hjob hstage hpath hstatus halike => exact .of_alike halike hagrees
  | collects job p status r hjob hstage hanswer halike => exact .of_alike halike hagrees
  | fails job outcome poisoned hjob hfailure halike => exact .of_alike halike hagrees
  | lands job status r outcome wrote t hjob hstage hok =>
      rcases h.store.linked.frame_applyResults hok with ⟨hsources, hparts, hmembers, -⟩
      exact
        { agrees := hagrees
          members := hmembers
          stored := hparts
          sources := hsources
          paths := fun id => PathBook.path?_of_sources_eq hsources id
          overlay := rfl
          watcher := ⟨_, rfl, fun _ hchange => hchange⟩
          known := PathBook.Extends.refl e.book }

section Stage

variable {job : Job} {stage : Stage}

theorem Underway.setStage {id : PartId} {status : FileStatus} (h : Underway e id file status)
    (hticketed : e.scheduler.Ticketed) (hjob : e.scheduler.job? job.ticket = some job)
    (hruns : job.isFinished = false) (hstage : { job with stage }.isFinished = false) :
    Underway (e.setStage job stage) id file status := by
  cases h with
  | queued task hqueued hpart => exact .queued task hqueued hpart
  | running ticket task hrunning hfile hpart =>
      exact .running ticket task ((hticketed.runs_setStage hjob hruns hstage _ _).mpr hrunning)
        hfile hpart
  | indexed hindexed => exact .indexed hindexed

theorem Settling.setStage (h : Settling env done done e)
    (hjob : e.scheduler.job? job.ticket = some job) (hruns : job.isFinished = false)
    (hstage : { job with stage }.isFinished = false)
    (hseen : (exists part, part ∈ done ∧ job.task.part = part.id ∧ job.task.file ∈ part.files) ->
      forall status now, { job with stage }.seen? = some status ->
        currentStatus? env e job.task.file = some now -> status = now) :
    Settling env done done (e.setStage job stage) := by
  refine h.of_draining (.of_alike (Alike.refl _) (h.agrees.setStage job stage))
    (h.ticketed.setStage job.ticket stage) ?_ ?_
  · intro found hfound
    rcases h.ticketed.eq_of_mem_setStage (Scheduler.mem_of_job? hjob).1 hfound with hold | rfl
    · exact h.present found hold
    · exact hseen
  · intro part _hpart file _hfile _hwatchable status _hstatus hunderway
    exact hunderway.setStage h.ticketed hjob hruns hstage

end Stage

theorem Settling.of_alike (h : Settling env done done e) (halike : Alike e e')
    (hagrees : e'.Agrees) : Settling env done done e' := by
  refine h.of_draining (.of_alike halike hagrees) ?_ ?_ ?_
  · rw [halike.scheduler]
    exact h.ticketed
  · rw [halike.scheduler]
    exact h.present
  · intro part _hpart file _hfile _hwatchable status _hstatus hunderway
    exact hunderway.of_sameAt (halike.sameAt file) (by rw [halike.scheduler])

section Lands

variable {job : Job} {status : FileStatus} {r : Results} {outcome : ApplyOutcome}
  {wrote : Bool} {t : Store}

/-- A job that lands has indexed its file for its part, or its file is not of its part. -/
theorem Agrees.underway_lands (h : e.Agrees) (hticketed : e.scheduler.Ticketed)
    (hjob : e.scheduler.job? job.ticket = some job)
    (hok : e.storage.store.applyResults job.task status r = .ok (outcome, wrote, t))
    {id : PartId} (hmember : e.storage.store.members.get? file = some id) {now : FileStatus}
    (hpresent : job.task.file = file -> job.task.part = id -> status = now)
    (hunderway : Underway e id file now) :
    Underway ({ e with storage := e.storage.advance wrote t }.finishJob job
      (outcomeOf outcome) false) id file now := by
  by_cases howns : job.task.file = file ∧ job.task.part = id
  · rcases howns with ⟨rfl, rfl⟩
    have hcurrent : e.storage.store.isCurrent job.task = true :=
      (Store.isCurrent_iff h.store job.task).mpr hmember
    refine .indexed ⟨Store.rowOf job.task status r, ?_, rfl, hpresent rfl rfl⟩
    exact Store.get?_statuses_applyResults hok hcurrent
  · cases hunderway with
    | queued task hqueued hpart => exact .queued task hqueued hpart
    | running ticket task hruns hfile hpart =>
        refine .running ticket task ((Scheduler.runs_finish _ _ _ _ _ _).mpr ⟨hruns, ?_⟩) hfile
          hpart
        -- the job that lands is another one, as its task is
        intro hsame
        rcases hruns with ⟨found, hfound, hticket, htask, -⟩
        have heq := hticketed.eq_of_ticket_eq hfound (Scheduler.mem_of_job? hjob).1
          (hticket.trans hsame)
        rw [← htask, heq] at hfile hpart
        exact howns ⟨hfile, hpart⟩
    | indexed hindexed =>
        have hstatus : t.statuses.get? file = e.storage.store.statuses.get? file := by
          apply h.store.linked.status_of_foreign hok
          rintro hcurrent rfl
          have howner := (Store.isCurrent_iff h.store job.task).mp hcurrent
          rw [hmember, Option.some.injEq] at howner
          exact howns ⟨rfl, howner.symm⟩
        apply Underway.indexed
        show t.IsIndexed file id now
        rw [Store.IsIndexed, hstatus]
        exact hindexed

theorem Settling.lands (h : Settling env done done e)
    (hjob : e.scheduler.job? job.ticket = some job) (hstage : job.stage = .collected status r)
    (hok : e.storage.store.applyResults job.task status r = .ok (outcome, wrote, t))
    (hagrees : ({ e with storage := e.storage.advance wrote t }.finishJob job
      (outcomeOf outcome) false).Agrees) :
    Settling env done done ({ e with storage := e.storage.advance wrote t }.finishJob job
      (outcomeOf outcome) false) := by
  have hmem := (Scheduler.mem_of_job? hjob).1
  have hworked : Worked env e job.ticket ({ e with storage := e.storage.advance wrote t }.finishJob
      job (outcomeOf outcome) false) := .lands job status r outcome wrote t hjob hstage hok
  have hdraining := h.agrees.draining_worked hworked hagrees
  refine h.of_draining hdraining (h.ticketed.finish job _ _) ?_ ?_
  · intro found hfound
    rcases h.ticketed.eq_of_mem_setStage hmem hfound with hold | rfl
    · exact h.present found hold
    · intro _hasked status now hstatus
      cases hstatus
  · intro part hpart file hfile _hwatchable now hnow hunderway
    refine h.agrees.underway_lands h.ticketed hjob hok
      (((h.stored part hpart).members file).mpr hfile) ?_ hunderway
    rintro rfl howner
    exact h.present job hmem ⟨part, hpart, howner, hfile⟩ status now
      (by rw [Job.seen?, hstage]) hnow

end Lands

theorem Settling.worked (h : Settling env done done e) (hworked : Worked env e ticket e')
    (hagrees : e'.Agrees)
    (huntroubled : e'.scheduler.UntroubledSince e.scheduler.reports.length) :
    Settling env done done e' := by
  cases hworked with
  | idle hidle => exact h
  | begins job p status hjob hstage hpath hstatus halike =>
      rcases Scheduler.mem_of_job? hjob with ⟨hmem, rfl⟩
      refine (h.setStage hjob (by rw [Job.isFinished, hstage]) rfl ?_).of_alike halike hagrees
      intro _hasked seen now hseen hnow
      cases hseen
      rw [currentStatus?, hpath, Option.bind_some, hstatus] at hnow
      exact Option.some.inj hnow
  | collects job p status r hjob hstage hanswer halike =>
      rcases Scheduler.mem_of_job? hjob with ⟨hmem, rfl⟩
      refine (h.setStage hjob (by rw [Job.isFinished, hstage]) rfl ?_).of_alike halike hagrees
      intro hasked seen now hseen hnow
      cases hseen
      exact h.present job hmem hasked status now (by rw [Job.seen?, hstage]) hnow
  | fails job outcome poisoned hjob hfailure halike =>
      exact absurd huntroubled (not_untroubled_of_fails hfailure halike)
  | lands job status r outcome wrote t hjob hstage hok =>
      rcases Scheduler.mem_of_job? hjob with ⟨hmem, rfl⟩
      exact h.lands hjob hstage hok hagrees

/-!
# Handling what was announced
-/

/-- What was announced is that files were removed; those that are owned cannot be watched. -/
def Harmless (e : Engine) : Prop :=
  forall change, change ∈ e.watcher.outbox -> exists files, change = .removed files ∧
    forall file, file ∈ files -> e.isOwned file = true -> e.watcher.isUnwatchable file = true

theorem Placed.harmless (h : Placed done e) : e.Harmless := by
  intro change hchange
  rcases h.announced change hchange with ⟨files, hremoved, hfiles⟩
  exact ⟨files, hremoved, fun file hfile _howned => (hfiles file hfile).1⟩

theorem handleRemoved_of_unwatchable {files : List FileId}
    (h : forall file, file ∈ files -> e.isOwned file = true ->
      e.watcher.isUnwatchable file = true) :
    e.handleRemoved files = (0, e.detach (files.filter e.isOwned)) := by
  have howned : forall file, file ∈ files.filter e.isOwned ->
      e.watcher.isUnwatchable file = true := fun file hfile =>
    h file (List.mem_of_mem_filter hfile) (List.mem_filter.mp hfile).2
  have hall : (files.filter e.isOwned).filter e.watcher.isUnwatchable = files.filter e.isOwned :=
    List.filter_eq_self.mpr howned
  have hnone :
      ((files.filter e.isOwned).filter fun file => !e.watcher.isUnwatchable file) = [] := by
    rw [List.filter_eq_nil_iff]
    intro file hfile
    simp [howned file hfile]
  unfold handleRemoved
  dsimp only
  rw [hall, hnone]
  rfl

theorem Harmless.receive_eq (h : e.Harmless) (env : Environment) :
    exists outbox files, (forall change, change ∈ outbox -> change ∈ e.watcher.outbox) ∧
      (forall file, file ∈ files ->
        e.isOwned file = true ∧ e.watcher.isUnwatchable file = true) ∧
      World.receive env e =
        ({ e with watcher := { e.watcher with outbox } } : Engine).detach files := by
  unfold World.receive Watcher.receive
  cases houtbox : e.watcher.outbox with
  | nil =>
      refine ⟨[], [], fun _ hchange => hchange, fun file hfile => absurd hfile List.not_mem_nil, ?_⟩
      have hsame : { e.watcher with outbox := [] } = e.watcher := by rw [← houtbox]
      rw [hsame]
      rfl
  | cons change outbox =>
      rcases h change (by rw [houtbox]; exact List.mem_cons_self) with ⟨files, rfl, hfiles⟩
      refine ⟨outbox, files.filter e.isOwned, fun _ hchange => List.mem_cons_of_mem _ hchange,
        ?_, ?_⟩
      · intro file hfile
        rcases List.mem_filter.mp hfile with ⟨hmem, howned⟩
        exact ⟨howned, hfiles file hmem howned⟩
      · have hremoved := handleRemoved_of_unwatchable
          (e := { e with watcher := { e.watcher with outbox } }) hfiles
        exact congrArg Prod.snd hremoved

theorem Agrees.draining_detach (h : e.Agrees) (files : List FileId) :
    Draining e (e.detach files) := by
  rcases h.detach files with ⟨hdetached, hagrees⟩
  exact
    { agrees := hagrees
      members := hdetached.members
      stored := hdetached.stored
      sources := hdetached.sources
      paths := by
        intro id
        rw [path?, hdetached.book, PathBook.path?_of_sources_eq hdetached.sources]
        rfl
      overlay := hdetached.overlay
      watcher := ⟨e.watcher.outbox, hdetached.watcher, fun _ hchange => hchange⟩
      known := by
        rw [hdetached.book]
        exact PathBook.Extends.refl e.book }

theorem Agrees.draining_receive (h : e.Agrees) (hharmless : e.Harmless) (env : Environment) :
    Draining e (World.receive env e) := by
  rcases hharmless.receive_eq env with ⟨outbox, files, houtbox, -, heq⟩
  have hwatched := h.with_watcher { e.watcher with outbox }
  have hannounced : Draining e { e with watcher := { e.watcher with outbox } } :=
    ⟨hwatched, rfl, rfl, rfl, fun _ => rfl, rfl, ⟨outbox, rfl, houtbox⟩,
      PathBook.Extends.refl e.book⟩
  rw [heq]
  exact hannounced.trans (hwatched.draining_detach files)

theorem Settling.receive (h : Settling env done done e) :
    Settling env done done (World.receive env e) := by
  have hdraining := h.agrees.draining_receive h.toPlaced.harmless env
  rcases h.toPlaced.harmless.receive_eq env with ⟨outbox, files, -, hunwatchable, heq⟩
  rcases (h.agrees.with_watcher { e.watcher with outbox }).detach files with ⟨hdetached, -⟩
  rcases scheduler_detach { e with watcher := { e.watcher with outbox } } files with
    ⟨queue, hscheduler, hqueue⟩
  rw [heq] at hdraining ⊢
  refine h.of_draining hdraining ?_ ?_ ?_
  · rw [hscheduler]
    exact h.ticketed.of_jobs_eq rfl rfl
  · rw [hscheduler]
    exact h.present
  · intro part _hpart file _hfile hwatchable status _hstatus hunderway
    have hstays : file ∉ files := by
      intro hmem
      rw [(hunwatchable file hmem).2] at hwatchable
      cases hwatchable
    cases hunderway with
    | queued task hqueued hpart =>
        refine .queued task ?_ hpart
        rw [hscheduler]
        dsimp only
        rw [hqueue, if_neg hstays]
        exact hqueued
    | running ticket task hruns hfile hpart =>
        refine .running ticket task ?_ hfile hpart
        rw [hscheduler]
        exact hruns
    | indexed hindexed =>
        apply Underway.indexed
        rw [Store.IsIndexed, hdetached.statuses, if_neg hstays]
        exact hindexed

end Engine

namespace World

variable {s : Surroundings} {w : World} {done : List PreparedPart}

/-- The workers go on, or a notification is handled. -/
def isSettling : Event -> Bool
  | .work _ => true
  | .dispatch => true
  | .sweep => true
  | .receive => true
  | _ => false

theorem disk_happen {event : Event} (hevent : isSettling event = true) :
    (happen s w event).disk = w.disk := by
  cases event with
  | work ticket => rfl
  | dispatch => rfl
  | sweep => rfl
  | receive => rfl
  | _ => cases hevent

theorem draining_happen (h : Engine.Placed done w.engine) {event : Event}
    (hevent : isSettling event = true) : Engine.Draining w.engine (happen s w event).engine := by
  cases event with
  | work ticket =>
      exact h.agrees.draining_worked (Engine.worked_stepTicket _ _ ticket)
        (h.agrees.stepTicket ticket)
  | dispatch => exact h.agrees.draining_dispatch _
  | sweep => exact h.agrees.draining_sweep
  | receive => exact h.agrees.draining_receive h.harmless _
  | _ => cases hevent

theorem draining_run (h : Engine.Placed done w.engine) {drain : List Event}
    (hdrain : forall event, event ∈ drain -> isSettling event = true) :
    (run s w drain).disk = w.disk ∧ Engine.Draining w.engine (run s w drain).engine := by
  induction drain generalizing w with
  | nil => exact ⟨rfl, Engine.Draining.refl h.agrees⟩
  | cons event rest ih =>
      have hevent := hdrain event List.mem_cons_self
      have hone := draining_happen (s := s) h hevent
      rcases ih (hone.placed h) (fun next hnext => hdrain next (List.mem_cons_of_mem _ hnext)) with
        ⟨hdisk, hrest⟩
      exact ⟨hdisk.trans (disk_happen hevent), hone.trans hrest⟩

theorem settling_happen (h : Engine.Settling (s.environment w.disk) done done w.engine)
    {event : Event} (hevent : isSettling event = true)
    (huntroubled : (happen s w event).engine.scheduler.UntroubledSince
      w.engine.scheduler.reports.length) :
    Engine.Settling (s.environment w.disk) done done (happen s w event).engine := by
  cases event with
  | work ticket =>
      exact h.worked (Engine.worked_stepTicket _ _ ticket) (h.agrees.stepTicket ticket) huntroubled
  | dispatch => exact h.dispatch huntroubled
  | sweep => exact h.sweep
  | receive => exact h.receive
  | _ => cases hevent

theorem isSettling_restart {drain : List Event}
    (hdrain : forall event, event ∈ drain -> isSettling event = true) (concurrency : Nat) :
    .restart concurrency ∉ drain := by
  intro hmem
  cases hdrain _ hmem

theorem settling_run (h : Engine.Settling (s.environment w.disk) done done w.engine)
    {drain : List Event} (hdrain : forall event, event ∈ drain -> isSettling event = true)
    (huntroubled : (run s w drain).engine.scheduler.UntroubledSince
      w.engine.scheduler.reports.length) :
    Engine.Settling (s.environment w.disk) done done (run s w drain).engine := by
  induction drain generalizing w with
  | nil => exact h
  | cons event rest ih =>
      have hevent := hdrain event List.mem_cons_self
      have hrest : forall next, next ∈ rest -> isSettling next = true :=
        fun next hnext => hdrain next (List.mem_cons_of_mem _ hnext)
      have hagrees := agrees_happen (s := s) h.agrees event
      have hfirst : w.engine.scheduler.reports <+: (happen s w event).engine.scheduler.reports :=
        kept_happen (Engine.kept_reports s.fails _) h.agrees (List.prefix_refl _)
          (fun _ heq => by rw [heq] at hevent; cases hevent)
      have hlater := reports_run (s := s) hagrees (isSettling_restart hrest)
      have hone := settling_happen h hevent
        (huntroubled.of_prefix hlater (Nat.le_refl _))
      rw [← disk_happen (s := s) (w := w) hevent] at hone ⊢
      exact ih hone hrest (huntroubled.of_prefix (List.prefix_refl _) hfirst.length_le)

end World
end SymbolIndex
