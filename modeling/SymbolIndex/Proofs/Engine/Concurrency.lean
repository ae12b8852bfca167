import Mathlib.Data.List.Perm.Basic
import SymbolIndex.Proofs.Engine.Incremental
import SymbolIndex.Proofs.Scheduler.Effort
import SymbolIndex.Proofs.Storage.Order

/-!
# How many workers there are

While nothing but the workers goes on, what becomes of a task is settled before it is
handed out: its file is found in one state, its collector has one answer, and storing
that answer depends on nothing that is stored about other files. The number of workers
decides in which order the tasks end. That order shows in the numbers of the symbols,
and neither in what is indexed nor in how many tasks ended in which way.
-/

namespace SymbolIndex

/-- What a worker finds out about a task. -/
inductive Finding where
  | delivers (d : Delivery)
  | fails (message : String)

namespace Finding

def delivery? : Finding -> Option Delivery
  | delivers d => some d
  | fails _ => none

/-- How a task ends of which this was found out. -/
def outcome (t : Storage) : Finding -> TaskOutcome
  | fails message => .parseFailed message
  | delivers d =>
      match (t.deliver d).1 with
      | .ok outcome => Engine.outcomeOf outcome
      | .error failure => .storageFailed failure.message

end Finding

theorem SchedulerCounters.record_dispatched (c : SchedulerCounters) (n : Nat)
    (outcome : TaskOutcome) :
    { c with dispatched := n }.record outcome = { c.record outcome with dispatched := n } := by
  cases outcome <;> rfl

/-!
# Jobs that run
-/

namespace Scheduler

open Drain (running)

variable {s : Scheduler} {job : Job}

theorem running_setStage (h : s.Ticketed) (hjob : s.job? job.ticket = some job)
    (hruns : job.isFinished = false) {stage : Stage}
    (hstage : { job with stage }.isFinished = false) :
    (running (s.setStage job.ticket stage)).map Job.task = (running s).map Job.task := by
  have hmem := (mem_of_job? hjob).1
  have hkept : forall other, other ∈ s.jobs ->
      (if other.ticket = job.ticket then { other with stage } else other).isFinished =
        other.isFinished := by
    intro other hother
    by_cases hticket : other.ticket = job.ticket
    · rw [if_pos hticket, h.eq_of_ticket_eq hother hmem hticket, hruns, hstage]
    · rw [if_neg hticket]
  rw [running, running, setStage, List.filter_map, List.map_map]
  refine (congrArg (List.map _) (List.filter_congr fun other hother =>
    congrArg not (hkept other hother))).trans ?_
  refine List.map_congr_left ?_
  intro other _hother
  rw [Function.comp_apply]
  split <;> rfl

/-- A job that ends is the only one that does not run any more. -/
theorem perm_running_finish (h : s.Ticketed) (hjob : s.job? job.ticket = some job)
    (hruns : job.isFinished = false) (outcome : TaskOutcome) (poisoned : Bool) :
    (running s).Perm (job :: running (s.finish job outcome poisoned)) := by
  have hmem := (mem_of_job? hjob).1
  have hrest : running (s.finish job outcome poisoned) =
      (running s).filter fun other => decide (other ≠ job) := by
    rw [running, running, finish, setStage, List.filter_map, List.filter_filter]
    have hended : forall other, other ∈ s.jobs ->
        (!(if other.ticket = job.ticket then { other with stage := .finished poisoned }
          else other).isFinished) = (decide (other ≠ job) && !other.isFinished) := by
      intro other hother
      by_cases hticket : other.ticket = job.ticket
      · rw [if_pos hticket, h.eq_of_ticket_eq hother hmem hticket]
        simp [Job.isFinished]
      · have hne : other ≠ job := fun heq => hticket (by rw [heq])
        rw [if_neg hticket, decide_eq_true hne, Bool.true_and]
    refine (congrArg (List.map _) (List.filter_congr hended)).trans ?_
    refine (List.map_congr_left ?_).trans (List.map_id _)
    intro other hother
    have hne : other ≠ job := by
      have hkept := (List.mem_filter.mp hother).2
      simp only [Bool.and_eq_true, decide_eq_true_iff] at hkept
      exact hkept.1
    have hticket : other.ticket ≠ job.ticket := fun heq =>
      hne (h.eq_of_ticket_eq (List.mem_of_mem_filter hother) hmem heq)
    exact if_neg hticket
  have hnodup : (running s).Nodup := by
    refine List.Nodup.of_map Job.ticket ?_
    exact (h.increasing.imp fun hlt => Nat.ne_of_lt hlt).sublist (List.filter_sublist.map _)
  have hfound : job ∈ running s := List.mem_filter.mpr ⟨hmem, by rw [hruns]; rfl⟩
  refine (List.perm_cons_erase hfound).trans ?_
  rw [hrest, hnodup.erase_eq_filter]
  refine List.Perm.of_eq (congrArg _ (List.filter_congr ?_))
  intro other _hother
  rw [bne, beq_eq_decide, decide_not]

/-- What a round of handing out does to a scheduler when every collector can be made. -/
structure HandedOut (s t : Scheduler) (handed : List Job) : Prop where
  queue : t.queue.Sound
  jobs : t.jobs = s.jobs ++ handed
  assigned : forall job, job ∈ handed -> job.stage = .assigned
  line : s.queue.toList = handed.map Job.task ++ t.queue.toList
  reports : t.reports = s.reports
  counters : t.counters =
    { s.counters with dispatched := s.counters.dispatched + handed.length }

theorem acquire_ne_error {fails : Nat -> Option Failure} (hmakes : forall n, fails n = none)
    (c c' : CollectorPool) (failure : Failure) :
    c.acquire fails ≠ some (.error failure, c') := by
  intro h
  have hfails := CollectorPool.fails_of_acquire_error h
  rw [hmakes] at hfails
  cases hfails

theorem exists_handedOut {fails : Nat -> Option Failure} (hmakes : forall n, fails n = none)
    (hqueue : s.queue.Sound) (n : Nat) : exists handed, HandedOut s (launch fails n s) handed := by
  refine launch_induction (P := fun t => exists handed, HandedOut s t handed) ?_ ?_ ?_ n s ?_
  · rintro t queue ⟨handed, ht⟩ hpop
    rw [(ht.queue.of_pop_none hpop).1]
    exact ⟨handed, ht⟩
  · rintro t task queue collector collectors ⟨handed, ht⟩ _hmay hpop _hacquire
    rcases ht.queue.get?_of_pop hpop with ⟨-, hsound, -⟩
    refine ⟨handed ++ [⟨t.nextTicket, task, collector, .assigned⟩], hsound, ?_, ?_, ?_,
      ht.reports, ?_⟩
    · simp [Scheduler.assign, ht.jobs]
    · intro job hjob
      rcases List.mem_append.mp hjob with hold | hnew
      · exact ht.assigned job hold
      · rw [List.mem_singleton.mp hnew]
    · rw [ht.line, ht.queue.toList_of_pop hpop]
      simp [Scheduler.assign]
    · simp [Scheduler.assign, ht.counters, Nat.add_assoc]
  · rintro t task queue failure collectors _ _hmay _hpop hacquire
    exact absurd hacquire (acquire_ne_error hmakes _ _ _)
  · exact ⟨[], hqueue, by simp, by simp, by simp, rfl, rfl⟩

end Scheduler

namespace Engine

open Drain (running)

variable {env : Environment} {e e' : Engine} {task : Task} {job : Job} {ticket : Nat}

/-!
# What a worker finds out
-/

def finding (env : Environment) (e : Engine) (task : Task) : Finding :=
  match e.path? task.file with
  | none => .fails (Failure.unknownFile task.file).message
  | some p =>
      match e.overlay.currentStatus env.disk p with
      | .error fault => .fails (p.display ++ ": " ++ (Failure.io fault).message)
      | .ok status =>
          match env.collect e.overlay p task.arguments with
          | .results r => .delivers ⟨task, status, r⟩
          | .failed failure => .fails failure.message
          | .panicked _ => .fails ("collector panicked on " ++ p.display)

def delivery? (env : Environment) (e : Engine) (task : Task) : Option Delivery :=
  (finding env e task).delivery?

/-- The deliveries that come of tasks, in the order of the tasks. -/
def deliveries (env : Environment) (e : Engine) (tasks : List Task) : List Delivery :=
  tasks.filterMap (delivery? env e)

/-- What becomes of a task. -/
def verdict (env : Environment) (e : Engine) (task : Task) : TaskOutcome :=
  (finding env e task).outcome e.storage

/-- What a worker has in hand is what it will have found out in the end. -/
def Bears (env : Environment) (e : Engine) (job : Job) : Prop :=
  match job.stage with
  | .reading p status =>
      e.path? job.task.file = some p ∧ e.overlay.currentStatus env.disk p = .ok status
  | .collected status r => finding env e job.task = .delivers ⟨job.task, status, r⟩
  | _ => True

theorem finding_congr (hpaths : forall id, e'.path? id = e.path? id)
    (hoverlay : e'.overlay = e.overlay) (task : Task) :
    finding env e' task = finding env e task := by
  rw [finding, finding, hpaths, hoverlay]

theorem bears_congr (hpaths : forall id, e'.path? id = e.path? id)
    (hoverlay : e'.overlay = e.overlay) (job : Job) : Bears env e' job ↔ Bears env e job := by
  rw [Bears, Bears, hpaths, hoverlay, finding_congr hpaths hoverlay]

theorem delivery?_congr (hpaths : forall id, e'.path? id = e.path? id)
    (hoverlay : e'.overlay = e.overlay) : delivery? env e' = delivery? env e := by
  funext task
  rw [delivery?, delivery?, finding_congr hpaths hoverlay]

theorem task_of_delivery? {d : Delivery} (h : delivery? env e task = some d) :
    d.task = task := by
  rw [delivery?] at h
  cases hfinding : finding env e task with
  | fails message =>
      rw [hfinding] at h
      cases h
  | delivers found =>
      rw [hfinding] at h
      cases h
      unfold finding at hfinding
      split at hfinding
      · cases hfinding
      · split at hfinding
        · cases hfinding
        · split at hfinding
          · cases hfinding
            rfl
          · cases hfinding
          · cases hfinding

theorem files_deliveries (env : Environment) (e : Engine) (tasks : List Task) :
    ((deliveries env e tasks).map fun d => d.task.file).Sublist (tasks.map Task.file) := by
  induction tasks with
  | nil => exact List.Sublist.refl _
  | cons task rest ih =>
      rw [deliveries, List.map_cons]
      cases hdelivery : delivery? env e task with
      | none =>
          rw [List.filterMap_cons_none hdelivery]
          exact ih.cons _
      | some d =>
          rw [List.filterMap_cons_some hdelivery, List.map_cons, task_of_delivery? hdelivery]
          exact ih.cons_cons _

/-- How a step of a worker takes its job on. -/
inductive Carries (env : Environment) (e : Engine) (job : Job) (e' : Engine) : Prop where
  | stage (stage : Stage) (hruns : { job with stage }.isFinished = false)
      (hbears : Bears env e { job with stage }) (halike : Alike (e.setStage job stage) e')
  | ends (poisoned : Bool) (halike : Alike
      ({ e with storage := e.storage.deliverAll (deliveries env e [job.task]) }.finishJob job
        (verdict env e job.task) poisoned) e')

theorem deliveries_of_delivers {d : Delivery} (h : finding env e task = .delivers d) :
    deliveries env e [task] = [d] := by
  have hdelivery : delivery? env e task = some d := congrArg Finding.delivery? h
  rw [deliveries, List.filterMap_cons_some hdelivery, List.filterMap_nil]

theorem Carries.of_fails {message : String} (hfinding : finding env e job.task = .fails message)
    {poisoned : Bool} (halike : Alike (e.finishJob job (.parseFailed message) poisoned) e') :
    Carries env e job e' := by
  have hdelivery : delivery? env e job.task = none := congrArg Finding.delivery? hfinding
  refine .ends poisoned ?_
  rw [deliveries, List.filterMap_cons_none hdelivery, verdict, hfinding]
  exact halike

theorem carries_begin (env : Environment) (e : Engine) (job : Job) :
    Carries env e job (begin env e job) := by
  unfold begin
  cases hpath : e.path? job.task.file with
  | none => exact .of_fails (by rw [finding, hpath]) (Alike.refl _)
  | some p =>
      dsimp only
      have hasked : (e.consult job.task.file).overlay = e.overlay := rfl
      rw [hasked]
      cases hstatus : e.overlay.currentStatus env.disk p with
      | error fault =>
          have hfails : finding env e job.task =
              .fails (p.display ++ ": " ++ (Failure.io fault).message) := by
            rw [finding, hpath]
            simp only [hstatus]
          exact .of_fails hfails (alike_consult_with e job.task.file _)
      | ok status =>
          have halike := alike_consult_with e job.task.file
            (e.scheduler.setStage job.ticket (.reading p status))
          refine .stage (.reading p status) rfl ⟨hpath, hstatus⟩ ?_
          dsimp only
          split
          · exact halike.trans (alike_with_log _ _)
          · exact halike

theorem carries_collect {p : Path} {status : FileStatus} (hpath : e.path? job.task.file = some p)
    (hstatus : e.overlay.currentStatus env.disk p = .ok status) :
    Carries env e job (collect env e job p status) := by
  have hlogged : exists log, (if env.logsCalls then { e with log := e.log.finish } else e) =
      { e with log } := by
    split
    · exact ⟨_, rfl⟩
    · exact ⟨e.log, rfl⟩
  rcases hlogged with ⟨log, hlog⟩
  unfold collect
  dsimp only
  rw [hlog]
  cases hanswer : env.collect e.overlay p job.task.arguments with
  | results r =>
      refine .stage (.collected status r) rfl ?_ (alike_with_log _ log)
      show finding env e job.task = _
      rw [finding, hpath]
      simp only [hstatus, hanswer]
  | failed failure =>
      have hfails : finding env e job.task = .fails failure.message := by
        rw [finding, hpath]
        simp only [hstatus, hanswer]
      exact .of_fails hfails (alike_with_log _ log)
  | panicked message =>
      have hfails : finding env e job.task = .fails ("collector panicked on " ++ p.display) := by
        rw [finding, hpath]
        simp only [hstatus, hanswer]
      exact .of_fails hfails (alike_with_log _ log)

theorem carries_store {status : FileStatus} {r : Results}
    (hfinding : finding env e job.task = .delivers ⟨job.task, status, r⟩) :
    Carries env e job (e.store job status r) := by
  refine .ends false ?_
  rw [deliveries_of_delivers hfinding, verdict, hfinding, Finding.outcome, store]
  rw [Storage.deliverAll, List.foldl_cons, List.foldl_nil, Storage.deliver]
  cases e.storage.applyResults job.task status r with
  | error failure => exact Alike.refl _
  | ok answer => exact Alike.refl _

theorem carries_stepTicket (env : Environment) (hjob : e.scheduler.job? ticket = some job)
    (hruns : job.isFinished = false) (hbears : Bears env e job) :
    Carries env e job (stepTicket env e ticket) := by
  rw [stepTicket, hjob]
  dsimp only
  unfold stepJob
  cases hstage : job.stage with
  | assigned => exact carries_begin env e job
  | reading p status =>
      rw [Bears, hstage] at hbears
      exact carries_collect hbears.1 hbears.2
  | collected status r =>
      rw [Bears, hstage] at hbears
      exact carries_store hbears
  | finished poisoned =>
      rw [Job.isFinished, hstage] at hruns
      cases hruns

/-!
# While workers go on
-/

/-- How far workers have come with some tasks, of which those in `done` have ended. -/
structure Progress (env : Environment) (start : Engine) (tasks done : List Task) (e : Engine) :
    Prop where
  ticketed : e.scheduler.Ticketed
  queue : e.scheduler.queue.Sound
  overlay : e.overlay = start.overlay
  paths : forall id, e.path? id = start.path? id
  storage : e.storage = start.storage.deliverAll (deliveries env start done)
  tasks : tasks.Perm
    (done ++ ((running e.scheduler).map Job.task ++ e.scheduler.queue.toList))
  bears : forall job, job ∈ e.scheduler.jobs -> Bears env start job
  counters : e.scheduler.counters =
    { (done.map (verdict env start)).foldl SchedulerCounters.record start.scheduler.counters with
      dispatched := start.scheduler.counters.dispatched +
        (done.length + (running e.scheduler).length) }

section Progress

variable {start : Engine} {tasks done : List Task}

theorem progress_start (hticketed : e.scheduler.Ticketed) (hqueue : e.scheduler.queue.Sound)
    (hjobs : e.scheduler.jobs = []) (hoverlay : e.overlay = start.overlay)
    (hpaths : forall id, e.path? id = start.path? id) (hstorage : e.storage = start.storage)
    (hcounters : e.scheduler.counters = start.scheduler.counters) :
    Progress env start e.scheduler.queue.toList [] e := by
  have hnone : running e.scheduler = [] := by rw [running, hjobs, List.filter_nil]
  refine
    { ticketed := hticketed
      queue := hqueue
      overlay := hoverlay
      paths := hpaths
      storage := hstorage
      tasks := ?_
      bears := ?_
      counters := ?_ }
  · rw [hnone]
    exact List.Perm.refl _
  · intro job hjob
    rw [hjobs] at hjob
    cases hjob
  · rw [hnone]
    exact hcounters

theorem Progress.of_alike (h : Progress env start tasks done e) (halike : Alike e e') :
    Progress env start tasks done e' where
  ticketed := by rw [halike.scheduler]; exact h.ticketed
  queue := by rw [halike.scheduler]; exact h.queue
  overlay := halike.overlay.trans h.overlay
  paths := fun id => (halike.paths id).trans (h.paths id)
  storage := halike.storage.trans h.storage
  tasks := by rw [halike.scheduler]; exact h.tasks
  bears := by rw [halike.scheduler]; exact h.bears
  counters := by rw [halike.scheduler]; exact h.counters

theorem Progress.sweep (h : Progress env start tasks done e) :
    Progress env start tasks done { e with scheduler := e.scheduler.freeSlots } where
  ticketed := h.ticketed.freeSlots
  queue := h.queue
  overlay := h.overlay
  paths := h.paths
  storage := h.storage
  tasks := by
    dsimp only
    rw [Drain.running_freeSlots]
    exact h.tasks
  bears := fun job hjob => h.bears job (List.mem_of_mem_filter hjob)
  counters := by
    dsimp only
    rw [Drain.running_freeSlots]
    exact h.counters

/-- Handing out takes tasks from the line into the hands of workers. -/
theorem Progress.dispatch (h : Progress env start tasks done e)
    (hmakes : forall n, env.fails n = none) :
    Progress env start tasks done (Engine.dispatch env e) := by
  have hswept := h.sweep
  rcases Scheduler.exists_handedOut (s := e.scheduler.freeSlots) hmakes hswept.queue
    (e.scheduler.freeSlots.capacity - e.scheduler.freeSlots.jobs.length) with ⟨handed, hout⟩
  change Scheduler.HandedOut _ (Engine.dispatch env e).scheduler handed at hout
  have hnew : handed.filter (fun job => !job.isFinished) = handed := by
    refine List.filter_eq_self.mpr ?_
    intro job hjob
    rw [Job.isFinished, hout.assigned job hjob]
    rfl
  have hrunning : running (Engine.dispatch env e).scheduler =
      running e.scheduler.freeSlots ++ handed := by
    rw [running, hout.jobs, List.filter_append, hnew]
    rfl
  refine
    { ticketed := h.ticketed.dispatch env.fails
      queue := hout.queue
      overlay := h.overlay
      paths := h.paths
      storage := h.storage
      tasks := ?_
      bears := ?_
      counters := ?_ }
  · have htasks := hswept.tasks
    dsimp only at htasks
    rw [hout.line] at htasks
    rw [hrunning, List.map_append, List.append_assoc]
    exact htasks
  · intro job hjob
    rw [hout.jobs] at hjob
    rcases List.mem_append.mp hjob with hold | hnew
    · exact hswept.bears job hold
    · rw [Bears, hout.assigned job hnew]
      trivial
  · have hcounters := hswept.counters
    dsimp only at hcounters
    rw [hout.counters, hcounters, hrunning, List.length_append, ← Nat.add_assoc, ← Nat.add_assoc,
      ← Nat.add_assoc]

theorem Progress.notMem_done (h : Progress env start tasks done e)
    (hfiles : (tasks.map Task.file).Nodup) (hjob : job ∈ running e.scheduler) :
    job.task.file ∉ done.map Task.file := by
  have hnodup := (h.tasks.map Task.file).nodup_iff.mp hfiles
  rw [List.map_append, List.nodup_append] at hnodup
  intro hdone
  refine hnodup.2.2 _ hdone _ ?_ rfl
  rw [List.map_append, List.map_map]
  exact List.mem_append_left _ (List.mem_map.mpr ⟨job, hjob, rfl⟩)

theorem Progress.verdict_eq (h : Progress env start tasks done e)
    (hlinked : start.storage.store.Linked) (hfile : task.file ∉ done.map Task.file) :
    verdict env e task = verdict env start task := by
  rw [verdict, verdict, finding_congr h.paths h.overlay]
  cases hfinding : finding env start task with
  | fails message => rfl
  | delivers d =>
      have hdelivery : delivery? env start task = some d := congrArg Finding.delivery? hfinding
      have hnone : d.task.file ∉ (deliveries env start done).map fun d => d.task.file := by
        intro hmem
        rw [task_of_delivery? hdelivery] at hmem
        exact hfile ((files_deliveries env start done).subset hmem)
      have hsame := Storage.sameFile_deliverAll hlinked hnone
      rw [← h.storage] at hsame
      rw [Finding.outcome, Finding.outcome, Storage.answer_congr hsame]

theorem Progress.stage (h : Progress env start tasks done e)
    (hjob : e.scheduler.job? job.ticket = some job) (hruns : job.isFinished = false)
    {stage : Stage} (hstage : { job with stage }.isFinished = false)
    (hbears : Bears env e { job with stage }) :
    Progress env start tasks done (e.setStage job stage) := by
  have hmem := (Scheduler.mem_of_job? hjob).1
  have hline := Scheduler.running_setStage h.ticketed hjob hruns hstage
  refine
    { ticketed := h.ticketed.setStage _ _
      queue := h.queue
      overlay := h.overlay
      paths := h.paths
      storage := h.storage
      tasks := ?_
      bears := ?_
      counters := ?_ }
  · have htasks := h.tasks
    rw [← hline] at htasks
    exact htasks
  · intro other hother
    rcases h.ticketed.eq_of_mem_setStage hmem hother with hold | rfl
    · exact h.bears other hold
    · exact (bears_congr h.paths h.overlay _).mp hbears
  · have hlength := congrArg List.length hline
    rw [List.length_map, List.length_map] at hlength
    have hcounters := h.counters
    rw [← hlength] at hcounters
    exact hcounters

theorem Progress.deliverAll (h : Progress env start tasks done e) (task : Task) :
    e.storage.deliverAll (deliveries env e [task]) =
      start.storage.deliverAll (deliveries env start (done ++ [task])) := by
  rw [deliveries, deliveries, List.filterMap_append, delivery?_congr h.paths h.overlay, h.storage]
  exact List.foldl_append.symm

/-- The job of a worker ends as was settled for its task. -/
theorem Progress.ends (h : Progress env start tasks done e)
    (hlinked : start.storage.store.Linked) (hfiles : (tasks.map Task.file).Nodup)
    (hjob : e.scheduler.job? job.ticket = some job) (hruns : job.isFinished = false)
    (poisoned : Bool) :
    Progress env start tasks (done ++ [job.task])
      ({ e with storage := e.storage.deliverAll (deliveries env e [job.task]) }.finishJob job
        (verdict env e job.task) poisoned) := by
  have hmem := (Scheduler.mem_of_job? hjob).1
  have hrunning : job ∈ running e.scheduler := List.mem_filter.mpr ⟨hmem, by rw [hruns]; rfl⟩
  rw [h.verdict_eq hlinked (h.notMem_done hfiles hrunning)]
  have hperm := Scheduler.perm_running_finish h.ticketed hjob hruns
    (verdict env start job.task) poisoned
  refine
    { ticketed := h.ticketed.finish _ _ _
      queue := h.queue
      overlay := h.overlay
      paths := ?_
      storage := h.deliverAll job.task
      tasks := ?_
      bears := ?_
      counters := ?_ }
  · have hbefore : e.storage.store.Linked := by
      rw [h.storage]
      exact Storage.linked_deliverAll hlinked _
    intro id
    exact (PathBook.path?_of_sources_eq (Storage.sources_deliverAll hbefore _) id).trans
      (h.paths id)
  · have hline := ((hperm.map Job.task).append_right e.scheduler.queue.toList).append_left done
    refine (h.tasks.trans hline).trans (List.Perm.of_eq ?_)
    rw [List.map_cons, List.append_assoc, List.singleton_append, List.cons_append]
    rfl
  · intro other hother
    have hreported := h.ticketed.of_jobs_eq
      (t := e.scheduler.report job.task (verdict env start job.task)) rfl rfl
    rcases hreported.eq_of_mem_setStage hmem hother with hold | rfl
    · exact h.bears other hold
    · trivial
  · have hlength := hperm.length_eq
    rw [List.length_cons] at hlength
    refine (congrArg (SchedulerCounters.record · (verdict env start job.task)) h.counters).trans ?_
    rw [SchedulerCounters.record_dispatched, List.map_append, List.foldl_append, hlength,
      List.length_append, List.length_singleton, Nat.add_assoc done.length 1, Nat.add_comm 1]
    rfl

theorem Progress.work (h : Progress env start tasks done e)
    (hlinked : start.storage.store.Linked) (hfiles : (tasks.map Task.file).Nodup)
    (ticket : Nat) :
    exists done', Progress env start tasks done' (stepTicket env e ticket) := by
  cases hjob : e.scheduler.job? ticket with
  | none =>
      rw [stepTicket, hjob]
      exact ⟨done, h⟩
  | some job =>
      rcases Scheduler.mem_of_job? hjob with ⟨hmem, rfl⟩
      cases hruns : job.isFinished with
      | true =>
          have hidle : stepTicket env e job.ticket = e := by
            rw [stepTicket, hjob]
            dsimp only
            unfold stepJob
            rw [Job.isFinished] at hruns
            split at hruns
            · rename_i poisoned hstage
              rw [hstage]
            · cases hruns
          rw [hidle]
          exact ⟨done, h⟩
      | false =>
          have hbears := (bears_congr h.paths h.overlay job).mpr (h.bears job hmem)
          cases carries_stepTicket env hjob hruns hbears with
          | stage stage hstage hbears' halike =>
              exact ⟨done, (h.stage hjob hruns hstage hbears').of_alike halike⟩
          | ends poisoned halike =>
              exact ⟨_, (h.ends hlinked hfiles hjob hruns poisoned).of_alike halike⟩

theorem Progress.rest (h : Progress env start tasks done e)
    (hline : e.scheduler.queue.isEmpty = true) (hjobs : e.scheduler.jobs = []) :
    tasks.Perm done := by
  have htasks := h.tasks
  rw [h.queue.isEmpty_iff_toList.mp hline, running, hjobs] at htasks
  simpa using htasks

end Progress

end Engine

theorem SchedulerCounters.record_comm (c : SchedulerCounters) (a b : TaskOutcome) :
    (c.record a).record b = (c.record b).record a := by
  cases a <;> cases b <;> rfl

namespace World

variable {s : Surroundings} {w : World} {start : Engine} {tasks done : List Task}

/-- The world with `n` collectors and with some tasks queued, none of them handed out yet. -/
def crewed (w : World) (n : Nat) (tasks : List Task) : World :=
  w.withEngine { w.engine with
    scheduler := { w.engine.scheduler with
      collectors := .ofCapacity n
      queue := w.engine.scheduler.queue.addOrUpdate tasks } }

/-- The tasks in line once some are queued. -/
def lined (w : World) (tasks : List Task) : List Task :=
  (w.engine.scheduler.queue.addOrUpdate tasks).toList

theorem progress_crewed (hw : w.Reachable s) (hjobs : w.engine.scheduler.jobs = [])
    (n : Nat) (tasks : List Task) :
    Engine.Progress (s.environment w.disk) w.engine (w.lined tasks) []
      (w.crewed n tasks).engine := by
  have hticketed : (w.crewed n tasks).engine.scheduler.Ticketed := hw.ticketed.of_jobs_eq rfl rfl
  exact Engine.progress_start hticketed (hw.agrees.queue.addOrUpdate tasks) hjobs rfl
    (fun _ => rfl) rfl rfl

theorem progress_run (hmakes : forall attempt, s.fails attempt = none)
    (hlinked : start.storage.store.Linked) (hfiles : (tasks.map Task.file).Nodup)
    {drain : List Event} (hdrain : forall event, event ∈ drain -> isDraining event = true)
    (h : Engine.Progress (s.environment w.disk) start tasks done w.engine) :
    exists done', Engine.Progress (s.environment w.disk) start tasks done'
      (run s w drain).engine := by
  induction drain generalizing w done with
  | nil => exact ⟨done, h⟩
  | cons event rest ih =>
      have hevent := hdrain event List.mem_cons_self
      have hrest := fun next hnext => hdrain next (List.mem_cons_of_mem _ hnext)
      cases event with
      | work ticket =>
          rcases h.work hlinked hfiles ticket with ⟨done', hdone⟩
          exact ih (w := happen s w (.work ticket)) hrest hdone
      | dispatch => exact ih (w := happen s w .dispatch) hrest (h.dispatch hmakes)
      | sweep => exact ih (w := happen s w .sweep) hrest h.sweep
      | _ => cases hevent

theorem ended_alike (hw : w.Reachable s) {e e' : Engine} {done' : List Task}
    (hfiles : (tasks.map Task.file).Nodup) {env : Environment}
    (h : Engine.Progress env w.engine tasks done e)
    (h' : Engine.Progress env w.engine tasks done' e')
    (hdone : tasks.Perm done) (hdone' : tasks.Perm done')
    (hjobs : e.scheduler.jobs = []) (hjobs' : e'.scheduler.jobs = []) :
    (exists f, Store.Renumbered f e.storage.store e'.storage.store) ∧
      e'.scheduler.counters = e.scheduler.counters := by
  have hperm := hdone.symm.trans hdone'
  have hseparate : Storage.Separate (Engine.deliveries env w.engine done) :=
    ((hdone.map Task.file).nodup_iff.mp hfiles).sublist (Engine.files_deliveries env w.engine done)
  constructor
  · rw [h.storage, h'.storage]
    exact (Storage.deliverAll_perm hw.agrees.store.linked hseparate (hperm.filterMap _)).2
  · have hcomm : RightCommutative SchedulerCounters.record := ⟨SchedulerCounters.record_comm⟩
    rw [h.counters, h'.counters, Drain.running, Drain.running, hjobs, hjobs', hperm.length_eq,
      (hperm.map (Engine.verdict env w.engine)).foldl_eq]

/--
Results for different files may be stored in any order: each is answered the same, and
what is stored in the end is the same but for the numbers of symbols, which keep their
order within each file. So workers that finish some tasks store and count the same,
however many of them there are.
-/
theorem completion_order_shows_in_numbers_only :
    (forall (calls : List StorageCall) (work work' : List Delivery),
      Storage.Separate work -> work.Perm work' ->
        ((Storage.empty.after calls).answers work).Perm
          ((Storage.empty.after calls).answers work') ∧
        exists f, Store.Renumbered f ((Storage.empty.after calls).deliverAll work).store
          ((Storage.empty.after calls).deliverAll work').store) ∧
    (forall (s : Surroundings) (w : World) (tasks : List Task) (n m : Nat)
      (drain drain' : List Event), (forall attempt, s.fails attempt = none) ->
      w.Reachable s -> w.engine.scheduler.jobs = [] ->
      (forall event, event ∈ drain ++ drain' -> isDraining event = true) ->
      (run s (w.crewed n tasks) drain).AtRest -> (run s (w.crewed m tasks) drain').AtRest ->
        (exists f, Store.Renumbered f (run s (w.crewed n tasks) drain).engine.storage.store
          (run s (w.crewed m tasks) drain').engine.storage.store) ∧
        (run s (w.crewed m tasks) drain').engine.scheduler.counters =
          (run s (w.crewed n tasks) drain).engine.scheduler.counters) := by
  constructor
  · intro calls work work' hseparate hperm
    exact Storage.deliverAll_perm
      (Storage.consistent_after Store.consistent_empty calls).filed.linked hseparate hperm
  · intro s w tasks n m drain drain' hmakes hw hjobs hdrain hrest hrest'
    have hlinked := hw.agrees.store.linked
    have hsound := hw.agrees.queue.addOrUpdate tasks
    have hfiles : ((w.lined tasks).map Task.file).Nodup := by
      rw [lined, hsound.map_file_toList]
      exact hsound.nodup
    have hfirst : forall event, event ∈ drain -> isDraining event = true :=
      fun event hevent => hdrain event (List.mem_append_left _ hevent)
    have hsecond : forall event, event ∈ drain' -> isDraining event = true :=
      fun event hevent => hdrain event (List.mem_append_right _ hevent)
    rcases progress_run (w := w.crewed n tasks) hmakes hlinked hfiles hfirst
      (progress_crewed hw hjobs n tasks) with ⟨done, hdone⟩
    rcases progress_run (w := w.crewed m tasks) hmakes hlinked hfiles hsecond
      (progress_crewed hw hjobs m tasks) with ⟨done', hdone'⟩
    exact ended_alike hw hfiles hdone hdone' (hdone.rest hrest.1 hrest.2)
      (hdone'.rest hrest'.1 hrest'.2) hrest.2 hrest'.2

/-- The part of both files. -/
def twoFilePart : Part := ⟨⟨"app"⟩, [.ofString "/w/a", .ofString "/w/b"], ["-O0"], [], []⟩

/-- Both files are indexed. -/
def bothIndexed : List Event :=
  [.submit [twoFilePart], .work 0, .work 0, .work 0, .dispatch, .work 1, .work 1, .work 1, .sweep]

/-- Tasks that index both files under other arguments. -/
def optimisedTasks : List Task := [⟨⟨1⟩, ⟨"app"⟩, ["-O2"]⟩, ⟨⟨2⟩, ⟨"app"⟩, ["-O2"]⟩]

/-- One after the other. -/
def byOne : List Event :=
  [.dispatch, .work 2, .work 2, .work 2, .dispatch, .work 3, .work 3, .work 3, .sweep]

/-- Both at once, and the second is done first. -/
def byTwo : List Event :=
  [.dispatch, .work 2, .work 3, .work 3, .work 3, .work 2, .work 2, .sweep]

/-- Three paths are known, and two of the files are of a part. -/
def threeFileCalls : List StorageCall :=
  [.intern (.ofString "/w/a"), .intern (.ofString "/w/b"), .intern (.ofString "/w/c"),
    .updatePart ⟨"app"⟩ ["-O0"] [⟨1⟩, ⟨2⟩]]

def symbolDelivery (file : FileId) (symbol : Nat) : Delivery :=
  ⟨⟨file, ⟨"app"⟩, ["-O0"]⟩, ⟨1, 0⟩, ⟨[⟨"c:f", .callable, "f"⟩], [⟨symbol, 1, 1, .definition⟩]⟩⟩

/-- Good results, results with a location of a symbol that is not there, and stale ones. -/
def mixedDeliveries : List Delivery :=
  [symbolDelivery ⟨1⟩ 0, symbolDelivery ⟨2⟩ 1, symbolDelivery ⟨3⟩ 0]

theorem two_orders_show_in_numbers_only :
    let w := run lastArgument (fresh twoFileDisk 1) bothIndexed
    let one := run lastArgument (w.crewed 1 optimisedTasks) byOne
    let two := run lastArgument (w.crewed 2 optimisedTasks) byTwo
    (((Storage.empty.after threeFileCalls).answers mixedDeliveries).Perm
        ((Storage.empty.after threeFileCalls).answers mixedDeliveries.reverse) ∧
      exists f, Store.Renumbered f
        ((Storage.empty.after threeFileCalls).deliverAll mixedDeliveries).store
        ((Storage.empty.after threeFileCalls).deliverAll mixedDeliveries.reverse).store) ∧
    one.engine.scheduler.counters = ⟨4, 4, 0, 0, 0⟩ ∧
    one.engine.storage.store.symbols ≠ two.engine.storage.store.symbols ∧
    (exists f, Store.Renumbered f one.engine.storage.store two.engine.storage.store) ∧
    two.engine.scheduler.counters = one.engine.scheduler.counters := by
  intro w one two
  have hruns : w.engine.scheduler.jobs = [] ∧ one.AtRest ∧ two.AtRest ∧
      one.engine.scheduler.counters = ⟨4, 4, 0, 0, 0⟩ ∧
      one.engine.storage.store.symbols ≠ two.engine.storage.store.symbols := by decide +kernel
  rcases hruns with ⟨hjobs, hone, htwo, hcounters, hnumbers⟩
  exact ⟨completion_order_shows_in_numbers_only.1 threeFileCalls mixedDeliveries _
      (by decide) (List.reverse_perm _).symm,
    hcounters, hnumbers,
    completion_order_shows_in_numbers_only.2 lastArgument w optimisedTasks 1 2 byOne byTwo
      (fun _ => rfl) ⟨twoFileDisk, 1, bothIndexed, rfl⟩ hjobs (by decide) hone htwo⟩

end World
end SymbolIndex
