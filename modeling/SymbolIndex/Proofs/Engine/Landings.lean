import SymbolIndex.Proofs.Engine.Reachability
import SymbolIndex.Proofs.Engine.Working

/-!
# Which results stay

While a queue holds one task for each file, two tasks of a file may be in the hands of
two workers, and each stores its results when it comes to that. A run is therefore told
by its landings, the moments at which a worker stores results. When everything is at
rest, the store holds for each file the results that were stored last in full, and
these are not always those of the newest task: an older task may land after it, and
results with the digest of those that are stored are taken to be the same.
-/

namespace SymbolIndex

/-- The moment at which the results of a task are stored. -/
structure Landing where
  ticket : Nat
  task : Task
  results : Results
  outcome : ApplyOutcome
deriving DecidableEq

namespace Landing

/-- The results were stored in full. -/
def isFull (l : Landing) : Bool :=
  match l.outcome with
  | .applied .. => true
  | _ => false

/-- The results are the stored ones, or were taken to be. -/
def isKept (l : Landing) : Bool := decide (l.outcome ≠ .stale)

/-- The last of some landings that passes a test. -/
def last? (p : Landing -> Bool) (log : List Landing) : Option Landing := log.reverse.find? p

theorem last?_append (p : Landing -> Bool) (log : List Landing) (l : Landing) :
    last? p (log ++ [l]) = if p l then some l else last? p log := by
  rw [last?, List.reverse_append, List.reverse_singleton, List.singleton_append, List.find?_cons,
    last?]
  cases p l <;> rfl

theorem last?_of_getLast? {p : Landing -> Bool} {log : List Landing} {l : Landing}
    (hend : log.getLast? = some l) (hp : p l = true) : last? p log = some l := by
  rcases List.getLast?_eq_some_iff.mp hend with ⟨before, rfl⟩
  rw [last?_append, if_pos hp]

/-- The landings of one file. -/
def ofFile (file : FileId) (log : List Landing) : List Landing :=
  log.filter fun l => decide (l.task.file = file)

end Landing

namespace World

/-- The landing that an event is, if it is one. -/
def landing? (w : World) : Event -> Option Landing
  | .work ticket =>
      match w.engine.scheduler.job? ticket with
      | none => none
      | some job =>
          match job.stage with
          | .collected status r =>
              match w.engine.storage.store.applyResults job.task status r with
              | .ok (outcome, _, _) => some ⟨ticket, job.task, r, outcome⟩
              | .error _ => none
          | _ => none
  | _ => none

/-- The landings of a history, in order. -/
def landings (s : Surroundings) : World -> List Event -> List Landing
  | _, [] => []
  | w, event :: rest => (landing? w event).toList ++ landings s (happen s w event) rest

end World

namespace Engine

variable {env : Environment} {e e' : Engine} {file : FileId} {log : List Landing}
  {task : Task} {ticket : Nat}

theorem Interned.sameAt (h : Interned e e') (file : FileId) : SameAt file e e' where
  owner := by rw [ownerOf, ownerOf, h.owners]
  task := by rw [taskFor?, taskFor?, h.owners, h.parts]
  member := by rw [h.members]
  status := by rw [h.statuses]
  records := h.recordsAt file
  watch := by rw [h.watcher]
  queued := by rw [h.scheduler]

theorem Worked.frame {ticket : Nat} (h : Worked env e ticket e') (hagrees : e.Agrees) :
    e'.overlay = e.overlay ∧ e'.storage.store.sources = e.storage.store.sources := by
  cases h with
  | idle hidle => exact ⟨rfl, rfl⟩
  | begins job p status hjob hstage hpath hstatus halike =>
      rw [halike.overlay, halike.storage]
      exact ⟨rfl, rfl⟩
  | collects job p status r hjob hstage hanswer halike =>
      rw [halike.overlay, halike.storage]
      exact ⟨rfl, rfl⟩
  | fails job outcome poisoned hjob hfailure halike =>
      rw [halike.overlay, halike.storage]
      exact ⟨rfl, rfl⟩
  | lands job status r outcome wrote t hjob hstage hok =>
      exact ⟨rfl, (hagrees.store.linked.frame_applyResults hok).1⟩

/-!
# The newest task of a file
-/

/-- The task landed, and the file has had a status ever since. -/
def Landed (file : FileId) (e : Engine) (log : List Landing) (ticket : Nat) (task : Task) :
    Prop :=
  (exists l, l ∈ log ∧ l.ticket = ticket ∧ l.task = task ∧ l.isKept = true) ∧
    exists row, e.storage.store.statuses.get? file = some row

/-- A task that runs or has landed, and no task of the file was handed out after it. -/
structure Newest (file : FileId) (e : Engine) (log : List Landing) (ticket : Nat) (task : Task) :
    Prop where
  held : e.scheduler.Runs ticket task ∨ Landed file e log ticket task
  running : forall ticket' task', e.scheduler.Runs ticket' task' -> task'.file = file ->
    ticket' ≤ ticket
  landed : forall l, l ∈ log -> l.ticket ≤ ticket

/-- The records of a file are the results that landed last in full, under the digest that landed last. -/
structure Mirrored (file : FileId) (s : Store) (log : List Landing) (row : StatusRow) :
    Prop where
  full : exists last, Landing.last? Landing.isFull log = some last ∧
    Store.strayLocation? last.results = none ∧ last.results.digest = row.digest ∧
    s.Records file row.part last.results
  kept : exists last, Landing.last? Landing.isKept log = some last ∧
    last.results.digest = row.digest

/-- What holds of a file and its landings as long as no task fails. -/
structure Tracked (file : FileId) (e : Engine) (log : List Landing) : Prop where
  agrees : e.Agrees
  ticketed : e.scheduler.Ticketed
  owned : forall part, e.storage.store.members.get? file = some part ->
    e.ownerOf file = some part
  issued : forall l, l ∈ log -> l.ticket < e.scheduler.nextTicket
  queued : forall task, e.scheduler.queue.get? file = some task -> e.taskFor? file = some task
  newest : forall task, e.taskFor? file = some task ->
    e.scheduler.queue.get? file = none -> exists ticket, Newest file e log ticket task
  mirrored : forall row, e.storage.store.statuses.get? file = some row ->
    Mirrored file e.storage.store log row

theorem tracked_start (file : FileId) (concurrency : Nat) (log : CallLog) :
    Tracked file (start .empty concurrency log) [] where
  agrees := agrees_start Store.sound_empty List.nodup_nil concurrency log
  ticketed := Scheduler.ticketed_ofCapacity concurrency
  owned := by
    intro part hmember
    cases hmember
  issued := by
    intro l hl
    cases hl
  queued := by
    intro task htask
    cases htask
  newest := by
    intro task htask
    cases htask
  mirrored := by
    intro row hrow
    cases hrow

theorem Mirrored.of_recordsAt_eq {s t : Store} {row : StatusRow} (h : Mirrored file s log row)
    (hrecords : t.recordsAt file = s.recordsAt file) : Mirrored file t log row where
  full := by
    rcases h.full with ⟨last, hlast, hstray, hdigest, hr⟩
    exact ⟨last, hlast, hstray, hdigest, hr.of_recordsAt_eq hrecords⟩
  kept := h.kept

theorem Newest.of_retains (h : Newest file e log ticket task) (hsame : Retains file e e')
    (htask : task.file = file)
    (hruns : forall ticket task, task.file = file ->
      (e'.scheduler.Runs ticket task ↔ e.scheduler.Runs ticket task)) :
    Newest file e' log ticket task where
  held := by
    rcases h.held with hheld | ⟨hlanded, hrow⟩
    · exact Or.inl ((hruns ticket task htask).mpr hheld)
    · exact Or.inr ⟨hlanded, by rw [hsame.status]; exact hrow⟩
  running := by
    intro ticket' task' hrunning hfile
    exact h.running ticket' task' ((hruns ticket' task' hfile).mp hrunning) hfile
  landed := h.landed

theorem file_of_taskFor? (h : e.taskFor? file = some task) : task.file = file := by
  rcases (taskFor?_eq_some_iff e file task).mp h with ⟨part, snapshot, -, -, rfl⟩
  rfl

theorem Tracked.of_retains (h : Tracked file e log) (hagrees : e'.Agrees)
    (hticketed : e'.scheduler.Ticketed) (hsame : Retains file e e')
    (hnext : e.scheduler.nextTicket ≤ e'.scheduler.nextTicket)
    (hruns : forall ticket task, task.file = file ->
      (e'.scheduler.Runs ticket task ↔ e.scheduler.Runs ticket task)) :
    Tracked file e' log where
  agrees := hagrees
  ticketed := hticketed
  owned := by
    rw [hsame.member, hsame.owner]
    exact h.owned
  issued := by
    intro l hl
    exact Nat.lt_of_lt_of_le (h.issued l hl) hnext
  queued := by
    rw [hsame.queued, hsame.task]
    exact h.queued
  newest := by
    rw [hsame.queued, hsame.task]
    intro task htask hqueue
    rcases h.newest task htask hqueue with ⟨ticket, hnewest⟩
    exact ⟨ticket, hnewest.of_retains hsame (file_of_taskFor? htask) hruns⟩
  mirrored := by
    rw [hsame.status]
    intro row hrow
    exact (h.mirrored row hrow).of_recordsAt_eq hsame.records

/-!
# Submissions
-/

/-- The file is there and can be watched whenever a part is applied that lists it. -/
def Indexable (env : Environment) (file : FileId) : Engine -> List PreparedPart -> Prop
  | _, [] => True
  | e, part :: rest =>
      (file ∈ part.files ->
        (exists status, currentStatus? env e file = some status) ∧
          (applyPart env e part).2.watcher.isUnwatchable file = false) ∧
        Indexable env file (applyPart env e part).2 rest

theorem Tracked.applyPart (h : Tracked file e log) {part : PreparedPart}
    (hsources : forall file, file ∈ part.files -> e.storage.store.hasSource file = true)
    (hseen : file ∈ part.files ->
      (exists status, currentStatus? env e file = some status) ∧
        (Engine.applyPart env e part).2.watcher.isUnwatchable file = false) :
    Tracked file (Engine.applyPart env e part).2 log := by
  have happlied := (h.agrees.applyPart env hsources).2
  have hfared := h.agrees.fared_applyPart hsources h.owned hseen
  rcases happlied.scheduler with ⟨queue, hscheduler, -⟩
  refine
    { agrees := happlied.agrees
      ticketed := ?_
      owned := happlied.owned h.owned
      issued := ?_
      queued := ?_
      newest := ?_
      mirrored := ?_ }
  · rw [hscheduler]
    exact h.ticketed.of_jobs_eq rfl rfl
  · rw [hscheduler]
    exact h.issued
  · intro task htask
    cases hfared with
    | kept hretains => exact hretains.task.trans (h.queued task (hretains.queued.symm.trans htask))
    | enqueued hcurrent hqueue =>
        rw [hqueue] at htask
        rw [hcurrent, htask]
    | departed hstatus hnone hqueue =>
        rw [hqueue] at htask
        cases htask
  · intro task htask hnone
    cases hfared with
    | kept hretains =>
        rcases h.newest task (hretains.task.symm.trans htask) (hretains.queued.symm.trans hnone)
          with ⟨ticket, hnewest⟩
        refine ⟨ticket, hnewest.of_retains hretains (file_of_taskFor? htask) ?_⟩
        rw [hscheduler]
        exact fun _ _ _ => Iff.rfl
    | enqueued hcurrent hqueue =>
        rw [hqueue] at hnone
        cases hnone
    | departed hstatus hgone hqueue =>
        rw [hgone] at htask
        cases htask
  · intro row hrow
    rcases happlied.row_of_row hrow with ⟨hbefore, hrecords⟩
    exact (h.mirrored row hbefore).of_recordsAt_eq hrecords

theorem Tracked.applyParts (h : Tracked file e log) {accepted : List PreparedPart}
    (hsources : Sourced e accepted) (hindexable : Indexable env file e accepted) :
    Tracked file (Engine.applyParts env e accepted).2 log := by
  induction accepted generalizing e with
  | nil => exact h
  | cons part rest ih =>
      have hown := hsources part List.mem_cons_self
      have happlied := (h.agrees.applyPart env hown).2
      rw [applyParts_cons]
      exact ih (h.applyPart hown hindexable.1) (hsources.tail happlied.sources) hindexable.2

/-!
# Handing out and sweeping up
-/

theorem Tracked.sweep (h : Tracked file e log) :
    Tracked file { e with scheduler := e.scheduler.freeSlots } log :=
  h.of_retains (h.agrees.with_scheduler h.agrees.queue h.agrees.pending) h.ticketed.freeSlots
    ⟨rfl, rfl, rfl, rfl, rfl, rfl⟩ (Nat.le_refl _)
    (fun ticket task _hfile => Scheduler.runs_freeSlots e.scheduler ticket task)

/-- A task that is handed out is the newest of its file. -/
theorem Tracked.dispatch (h : Tracked file e log)
    (huntroubled : (dispatch env e).scheduler.Untroubled) :
    Tracked file (Engine.dispatch env e) log := by
  have hswept := h.sweep
  rcases Scheduler.exists_dispatched h.agrees.queue env.fails with ⟨handed, hlaunched⟩
  have hagrees : (Engine.dispatch env e).Agrees := h.agrees.dispatch
  have hticketed : (Engine.dispatch env e).scheduler.Ticketed :=
    h.ticketed.dispatch env.fails
  rcases hlaunched.fate (huntroubled.since _) file with
    ⟨hqueue, hnone⟩ | ⟨job, hjob, hfile, hqueued, htaken, honly⟩
  · -- no job of the file is new
    refine hswept.of_retains hagrees hticketed ⟨rfl, rfl, rfl, rfl, rfl, hqueue⟩
      hlaunched.next ?_
    intro ticket task htask
    refine (hlaunched.runs ticket task).trans (or_iff_left ?_)
    rintro ⟨job, hjob, -, rfl⟩
    exact hnone job hjob htask
  · have hcurrent : e.taskFor? file = some job.task := h.queued job.task hqueued
    have hnew : e.scheduler.nextTicket ≤ job.ticket := hlaunched.tickets job hjob
    refine
      { agrees := hagrees
        ticketed := hticketed
        owned := h.owned
        issued := fun l hl => Nat.lt_of_lt_of_le (h.issued l hl) hlaunched.next
        queued := ?_
        newest := ?_
        mirrored := h.mirrored }
    · intro task htask
      rw [show (Engine.dispatch env e).scheduler.queue.get? file = none from htaken] at htask
      cases htask
    · intro task htask _hnone
      have hsame : task = job.task := Option.some.inj (htask.symm.trans hcurrent)
      subst hsame
      refine ⟨job.ticket, Or.inl ((hlaunched.runs _ _).mpr (Or.inr ⟨job, hjob, rfl, rfl⟩)), ?_,
        fun l hl => Nat.le_of_lt (Nat.lt_of_lt_of_le (h.issued l hl) hnew)⟩
      intro ticket other hrunning hother
      rcases (hlaunched.runs ticket other).mp hrunning with hold | ⟨next, hnext, hticket, htask'⟩
      · exact Nat.le_of_lt (Nat.lt_of_lt_of_le (hswept.ticketed.lt_of_runs hold) hnew)
      · rw [honly next hnext (by rw [htask']; exact hother)] at hticket
        exact Nat.le_of_eq hticket.symm

theorem Tracked.updateParts (h : Tracked file e log) (parts : List Part)
    (hindexable : Indexable env file (prepare ∅ e parts).2 (prepare ∅ e parts).1.1)
    (huntroubled : (updateParts env e parts).2.scheduler.Untroubled) :
    Tracked file (Engine.updateParts env e parts).2 log := by
  rcases h.agrees.prepare ∅ parts with ⟨hprepared, hinterned, haccepted, -⟩
  have hchecked : Tracked file (prepare ∅ e parts).2 log := by
    refine h.of_retains hprepared ?_ (hinterned.sameAt file).toRetains ?_ ?_
    · rw [hinterned.scheduler]
      exact h.ticketed
    · exact Nat.le_of_eq (congrArg Scheduler.nextTicket hinterned.scheduler).symm
    · rw [hinterned.scheduler]
      exact fun _ _ _ => Iff.rfl
  have happlied := hchecked.applyParts haccepted.sourced hindexable
  unfold Engine.updateParts at huntroubled ⊢
  dsimp only at huntroubled ⊢
  split
  · rename_i henqueued
    rw [if_pos henqueued] at huntroubled
    exact happlied.dispatch huntroubled
  · exact happlied

/-!
# Steps of workers
-/

theorem Tracked.of_alike (h : Tracked file e log) (halike : Alike e e') :
    Tracked file e' log := by
  refine h.of_retains (h.agrees.of_alike halike) ?_ (halike.sameAt file).toRetains ?_ ?_
  · rw [halike.scheduler]
    exact h.ticketed
  · exact Nat.le_of_eq (congrArg Scheduler.nextTicket halike.scheduler).symm
  · rw [halike.scheduler]
    exact fun _ _ _ => Iff.rfl

theorem Tracked.setStage (h : Tracked file e log) {job : Job}
    (hjob : e.scheduler.job? job.ticket = some job) (hruns : job.isFinished = false)
    {stage : Stage} (hstage : { job with stage }.isFinished = false) :
    Tracked file (e.setStage job stage) log :=
  h.of_retains (h.agrees.setStage job stage) (h.ticketed.setStage job.ticket stage)
    ⟨rfl, rfl, rfl, rfl, rfl, rfl⟩ (Nat.le_refl _)
    (fun ticket task _hfile => h.ticketed.runs_setStage hjob hruns hstage ticket task)

section Lands

variable {job : Job} {status : FileStatus} {r : Results} {outcome : ApplyOutcome}
  {wrote : Bool} {t : Store}

theorem Tracked.lands_other (h : Tracked file e log)
    (hjob : e.scheduler.job? job.ticket = some job) (hother : file ≠ job.task.file)
    (hok : e.storage.store.applyResults job.task status r = .ok (outcome, wrote, t)) :
    Tracked file ({ e with storage := e.storage.advance wrote t }.finishJob job
      (outcomeOf outcome) false) log := by
  rcases h.agrees.store.linked.frame_applyResults hok with ⟨-, -, hmembers, hothers⟩
  refine h.of_retains ((h.agrees.with_results hok).finishJob job _ _)
    (h.ticketed.finish job _ _)
    ⟨rfl, rfl, congrArg (Table.get? · file) hmembers, (hothers file hother).1,
      (hothers file hother).2, rfl⟩ (Nat.le_refl _) ?_
  intro ticket task htask
  refine (Scheduler.runs_finish e.scheduler job _ _ ticket task).trans (and_iff_left_of_imp ?_)
  rintro ⟨running, hrunning, rfl, rfl, -⟩ hsame
  rw [h.ticketed.eq_of_ticket_eq hrunning (Scheduler.mem_of_job? hjob).1 hsame] at htask
  exact hother htask.symm

theorem Mirrored.lands (h : e.Agrees) {row : StatusRow}
    (hmirrored : forall row, e.storage.store.statuses.get? job.task.file = some row ->
      Mirrored job.task.file e.storage.store log row)
    (hok : e.storage.store.applyResults job.task status r = .ok (outcome, wrote, t))
    (hrow : t.statuses.get? job.task.file = some row) :
    Mirrored job.task.file t (log ++ [⟨job.ticket, job.task, r, outcome⟩]) row := by
  rcases Store.applyResults_eq_ok hok with
    ⟨-, rfl, rfl⟩ | ⟨hcurrent, hsame, rfl, htarget⟩ | ⟨hcurrent, -, hstray, rfl, htarget⟩
  · -- stale results leave no trace
    have hold := hmirrored row hrow
    constructor
    · rw [Landing.last?_append]
      exact hold.full
    · rw [Landing.last?_append]
      exact hold.kept
  all_goals
    have hnew := Store.get?_statuses_applyResults hok hcurrent
    rw [hrow] at hnew
    rw [Option.some.inj hnew]
  · -- results that are stored already take the place of their equals
    rcases hsame with ⟨old, hold, hpart, hdigest⟩
    rcases (hmirrored old hold).full with ⟨last, hlast, hstray, hlastDigest, hr⟩
    refine ⟨⟨last, ?_, hstray, hlastDigest.trans hdigest, ?_⟩, ?_⟩
    · rw [Landing.last?_append]
      exact hlast
    · rw [hpart] at hr
      rw [htarget]
      exact hr.of_recordsAt_eq (Store.recordsAt_of_rows_eq rfl rfl _)
    · exact ⟨_, Landing.last?_append _ _ _, rfl⟩
  · refine ⟨⟨_, Landing.last?_append _ _ _, hstray, rfl, ?_⟩, ⟨_, Landing.last?_append _ _ _, rfl⟩⟩
    have hr := h.store.linked.records_replaceRecords job.task.file job.task.part r
    rw [htarget]
    exact hr.of_recordsAt_eq (Store.recordsAt_of_rows_eq rfl rfl _)

theorem isKept_of_current (h : e.Agrees) (hcurrent : e.taskFor? job.task.file = some job.task)
    (hok : e.storage.store.applyResults job.task status r = .ok (outcome, wrote, t)) :
    outcome ≠ .stale ∧ exists row, t.statuses.get? job.task.file = some row := by
  have hmember : e.storage.store.members.get? job.task.file = some job.task.part := by
    rcases (taskFor?_eq_some_iff _ _ _).mp hcurrent with ⟨part, snapshot, howner, -, htask⟩
    rw [h.member_of_owner howner, htask]
  have hisCurrent := (Store.isCurrent_iff h.store job.task).mpr hmember
  refine ⟨?_, _, Store.get?_statuses_applyResults hok hisCurrent⟩
  rintro rfl
  rcases Store.applyResults_eq_ok hok with
    ⟨hstale, -⟩ | ⟨-, -, houtcome, -⟩ | ⟨-, -, -, houtcome, -⟩
  · rw [hisCurrent] at hstale
    cases hstale
  · cases houtcome
  · cases houtcome

theorem exists_status_of_lands
    (hok : e.storage.store.applyResults job.task status r = .ok (outcome, wrote, t))
    (hrow : exists row, e.storage.store.statuses.get? job.task.file = some row) :
    exists row, t.statuses.get? job.task.file = some row := by
  rcases Store.applyResults_eq_ok hok with ⟨-, -, rfl⟩ | ⟨hcurrent, -⟩ | ⟨hcurrent, -⟩
  · exact hrow
  · exact ⟨_, Store.get?_statuses_applyResults hok hcurrent⟩
  · exact ⟨_, Store.get?_statuses_applyResults hok hcurrent⟩

theorem Tracked.lands (h : Tracked job.task.file e log)
    (hjob : e.scheduler.job? job.ticket = some job) (hruns : job.isFinished = false)
    (hok : e.storage.store.applyResults job.task status r = .ok (outcome, wrote, t)) :
    Tracked job.task.file ({ e with storage := e.storage.advance wrote t }.finishJob job
      (outcomeOf outcome) false) (log ++ [⟨job.ticket, job.task, r, outcome⟩]) := by
  have hmem := (Scheduler.mem_of_job? hjob).1
  have hrunning : e.scheduler.Runs job.ticket job.task := ⟨job, hmem, rfl, rfl, hruns⟩
  rcases h.agrees.store.linked.frame_applyResults hok with ⟨-, -, hmembers, -⟩
  refine
    { agrees := (h.agrees.with_results hok).finishJob job _ _
      ticketed := h.ticketed.finish job _ _
      owned := ?_
      issued := ?_
      queued := h.queued
      newest := ?_
      mirrored := fun row hrow => Mirrored.lands h.agrees h.mirrored hok hrow }
  · intro part hmember
    exact h.owned part (by rw [← hmembers]; exact hmember)
  · intro l hl
    rcases List.mem_append.mp hl with hold | hlast
    · exact h.issued l hold
    · rw [List.mem_singleton.mp hlast]
      exact h.ticketed.lt_of_runs hrunning
  · intro task htask hqueue
    rcases h.newest task htask hqueue with ⟨ticket, hheld, hbound, hlanded⟩
    refine ⟨ticket, ?_, ?_, ?_⟩
    · rcases hheld with hheld | ⟨⟨l, hl, hrest⟩, hrow⟩
      · by_cases hsame : ticket = job.ticket
        · -- the newest task is the one that lands
          right
          rcases hheld with ⟨held, hheldMem, hticket, rfl, -⟩
          have heq := h.ticketed.eq_of_ticket_eq hheldMem hmem (hticket.trans hsame)
          subst heq
          rcases isKept_of_current h.agrees htask hok with ⟨hkept, hrow⟩
          exact ⟨⟨_, List.mem_append_right _ List.mem_cons_self, hsame.symm, rfl,
            decide_eq_true hkept⟩, hrow⟩
        · exact Or.inl ((Scheduler.runs_finish _ _ _ _ _ _).mpr ⟨hheld, hsame⟩)
      · exact Or.inr ⟨⟨l, List.mem_append_left _ hl, hrest⟩, exists_status_of_lands hok hrow⟩
    · intro ticket' task' hrunning' hfile
      exact hbound ticket' task' ((Scheduler.runs_finish _ _ _ _ _ _).mp hrunning').1 hfile
    · intro l hl
      rcases List.mem_append.mp hl with hold | hlast
      · exact hlanded l hold
      · rw [List.mem_singleton.mp hlast]
        exact hbound job.ticket job.task hrunning rfl

end Lands

end Engine
end SymbolIndex
