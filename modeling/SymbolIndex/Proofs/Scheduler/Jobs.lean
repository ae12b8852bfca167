import Mathlib.Data.List.Nodup
import SymbolIndex.Proofs.Pool
import SymbolIndex.Scheduler

/-!
# Jobs and their tickets

Tickets are given out in ascending order, so that a ticket names one job. What a
property needs to be kept by a round of handing out is said once: that it is kept
when one task is handed out and when one is refused.
-/

namespace SymbolIndex
namespace Scheduler

/-!
# Rounds of handing out
-/

/--
What is kept by each step of a round is kept by the round. A step looks for a task in
vain, hands the first task out, or refuses it for want of a collector.
-/
theorem launch_induction {P : Scheduler -> Prop} {fails : Nat -> Option Failure}
    (nothing : forall s queue, P s -> s.queue.pop = (none, queue) -> P { s with queue })
    (assign : forall s task queue collector collectors, P s -> s.mayDispatch = true ->
      s.queue.pop = (some task, queue) ->
      s.collectors.acquire fails = some (.ok collector, collectors) ->
      P ({ s with queue, collectors }.assign task collector))
    (refuse : forall s task queue failure collectors, P s -> s.mayDispatch = true ->
      s.queue.pop = (some task, queue) ->
      s.collectors.acquire fails = some (.error failure, collectors) ->
      P ({ s with queue, collectors }.refuse task failure))
    (n : Nat) (s : Scheduler) (h : P s) : P (launch fails n s) := by
  induction n generalizing s with
  | zero => exact h
  | succ n ih =>
      rw [launch]
      cases hmay : s.mayDispatch with
      | false => simpa using h
      | true =>
          rcases hpop : s.queue.pop with ⟨_ | task, queue⟩
          · simpa using nothing s queue h hpop
          · cases hacquire : s.collectors.acquire fails with
            | none => simpa using h
            | some answer =>
                rcases answer with ⟨failure | collector, collectors⟩
                · simpa using refuse s task queue failure collectors h hmay hpop hacquire
                · simpa using
                    ih _ (assign s task queue collector collectors h hmay hpop hacquire)

/-!
# Tickets
-/

/-- The jobs stand in the order of their tickets, all of which were given out. -/
structure Ticketed (s : Scheduler) : Prop where
  increasing : (s.jobs.map Job.ticket).Pairwise (· < ·)
  issued : forall job, job ∈ s.jobs -> job.ticket < s.nextTicket

theorem ticketed_ofCapacity (n : Nat) : (ofCapacity n).Ticketed where
  increasing := by simp [ofCapacity]
  issued := by simp [ofCapacity]

theorem Ticketed.of_sublist {s t : Scheduler} (h : s.Ticketed)
    (hsub : (t.jobs.map Job.ticket).Sublist (s.jobs.map Job.ticket))
    (hnext : t.nextTicket = s.nextTicket) : t.Ticketed where
  increasing := h.increasing.sublist hsub
  issued := by
    intro job hjob
    have hmem : job.ticket ∈ s.jobs.map Job.ticket :=
      hsub.subset (List.mem_map_of_mem hjob)
    rcases List.mem_map.mp hmem with ⟨old, hold, hticket⟩
    rw [hnext, ← hticket]
    exact h.issued old hold

theorem Ticketed.of_jobs_eq {s t : Scheduler} (h : s.Ticketed) (hjobs : t.jobs = s.jobs)
    (hnext : t.nextTicket = s.nextTicket) : t.Ticketed :=
  h.of_sublist (by rw [hjobs]) hnext

theorem Ticketed.assign {s : Scheduler} (h : s.Ticketed) (task : Task)
    (collector : Borrowed Nat) : (s.assign task collector).Ticketed where
  increasing := by
    simp only [Scheduler.assign, List.map_append, List.map_cons, List.map_nil]
    refine List.pairwise_append.mpr ⟨h.increasing, by simp, ?_⟩
    intro ticket hticket last hlast
    rcases List.mem_map.mp hticket with ⟨job, hjob, rfl⟩
    rw [List.mem_singleton.mp hlast]
    exact h.issued job hjob
  issued := by
    intro job hjob
    simp only [Scheduler.assign, List.mem_append, List.mem_singleton] at hjob ⊢
    rcases hjob with hold | rfl
    · exact Nat.lt_succ_of_lt (h.issued job hold)
    · exact Nat.lt_succ_self _

@[simp] theorem jobs_refuse (s : Scheduler) (task : Task) (failure : Failure) :
    (s.refuse task failure).jobs = s.jobs := by
  unfold refuse
  dsimp only
  split <;> rfl

@[simp] theorem nextTicket_refuse (s : Scheduler) (task : Task) (failure : Failure) :
    (s.refuse task failure).nextTicket = s.nextTicket := by
  unfold refuse
  dsimp only
  split <;> rfl

@[simp] theorem collectors_refuse (s : Scheduler) (task : Task) (failure : Failure) :
    (s.refuse task failure).collectors = s.collectors := by
  unfold refuse
  dsimp only
  split <;> rfl

theorem switches_refuse (s : Scheduler) (task : Task) (failure : Failure) :
    (s.refuse task failure).enabled = s.enabled ∧ (s.refuse task failure).syncing = s.syncing := by
  unfold refuse
  dsimp only
  split <;> exact ⟨rfl, rfl⟩

theorem switches_launch (fails : Nat -> Option Failure) (n : Nat) (s : Scheduler) :
    (Scheduler.launch fails n s).enabled = s.enabled ∧
      (Scheduler.launch fails n s).syncing = s.syncing := by
  refine launch_induction (P := fun t => t.enabled = s.enabled ∧ t.syncing = s.syncing)
    ?_ ?_ ?_ n s ⟨rfl, rfl⟩
  · exact fun t queue ht _hpop => ht
  · exact fun t task queue collector collectors ht _hmay _hpop _hacquire => ht
  · intro t task queue failure collectors ht _hmay _hpop _hacquire
    rcases switches_refuse { t with queue, collectors } task failure with ⟨henabled, hsyncing⟩
    exact ⟨henabled.trans ht.1, hsyncing.trans ht.2⟩

theorem launch_of_held (fails : Nat -> Option Failure) (n : Nat) {s : Scheduler}
    (h : s.mayDispatch = false) : Scheduler.launch fails n s = s := by
  cases n with
  | zero => rfl
  | succ n => simp [Scheduler.launch, h]

theorem Ticketed.launch {s : Scheduler} (h : s.Ticketed) (fails : Nat -> Option Failure)
    (n : Nat) : (Scheduler.launch fails n s).Ticketed := by
  refine launch_induction ?_ ?_ ?_ n s h
  · intro t queue ht _hpop
    exact ht.of_jobs_eq rfl rfl
  · intro t task queue collector collectors ht _hmay _hpop _hacquire
    have htaken : Ticketed { t with queue, collectors } := ht.of_jobs_eq rfl rfl
    exact htaken.assign task collector
  · intro t task queue failure collectors ht _hmay _hpop _hacquire
    exact ht.of_jobs_eq (by simp) (by simp)

theorem map_setStage {β : Type} (f : Job -> β) (hf : forall job stage, f { job with stage } = f job)
    (s : Scheduler) (ticket : Nat) (stage : Stage) :
    (s.setStage ticket stage).jobs.map f = s.jobs.map f := by
  simp only [setStage, List.map_map]
  apply List.map_congr_left
  intro job _hjob
  simp only [Function.comp]
  split
  · exact hf job stage
  · rfl

theorem Ticketed.setStage {s : Scheduler} (h : s.Ticketed) (ticket : Nat) (stage : Stage) :
    (s.setStage ticket stage).Ticketed :=
  h.of_sublist (by rw [map_setStage Job.ticket fun _ _ => rfl]) rfl

theorem Ticketed.finish {s : Scheduler} (h : s.Ticketed) (job : Job) (outcome : TaskOutcome)
    (poisoned : Bool) : (s.finish job outcome poisoned).Ticketed :=
  (h.of_jobs_eq (t := s.report job.task outcome) rfl rfl).setStage job.ticket _

theorem Ticketed.freeSlots {s : Scheduler} (h : s.Ticketed) : s.freeSlots.Ticketed :=
  h.of_sublist (List.Sublist.map _ List.filter_sublist) rfl

theorem Ticketed.dispatch {s : Scheduler} (h : s.Ticketed) (fails : Nat -> Option Failure) :
    (s.dispatch fails).Ticketed :=
  h.freeSlots.launch fails _

/-!
# The job of a ticket
-/

theorem mem_of_job? {s : Scheduler} {ticket : Nat} {job : Job} (h : s.job? ticket = some job) :
    job ∈ s.jobs ∧ job.ticket = ticket :=
  ⟨List.mem_of_find?_eq_some h, by simpa using List.find?_some h⟩

theorem Ticketed.eq_of_ticket_eq {s : Scheduler} (h : s.Ticketed) {job other : Job}
    (hjob : job ∈ s.jobs) (hother : other ∈ s.jobs) (heq : job.ticket = other.ticket) :
    job = other := by
  have hnodup : (s.jobs.map Job.ticket).Nodup :=
    h.increasing.imp (fun hlt => Nat.ne_of_lt hlt)
  exact List.inj_on_of_nodup_map hnodup hjob hother heq

/-!
# Running jobs
-/

/-- A worker has the task and has not ended it. -/
def Runs (s : Scheduler) (ticket : Nat) (task : Task) : Prop :=
  exists job, job ∈ s.jobs ∧ job.ticket = ticket ∧ job.task = task ∧ job.isFinished = false

theorem Ticketed.lt_of_runs {s : Scheduler} (h : s.Ticketed) {ticket : Nat} {task : Task}
    (hruns : s.Runs ticket task) : ticket < s.nextTicket := by
  rcases hruns with ⟨job, hjob, rfl, -, -⟩
  exact h.issued job hjob

theorem runs_freeSlots (s : Scheduler) (ticket : Nat) (task : Task) :
    s.freeSlots.Runs ticket task ↔ s.Runs ticket task := by
  constructor
  · rintro ⟨job, hjob, hrest⟩
    exact ⟨job, List.mem_of_mem_filter hjob, hrest⟩
  · rintro ⟨job, hjob, hticket, htask, hfinished⟩
    refine ⟨job, List.mem_filter.mpr ⟨hjob, ?_⟩, hticket, htask, hfinished⟩
    rw [hfinished]
    rfl

theorem mem_jobs_setStage (s : Scheduler) (ticket : Nat) (stage : Stage) (job : Job) :
    job ∈ (s.setStage ticket stage).jobs ↔
      exists old, old ∈ s.jobs ∧
        (if old.ticket = ticket then { old with stage } else old) = job := by
  rw [setStage, List.mem_map]

theorem Ticketed.eq_of_mem_setStage {s : Scheduler} (h : s.Ticketed) {job found : Job}
    (hmem : job ∈ s.jobs) {stage : Stage} (hfound : found ∈ (s.setStage job.ticket stage).jobs) :
    found ∈ s.jobs ∨ found = { job with stage } := by
  rcases (mem_jobs_setStage s job.ticket stage found).mp hfound with ⟨old, hold, hset⟩
  split at hset
  · rename_i hsame
    rw [h.eq_of_ticket_eq hold hmem hsame] at hset
    exact Or.inr hset.symm
  · rw [hset] at hold
    exact Or.inl hold

theorem Ticketed.runs_setStage {s : Scheduler} (h : s.Ticketed) {job : Job}
    (hjob : s.job? job.ticket = some job) (hruns : job.isFinished = false) {stage : Stage}
    (hstage : { job with stage }.isFinished = false) (ticket : Nat) (task : Task) :
    (s.setStage job.ticket stage).Runs ticket task ↔ s.Runs ticket task := by
  have hmem := (mem_of_job? hjob).1
  constructor
  · rintro ⟨found, hfound, hticket, htask, hfinished⟩
    rcases h.eq_of_mem_setStage hmem hfound with hold | rfl
    · exact ⟨found, hold, hticket, htask, hfinished⟩
    · exact ⟨job, hmem, hticket, htask, hruns⟩
  · rintro ⟨old, hold, hticket, htask, hfinished⟩
    refine ⟨_, (mem_jobs_setStage s job.ticket stage _).mpr ⟨old, hold, rfl⟩, ?_⟩
    by_cases hsame : old.ticket = job.ticket
    · rw [h.eq_of_ticket_eq hold hmem hsame] at hticket htask ⊢
      rw [if_pos rfl]
      exact ⟨hticket, htask, hstage⟩
    · rw [if_neg hsame]
      exact ⟨hticket, htask, hfinished⟩

theorem runs_finish (s : Scheduler) (job : Job) (outcome : TaskOutcome) (poisoned : Bool)
    (ticket : Nat) (task : Task) :
    (s.finish job outcome poisoned).Runs ticket task ↔
      s.Runs ticket task ∧ ticket ≠ job.ticket := by
  constructor
  · rintro ⟨found, hfound, hticket, htask, hfinished⟩
    rcases (mem_jobs_setStage _ job.ticket _ found).mp hfound with ⟨old, hold, hset⟩
    split at hset
    · rw [← hset] at hfinished
      cases hfinished
    · rename_i hother
      rw [hset] at hold hother
      exact ⟨⟨found, hold, hticket, htask, hfinished⟩, by rw [← hticket]; exact hother⟩
  · rintro ⟨⟨old, hold, hticket, htask, hfinished⟩, hother⟩
    refine ⟨old, (mem_jobs_setStage _ job.ticket _ _).mpr ⟨old, hold, ?_⟩, hticket, htask,
      hfinished⟩
    rw [← hticket] at hother
    exact if_neg hother

end Scheduler
end SymbolIndex
