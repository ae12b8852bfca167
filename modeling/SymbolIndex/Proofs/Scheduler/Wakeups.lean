import SymbolIndex.Proofs.Scheduler.Effort
import SymbolIndex.Proofs.Scheduler.Rounds
import SymbolIndex.Scheduler.Sections

/-!
# Synchronisations and lost wake-ups

While a thread synchronises nothing is handed out, and when it leaves, the jobs that ran
when it entered have ended. Handing out that was held up is made up for: as long as a
task is in line and there is room for it, some thread still has to hand out, or to leave
a synchronisation after which the last one to leave hands out.
-/

namespace SymbolIndex
namespace Scheduler

variable {fails : Nat -> Option Failure} {s : Scheduler}

/-!
# Rounds that fill the scheduler
-/

/-- Every construction of a collector so far succeeded. -/
def NoneFailed (fails : Nat -> Option Failure) (s : Scheduler) : Prop :=
  forall attempt, attempt < s.collectors.attempts -> fails attempt = none

theorem NoneFailed.of_le {t : Scheduler} (h : t.NoneFailed fails)
    (hle : s.collectors.attempts ≤ t.collectors.attempts) : s.NoneFailed fails :=
  fun attempt hattempt => h attempt (Nat.lt_of_lt_of_le hattempt hle)

theorem attempts_launch (fails : Nat -> Option Failure) (k : Nat) (s : Scheduler) :
    s.collectors.attempts ≤ (launch fails k s).collectors.attempts := by
  refine launch_induction
    (P := fun t => s.collectors.attempts ≤ t.collectors.attempts) ?_ ?_ ?_ k s (Nat.le_refl _)
  · exact fun t queue ht _hpop => ht
  · intro t task queue collector collectors ht _hmay _hpop hacquire
    exact Nat.le_trans ht (CollectorPool.attempts_le_of_acquire hacquire)
  · intro t task queue failure collectors ht _hmay _hpop hacquire
    rw [collectors_refuse]
    exact Nat.le_trans ht (CollectorPool.attempts_le_of_acquire hacquire)

theorem attempts_freeSlots (s : Scheduler) :
    s.freeSlots.collectors.attempts = s.collectors.attempts := by
  refine sweep_induction (P := fun c _ => c.attempts = s.collectors.attempts) ?_ _ _ rfl
  intro c before job after _hfinished hc
  rw [← hc]
  unfold giveBack
  split <;> rfl

/-- A round for which there are enough collectors empties the queue or fills the room. -/
theorem launch_fills (k : Nat) {s : Scheduler} (hqueue : s.queue.Sound)
    (hmay : s.mayDispatch = true) (hfree : k ≤ s.collectors.pool.available)
    (hnone : (launch fails k s).NoneFailed fails) :
    (launch fails k s).queue.isEmpty = true ∨
      (launch fails k s).jobs.length = s.jobs.length + k := by
  induction k generalizing s with
  | zero => exact Or.inr rfl
  | succ k ih =>
      rcases hpop : s.queue.pop with ⟨_ | task, queue⟩
      · left
        rcases hqueue.of_pop_none hpop with ⟨hsame, hempty⟩
        simp only [launch, hmay, hpop, hsame, Bool.not_true, Bool.false_eq_true, if_false]
        exact (TaskQueue.isEmpty_iff _).mpr hempty
      · cases hacquire : s.collectors.acquire fails with
        | none =>
            have hnil := (CollectorPool.acquire_eq_none_iff _ _).mp hacquire
            simp [Pool.available, hnil] at hfree
        | some answer =>
            rcases answer with ⟨failure | collector, collectors⟩
            · -- the construction failed, and none did
              have hlast := CollectorPool.fails_of_acquire_error hacquire
              simp only [launch, hmay, hpop, hacquire, Bool.not_true, Bool.false_eq_true,
                if_false, NoneFailed, collectors_refuse,
                (CollectorPool.cells_of_acquire_error hacquire).1] at hnone
              rw [hnone _ (Nat.lt_succ_self _)] at hlast
              cases hlast
            · have hrest : launch fails (k + 1) s =
                  launch fails k ({ s with queue, collectors }.assign task collector) := by
                simp only [launch, hmay, hpop, hacquire, Bool.not_true, Bool.false_eq_true,
                  if_false]
              rcases CollectorPool.free_of_acquire_ok hacquire with ⟨hpool, -⟩
              rw [hrest] at hnone ⊢
              have hroom : k ≤ collectors.pool.available := by
                simp only [Pool.available, hpool, List.length_cons] at hfree
                exact Nat.le_of_succ_le_succ hfree
              refine (ih (s := { s with queue, collectors }.assign task collector)
                (hqueue.get?_of_pop hpop).2.1 hmay hroom hnone).imp_right ?_
              intro hlength
              simp only [assign, List.length_append, List.length_singleton] at hlength ⊢
              omega

/-!
# Holding up
-/

/-- Nothing was handed out in between: no ticket was given out, and no job came onto the list. -/
structure Held (s t : Scheduler) : Prop where
  next : t.nextTicket = s.nextTicket
  jobs : (t.jobs.map Job.ticket).Sublist (s.jobs.map Job.ticket)

namespace Held

variable {t u : Scheduler}

theorem of_jobs_eq (hnext : t.nextTicket = s.nextTicket) (hjobs : t.jobs = s.jobs) : Held s t :=
  ⟨hnext, by rw [hjobs]⟩

theorem refl (s : Scheduler) : Held s s := of_jobs_eq rfl rfl

theorem trans (h : Held s t) (h' : Held t u) : Held s u :=
  ⟨h'.next.trans h.next, h'.jobs.trans h.jobs⟩

end Held

end Scheduler

namespace Crew

variable {fails : Nat -> Option Failure} {n : Nat} {c d e : Crew} {errand : Errand}
  {more rest thread : List Errand}

/-!
# What an errand does
-/

/-- What becomes of a scheduler by an errand, and what is to be done because of it. -/
inductive Effect (fails : Nat -> Option Failure) (s : Scheduler) :
    Errand -> Scheduler -> List Errand -> Prop where
  | enqueue (tasks : List Task) : Effect fails s (.enqueue tasks) (s.enqueue tasks) []
  | drop (files : List FileId) : Effect fails s (.drop files) (s.dropTasks files) []
  | disable : Effect fails s .disable s.disable []
  | sweep : Effect fails s .sweep s.freeSlots []
  | launch :
      Effect fails s .launch (s.launch fails (s.capacity - s.jobs.length)) []
  | enterSync :
      Effect fails s .enterSync { s with syncing := s.syncing + 1 } [.leaveSync (tickets s)]
  | leaveSync (waited : List Nat) (hended : haveEnded s waited = true) :
      Effect fails s (.leaveSync waited) (leave s) (Errand.afterSync (leave s).mayDispatch)

theorem effect_of_act? (hfree : c.sweep = none) (h : act? fails c errand = some (d, more)) :
    exists t, d = { c with scheduler := t } ∧ Effect fails c.scheduler errand t more := by
  have hunlocked : c.isLocked = false := by rw [isLocked, hfree]; rfl
  cases errand with
  | enqueue tasks =>
      cases h
      exact ⟨_, rfl, .enqueue tasks⟩
  | drop files =>
      cases h
      exact ⟨_, rfl, .drop files⟩
  | disable =>
      simp only [act?, perform, hunlocked, Bool.false_eq_true, if_false] at h
      cases h
      exact ⟨_, rfl, .disable⟩
  | sweep =>
      cases h
      exact ⟨_, rfl, .sweep⟩
  | launch =>
      simp only [act?, perform, hunlocked, Bool.false_eq_true, if_false] at h
      cases h
      exact ⟨_, rfl, .launch⟩
  | enterSync =>
      simp only [act?, perform, hunlocked, Bool.false_eq_true, if_false] at h
      cases h
      exact ⟨_, rfl, .enterSync⟩
  | leaveSync waited =>
      simp only [act?, perform, hunlocked, Bool.false_or] at h
      split at h
      · cases h
      · rename_i hended
        cases h
        exact ⟨_, rfl, .leaveSync waited (by simpa using hended)⟩

/-- What becomes of a crew by a stride. -/
inductive Strode (fails : Nat -> Option Failure) (c : Crew) : Stride -> Crew -> Prop where
  | asked (calls : List Call) (hfollow : Call.followUp calls = true) :
      Strode fails c (.ask calls) { c with threads := c.threads ++ [calls.flatMap Call.errands] }
  | went (index : Nat) {errand : Errand} {rest more : List Errand} {t : Scheduler}
      (hthread : c.threads[index]? = some (errand :: rest))
      (heffect : Effect fails c.scheduler errand t more) :
      Strode fails c (.go index)
        { c with scheduler := t, threads := c.threads.set index (more ++ rest) }
  | finished {job : Job} (outcome : TaskOutcome) (poisoned : Bool)
      (hjob : c.scheduler.job? job.ticket = some job) (hruns : job.isFinished = false) :
      Strode fails c (.finish job.ticket outcome poisoned)
        { c with
          scheduler := c.scheduler.finish job outcome poisoned
          threads := c.threads ++ [Errand.dispatch] }

theorem strode_of_stride? {m : Stride} (hfree : c.sweep = none)
    (h : stride? fails c m = some d) : Strode fails c m d := by
  cases m with
  | ask calls =>
      simp only [stride?] at h
      split at h
      · rename_i hfollow
        cases h
        exact .asked calls hfollow
      · cases h
  | go index =>
      simp only [stride?] at h
      split at h
      · rename_i errand rest hthread
        rcases Option.bind_eq_some_iff.mp h with ⟨⟨next, more⟩, hact, hdone⟩
        rcases effect_of_act? hfree hact with ⟨t, rfl, heffect⟩
        cases hdone
        exact .went index hthread heffect
      · cases h
  | finish ticket outcome poisoned =>
      simp only [stride?, move?] at h
      split at h
      · rename_i job hjob
        split at h
        · cases h
        · rename_i hruns
          cases h
          cases (Scheduler.mem_of_job? hjob).2
          exact .finished outcome poisoned hjob (by simpa using hruns)
      · cases h

/-!
# What threads have still to do
-/

/-- How many synchronisations the thread has still to leave. -/
def leaves (thread : List Errand) : Nat :=
  thread.countP fun
    | .leaveSync _ => true
    | _ => false

/-- Handing out goes on by this errand, or by what comes after it. -/
def resumes : Errand -> Bool
  | .launch => true
  | .leaveSync _ => true
  | _ => false

/-- Every enqueuing is followed by a round of handing out. -/
def FollowsUp : List Errand -> Prop
  | [] => True
  | .enqueue _ :: rest => .launch ∈ rest ∧ FollowsUp rest
  | _ :: rest => FollowsUp rest

theorem leaves_append (thread more : List Errand) :
    leaves (thread ++ more) = leaves thread + leaves more :=
  List.countP_append

theorem launch_mem_errands {calls : List Call} (h : Call.dispatch ∈ calls) :
    Errand.launch ∈ calls.flatMap Call.errands :=
  List.mem_flatMap.mpr ⟨_, h, by simp [Call.errands, Errand.dispatch]⟩

theorem followsUp_of_calls {calls : List Call} (h : Call.followUp calls = true) :
    FollowsUp (calls.flatMap Call.errands) := by
  induction calls with
  | nil => trivial
  | cons call rest ih =>
      cases call with
      | enqueue tasks =>
          simp only [Call.followUp, Bool.and_eq_true, List.contains_iff_mem] at h
          exact ⟨launch_mem_errands h.1, ih h.2⟩
      | _ => exact ih h

theorem leaves_of_calls (calls : List Call) : leaves (calls.flatMap Call.errands) = 0 := by
  induction calls with
  | nil => rfl
  | cons call rest ih =>
      rw [List.flatMap_cons, leaves_append, ih]
      cases call <;> rfl

theorem FollowsUp.effect {s t : Scheduler} (h : FollowsUp (errand :: rest))
    (heffect : Effect fails s errand t more) : FollowsUp (more ++ rest) := by
  cases heffect with
  | enqueue tasks => exact h.2
  | leaveSync waited hended =>
      unfold Errand.afterSync
      split <;> exact h
  | _ => exact h

theorem exists_set {P : List Errand -> Prop} {threads : List (List Errand)} {index : Nat}
    {new : List Errand} (hold : threads[index]? = some thread)
    (h : exists other, other ∈ threads ∧ P other) (hkeep : P thread -> P new) :
    exists other, other ∈ threads.set index new ∧ P other := by
  rcases h with ⟨other, hmem, hother⟩
  rcases List.mem_iff_getElem?.mp hmem with ⟨place, hplace⟩
  by_cases hsame : index = place
  · subst hsame
    rw [hold] at hplace
    cases hplace
    exact ⟨new, List.mem_set (List.getElem?_eq_some_iff.mp hold).1 new, hkeep hother⟩
  · refine ⟨other, List.mem_iff_getElem?.mpr ⟨place, ?_⟩, hother⟩
    rw [List.getElem?_set_ne hsame]
    exact hplace

theorem leaves_set {threads : List (List Errand)} {index : Nat}
    (hold : threads[index]? = some thread) (new : List Errand) :
    leaves (threads.set index new).flatten + leaves thread =
      leaves threads.flatten + leaves new := by
  induction threads generalizing index with
  | nil => cases hold
  | cons first others ih =>
      cases index with
      | zero =>
          cases hold
          simp only [List.set_cons_zero, List.flatten_cons, leaves_append]
          omega
      | succ index =>
          have hothers := @ih index hold
          simp only [List.set_cons_succ, List.flatten_cons, leaves_append]
          omega

/-!
# Every stride keeps the crew in order
-/

/--
What holds in every crew without gaps: all slots are accounted for, the synchronisations
are counted, and whoever enqueues tasks or ends a job has still to hand out.
-/
structure InOrder (n : Nat) (c : Crew) : Prop where
  free : c.sweep = none
  queue : c.scheduler.queue.Sound
  account : Accounted n [] c
  syncing : c.scheduler.syncing = leaves c.threads.flatten
  follows : forall thread, thread ∈ c.threads -> FollowsUp thread
  swept : forall job, job ∈ c.scheduler.jobs -> job.isFinished = true ->
    exists thread, thread ∈ c.threads ∧ Errand.dispatch.Sublist thread

theorem inOrder_start (n : Nat) : InOrder (max n 1) (start (.ofCapacity n)) where
  free := rfl
  queue := TaskQueue.sound_empty
  account := accounted_start n
  syncing := rfl
  follows := fun _ hthread => absurd hthread List.not_mem_nil
  swept := fun _ hjob => absurd hjob List.not_mem_nil

section Effects

variable {s t : Scheduler}

theorem Effect.queue (h : Effect fails s errand t more) (hs : s.queue.Sound) : t.queue.Sound := by
  cases h with
  | enqueue tasks => exact hs.addOrUpdate tasks
  | drop files => exact hs.remove files
  | launch =>
      rcases Scheduler.exists_launched hs fails (s.capacity - s.jobs.length) with ⟨_, hlaunched⟩
      exact hlaunched.queue
  | _ => exact hs

theorem Effect.finished (h : Effect fails s errand t more) (hs : s.queue.Sound) {job : Job}
    (hjob : job ∈ t.jobs) (hfinished : job.isFinished = true) :
    errand ≠ .sweep ∧ job ∈ s.jobs := by
  cases h with
  | sweep =>
      have hruns := (List.mem_filter.mp hjob).2
      rw [hfinished] at hruns
      cases hruns
  | launch =>
      refine ⟨by simp, ?_⟩
      rcases Scheduler.exists_launched hs fails (s.capacity - s.jobs.length) with
        ⟨handed, hlaunched⟩
      rw [hlaunched.jobs] at hjob
      refine (List.mem_append.mp hjob).resolve_right fun hnew => ?_
      rw [Job.isFinished, hlaunched.assigned job hnew] at hfinished
      cases hfinished
  | _ => exact ⟨by simp, hjob⟩

theorem Effect.syncing (h : Effect fails s errand t more) (hs : leaves [errand] ≤ s.syncing) :
    t.syncing + leaves [errand] = s.syncing + leaves more := by
  cases h with
  | launch => rw [(Scheduler.switches_launch fails _ s).2]; rfl
  | leaveSync waited hended =>
      have hmore : leaves (Errand.afterSync (leave s).mayDispatch) = 0 := by
        unfold Errand.afterSync
        split <;> rfl
      rw [hmore]
      exact Nat.sub_add_cancel hs
  | _ => rfl

theorem Effect.accounted (h : Effect fails c.scheduler errand t more) (hc : Accounted n [] c) :
    Accounted n [] { c with scheduler := t } := by
  cases h with
  | sweep =>
      rcases Scheduler.placed_freeSlots c.scheduler with ⟨hplaced, hcapacity⟩
      exact ⟨hc.ticketed.freeSlots, hcapacity.trans hc.capacity,
        (hplaced.append_right []).trans hc.slots⟩
  | launch =>
      have hlaunch := Scheduler.launch_placed fails
        (c.scheduler.capacity - c.scheduler.jobs.length) c.scheduler
      exact ⟨hc.ticketed.launch fails _, hlaunch.2.trans hc.capacity,
        (hlaunch.1.append_right []).trans hc.slots⟩
  | _ => exact hc.of_same rfl rfl rfl

end Effects

theorem InOrder.went (h : InOrder n c) {index : Nat} {t : Scheduler}
    (hthread : c.threads[index]? = some (errand :: rest))
    (heffect : Effect fails c.scheduler errand t more) :
    InOrder n { c with scheduler := t, threads := c.threads.set index (more ++ rest) } where
  free := h.free
  queue := heffect.queue h.queue
  account := (heffect.accounted h.account).of_same rfl rfl rfl
  syncing := by
    have hsum := leaves_set hthread (more ++ rest)
    have hless : leaves (errand :: rest) ≤ leaves c.threads.flatten :=
      (List.sublist_flatten_of_mem (List.mem_of_getElem? hthread)).countP_le
    rw [leaves_append, ← List.singleton_append, leaves_append, ← h.syncing] at hsum
    rw [← List.singleton_append, leaves_append, ← h.syncing] at hless
    have hcount := heffect.syncing (by omega)
    dsimp only
    omega
  follows := by
    intro other hother
    rcases List.mem_or_eq_of_mem_set hother with hold | rfl
    · exact h.follows other hold
    · exact (h.follows _ (List.mem_of_getElem? hthread)).effect heffect
  swept := by
    intro job hjob hfinished
    rcases heffect.finished h.queue hjob hfinished with ⟨hne, hbefore⟩
    refine exists_set hthread (h.swept job hbefore hfinished) ?_
    intro hdispatch
    cases hdispatch with
    | cons _ hrest => exact hrest.trans (List.sublist_append_right more rest)
    | cons_cons _ hrest => exact absurd rfl hne

theorem InOrder.strode {m : Stride} (h : InOrder n c) (hstrode : Strode fails c m d) :
    InOrder n d := by
  cases hstrode with
  | asked calls hfollow =>
      refine ⟨h.free, h.queue, h.account.of_same rfl rfl rfl, ?_, ?_, ?_⟩
      · rw [List.flatten_append, leaves_append, List.flatten_singleton, leaves_of_calls]
        exact h.syncing
      · intro thread hthread
        rcases List.mem_append.mp hthread with hold | hnew
        · exact h.follows thread hold
        · rw [List.mem_singleton.mp hnew]
          exact followsUp_of_calls hfollow
      · intro job hjob hfinished
        rcases h.swept job hjob hfinished with ⟨thread, hthread, hdispatch⟩
        exact ⟨thread, List.mem_append_left _ hthread, hdispatch⟩
  | went index hthread heffect => exact h.went hthread heffect
  | @finished job outcome poisoned hjob hruns =>
      refine ⟨h.free, h.queue, ?_, ?_, ?_, ?_⟩
      · refine ⟨h.account.ticketed.finish _ outcome poisoned, h.account.capacity, ?_⟩
        rw [Scheduler.placed_finish]
        exact h.account.slots
      · rw [List.flatten_append, leaves_append]
        exact h.syncing
      · intro thread hthread
        rcases List.mem_append.mp hthread with hold | hnew
        · exact h.follows thread hold
        · rw [List.mem_singleton.mp hnew]
          trivial
      · intro _ _ _
        exact ⟨Errand.dispatch, List.mem_append_right _ List.mem_cons_self, List.Sublist.refl _⟩

/-- Somebody has still to hand out, or to leave a synchronisation. -/
def Busy (c : Crew) : Prop :=
  exists thread, thread ∈ c.threads ∧ exists errand, errand ∈ thread ∧ resumes errand = true

theorem InOrder.busy_of_syncing (h : InOrder n c) (hsyncing : c.scheduler.syncing ≠ 0) :
    c.Busy := by
  rw [h.syncing, leaves, Nat.ne_zero_iff_zero_lt, List.countP_pos_iff] at hsyncing
  rcases hsyncing with ⟨errand, hmem, hleave⟩
  rcases List.mem_flatten.mp hmem with ⟨thread, hthread, herrand⟩
  refine ⟨thread, hthread, errand, herrand, ?_⟩
  split at hleave
  · rfl
  · cases hleave

/-- If a task is in line and there is room for it, somebody sees to it. -/
def Awake (c : Crew) : Prop :=
  c.scheduler.enabled = true -> c.scheduler.queue.isEmpty = false ->
    c.scheduler.jobs.length < c.scheduler.capacity -> c.Busy

section Going

variable {index : Nat} {t : Scheduler}

theorem busy_of_new (hthread : c.threads[index]? = some thread) {new : List Errand}
    (h : exists errand, errand ∈ new ∧ resumes errand = true) :
    Busy { c with scheduler := t, threads := c.threads.set index new } :=
  ⟨new, List.mem_set (List.getElem?_eq_some_iff.mp hthread).1 new, h⟩

theorem Busy.went (h : c.Busy) (hthread : c.threads[index]? = some (errand :: rest))
    (hother : resumes errand = false) (more : List Errand) :
    Busy { c with scheduler := t, threads := c.threads.set index (more ++ rest) } := by
  refine exists_set hthread h ?_
  rintro ⟨found, hfound, hresumes⟩
  rcases List.mem_cons.mp hfound with rfl | hrest
  · rw [hother] at hresumes
    cases hresumes
  · exact ⟨found, List.mem_append_right _ hrest, hresumes⟩

theorem InOrder.available_add_jobs (h : InOrder n c) :
    c.scheduler.collectors.pool.available + c.scheduler.jobs.length = c.scheduler.capacity := by
  have hlength := h.account.slots.length_eq
  rw [List.append_nil, Scheduler.length_placed, List.length_range] at hlength
  rw [h.account.capacity]
  exact hlength

theorem syncing_ne_zero {s : Scheduler} (henabled : s.enabled = true)
    (hheld : s.mayDispatch = false) : s.syncing ≠ 0 := by
  intro hzero
  simp [Scheduler.mayDispatch, henabled, hzero] at hheld

theorem InOrder.awake_went (h : InOrder n c) (hawake : c.Awake)
    (hthread : c.threads[index]? = some (errand :: rest))
    (heffect : Effect fails c.scheduler errand t more) (hnone : t.NoneFailed fails) :
    Awake { c with scheduler := t, threads := c.threads.set index (more ++ rest) } := by
  have hafter := h.went hthread heffect
  intro henabled hline hroom
  cases heffect with
  | enqueue tasks =>
      exact busy_of_new hthread
        ⟨.launch, (h.follows _ (List.mem_of_getElem? hthread)).1, rfl⟩
  | drop files =>
      have hbefore : c.scheduler.queue.isEmpty = false := by
        by_contra hempty
        rw [Bool.not_eq_false, TaskQueue.isEmpty_iff] at hempty
        have hnothing : (c.scheduler.queue.remove files).isEmpty = true := by
          rw [TaskQueue.isEmpty_iff]
          intro file
          rw [TaskQueue.get?_remove, hempty, ite_self]
        exact absurd (hline.symm.trans hnothing) Bool.false_ne_true
      exact (hawake henabled hbefore hroom).went hthread rfl []
  | disable => cases henabled
  | sweep =>
      by_cases hfinished : exists job, job ∈ c.scheduler.jobs ∧ job.isFinished = true
      · -- the worker of a job that goes has still to hand out
        rcases hfinished with ⟨job, hjob, hfinished⟩
        rcases h.swept job hjob hfinished with ⟨thread, hmem, hdispatch⟩
        have hlaunch : Errand.launch ∈ thread :=
          hdispatch.subset (List.mem_cons_of_mem _ List.mem_cons_self)
        have hstays : exists other, other ∈ c.threads.set index rest ∧ Errand.launch ∈ other :=
          exists_set hthread ⟨thread, hmem, hlaunch⟩ (fun hmem => by simpa using hmem)
        rcases hstays with ⟨other, hother, hmem⟩
        exact ⟨other, hother, .launch, hmem, rfl⟩
      · have hsame : c.scheduler.freeSlots.jobs = c.scheduler.jobs := by
          refine List.filter_eq_self.mpr fun job hjob => ?_
          cases hjobFinished : job.isFinished with
          | false => rfl
          | true => exact absurd ⟨job, hjob, hjobFinished⟩ hfinished
        refine (hawake henabled hline ?_).went hthread rfl []
        rw [← hsame, ← (Scheduler.placed_freeSlots c.scheduler).2]
        exact hroom
  | launch =>
      cases hmay : c.scheduler.mayDispatch with
      | true =>
          have hall := h.available_add_jobs
          have hcapacity := (Scheduler.launch_placed fails
            (c.scheduler.capacity - c.scheduler.jobs.length) c.scheduler).2
          rcases Scheduler.launch_fills (c.scheduler.capacity - c.scheduler.jobs.length) h.queue
            hmay (by omega) hnone with hempty | hfull
          · exact absurd (hline.symm.trans hempty) Bool.false_ne_true
          · dsimp only at hroom
            omega
      | false =>
          apply hafter.busy_of_syncing
          apply syncing_ne_zero henabled
          dsimp only
          rw [Scheduler.launch_of_held fails _ hmay]
          exact hmay
  | enterSync => exact busy_of_new hthread ⟨_, List.mem_cons_self, rfl⟩
  | leaveSync waited hended =>
      cases hmay : (leave c.scheduler).mayDispatch with
      | true =>
          exact busy_of_new hthread
            ⟨.launch, by simp [Errand.afterSync, Errand.dispatch], rfl⟩
      | false =>
          rw [hmay] at hafter
          exact hafter.busy_of_syncing (syncing_ne_zero henabled hmay)

end Going

theorem Effect.attempts {s t : Scheduler} (h : Effect fails s errand t more) :
    s.collectors.attempts ≤ t.collectors.attempts := by
  cases h with
  | sweep => exact Nat.le_of_eq (Scheduler.attempts_freeSlots s).symm
  | launch => exact Scheduler.attempts_launch fails _ s
  | _ => exact Nat.le_refl _

theorem Strode.attempts {m : Stride} (h : Strode fails c m d) :
    c.scheduler.collectors.attempts ≤ d.scheduler.collectors.attempts := by
  cases h with
  | went index hthread heffect => exact heffect.attempts
  | _ => exact Nat.le_refl _

theorem InOrder.awake_strode {m : Stride} (h : InOrder n c) (hawake : c.Awake)
    (hstrode : Strode fails c m d) (hnone : d.scheduler.NoneFailed fails) : d.Awake := by
  cases hstrode with
  | asked calls hfollow =>
      intro henabled hline hroom
      rcases hawake henabled hline hroom with ⟨thread, hthread, hbusy⟩
      exact ⟨thread, List.mem_append_left _ hthread, hbusy⟩
  | went index hthread heffect => exact h.awake_went hawake hthread heffect hnone
  | finished outcome poisoned hjob hruns =>
      intro _ _ _
      exact ⟨Errand.dispatch, List.mem_append_right _ List.mem_cons_self, .launch,
        List.mem_cons_of_mem _ List.mem_cons_self, rfl⟩

/-!
# Runs
-/

theorem InOrder.strides_induction {P : Crew -> List Stride -> Prop} {moves : List Stride}
    (h : InOrder n c) (hstart : P c moves)
    (hstep : forall {c d : Crew} {m : Stride} {rest : List Stride}, InOrder n c -> InOrder n d ->
      Strode fails c m d -> P c (m :: rest) -> P d rest)
    (hrun : strides? fails c moves = some d) : InOrder n d ∧ P d [] := by
  induction moves generalizing c with
  | nil =>
      cases hrun
      exact ⟨h, hstart⟩
  | cons m rest ih =>
      rw [strides?, List.foldlM_cons] at hrun
      rcases Option.bind_eq_some_iff.mp hrun with ⟨next, hstride, hrest⟩
      have hstrode := strode_of_stride? h.free hstride
      have hnext := h.strode hstrode
      exact ih hnext (hstep h hnext hstrode hstart) hrest

theorem InOrder.awake_strides {moves : List Stride} (h : InOrder n c) (hawake : c.Awake)
    (hrun : strides? fails c moves = some d) (hnone : d.scheduler.NoneFailed fails) : d.Awake := by
  refine (h.strides_induction (P := fun c _ => c.scheduler.NoneFailed fails -> c.Awake)
    (fun _ => hawake) ?_ hrun).2 hnone
  intro c d m rest hbefore _hafter hstrode hawake hnone
  exact hbefore.awake_strode (hawake (hnone.of_le hstrode.attempts)) hstrode hnone

/-!
# While handing out is held up
-/

theorem Effect.held {s t : Scheduler} (h : Effect fails s errand t more)
    (hmay : s.mayDispatch = false) : s.Held t := by
  cases h with
  | sweep => exact ⟨rfl, List.Sublist.map _ List.filter_sublist⟩
  | launch =>
      rw [Scheduler.launch_of_held fails _ hmay]
      exact Scheduler.Held.refl s
  | _ => exact Scheduler.Held.of_jobs_eq rfl rfl

theorem Strode.held {m : Stride} (h : Strode fails c m d) (hmay : c.scheduler.mayDispatch = false) :
    c.scheduler.Held d.scheduler := by
  cases h with
  | asked calls hfollow => exact Scheduler.Held.refl _
  | went index hthread heffect => exact heffect.held hmay
  | finished outcome poisoned hjob hruns =>
      refine ⟨rfl, ?_⟩
      rw [Scheduler.finish, Scheduler.map_setStage Job.ticket fun _ _ => rfl]
      exact List.Sublist.refl _

theorem Strode.runs {m : Stride} (h : Strode fails c m d) (hqueue : c.scheduler.queue.Sound)
    {ticket : Nat} {task : Task} (hruns : c.scheduler.Runs ticket task) :
    d.scheduler.Runs ticket task ∨
      exists outcome poisoned, m = .finish ticket outcome poisoned := by
  cases h with
  | asked calls hfollow => exact Or.inl hruns
  | went index hthread heffect =>
      left
      cases heffect with
      | sweep => exact (Scheduler.runs_freeSlots _ ticket task).mpr hruns
      | launch =>
          rcases Scheduler.exists_launched hqueue fails
            (c.scheduler.capacity - c.scheduler.jobs.length) with ⟨handed, hlaunched⟩
          exact (hlaunched.runs ticket task).mpr (Or.inl hruns)
      | _ => exact hruns
  | @finished job outcome poisoned hjob hjobRuns =>
      by_cases hticket : ticket = job.ticket
      · exact Or.inr ⟨outcome, poisoned, by rw [hticket]⟩
      · exact Or.inl ((Scheduler.runs_finish _ job outcome poisoned ticket task).mpr
          ⟨hruns, hticket⟩)

theorem Strode.stays {m : Stride} (h : Strode fails c m d) {index : Nat} (hother : m ≠ .go index)
    (hthread : c.threads[index]? = some thread) : d.threads[index]? = some thread := by
  have happend : forall new : List (List Errand),
      (c.threads ++ new)[index]? = some thread := by
    intro new
    rw [List.getElem?_append_left (List.getElem?_eq_some_iff.mp hthread).1]
    exact hthread
  cases h with
  | asked calls hfollow => exact happend _
  | went place hplace heffect =>
      have hne : place ≠ index := by
        rintro rfl
        exact hother rfl
      rw [← hthread]
      exact List.getElem?_set_ne hne
  | finished outcome poisoned hjob hruns => exact happend _

theorem InOrder.held_of_leaveSync (h : InOrder n c) {index : Nat} {waited : List Nat}
    (hthread : c.threads[index]? = some (.leaveSync waited :: rest)) :
    c.scheduler.mayDispatch = false := by
  have hless : leaves (.leaveSync waited :: rest) ≤ leaves c.threads.flatten :=
    (List.sublist_flatten_of_mem (List.mem_of_getElem? hthread)).countP_le
  have hone : 0 < leaves (.leaveSync waited :: rest) := by simp [leaves]
  have hsyncing : c.scheduler.syncing ≠ 0 := by
    rw [h.syncing]
    omega
  simp [Scheduler.mayDispatch, hsyncing]

/-- What holds while a thread waits for the jobs that ran when it entered. -/
structure Waits (c : Crew) (index : Nat) (thread : List Errand) (moves : List Stride)
    (d : Crew) : Prop where
  stays : d.threads[index]? = some thread
  held : c.scheduler.Held d.scheduler
  runs : forall ticket task, c.scheduler.Runs ticket task -> d.scheduler.Runs ticket task ∨
    exists outcome poisoned, .finish ticket outcome poisoned ∈ moves

theorem InOrder.waits {moves : List Stride} (h : InOrder n c) {index : Nat} {waited : List Nat}
    (hthread : c.threads[index]? = some (.leaveSync waited :: rest))
    (hmoves : .go index ∉ moves) (hrun : strides? fails c moves = some d) :
    InOrder n d ∧ Waits c index (.leaveSync waited :: rest) moves d := by
  have hboth := h.strides_induction (P := fun d later => (forall m, m ∈ later -> m ∈ moves) ∧
    Waits c index (.leaveSync waited :: rest) moves d)
    ⟨fun _ => id, hthread, Scheduler.Held.refl _, fun _ _ => Or.inl⟩ ?_ hrun
  · exact ⟨hboth.1, hboth.2.2⟩
  · rintro d e m later hd - hstrode ⟨hlater, hwaits⟩
    have hmem := hlater m List.mem_cons_self
    refine ⟨fun m hm => hlater m (List.mem_cons_of_mem _ hm), ?_, ?_, ?_⟩
    · refine hstrode.stays ?_ hwaits.stays
      rintro rfl
      exact hmoves hmem
    · exact hwaits.held.trans (hstrode.held (hd.held_of_leaveSync hwaits.stays))
    · intro ticket task hruns
      rcases hwaits.runs ticket task hruns with hstill | hended
      · refine (hstrode.runs hd.queue hstill).imp_right ?_
        rintro ⟨outcome, poisoned, rfl⟩
        exact ⟨outcome, poisoned, hmem⟩
      · exact Or.inr hended

/-- A thread enters a synchronisation in `c` and has not left it in `d`. -/
def Syncs (fails : Nat -> Option Failure) (index : Nat) (c : Crew) (between : List Stride)
    (d : Crew) : Prop :=
  (exists rest, c.threads[index]? = some (.enterSync :: rest)) ∧ .go index ∉ between ∧
    strides? fails c (.go index :: between) = some d

theorem InOrder.waits_of_syncs {between : List Stride} (h : InOrder n c) {index : Nat}
    (hsyncs : Syncs fails index c between d) :
    InOrder n d ∧
      exists rest, Waits c index (.leaveSync (tickets c.scheduler) :: rest) between d := by
  rcases hsyncs with ⟨⟨rest, hthread⟩, hbetween, hrun⟩
  rw [strides?, List.foldlM_cons] at hrun
  rcases Option.bind_eq_some_iff.mp hrun with ⟨next, hstride, hlater⟩
  have hstrode := strode_of_stride? h.free hstride
  have hnext := h.strode hstrode
  cases hstrode with
  | went _ hplace heffect =>
      rw [hthread] at hplace
      cases hplace
      cases heffect
      have hentered : (c.threads.set index (.leaveSync (tickets c.scheduler) :: rest))[index]? =
          some (.leaveSync (tickets c.scheduler) :: rest) :=
        List.getElem?_set_self (List.getElem?_eq_some_iff.mp hthread).1
      rcases hnext.waits hentered hbetween hlater with ⟨hd, hwaits⟩
      exact ⟨hd, rest, hwaits.stays, ⟨hwaits.held.next, hwaits.held.jobs⟩, hwaits.runs⟩

/-- A thread that leaves hands out nothing, and all jobs that ran when it entered have ended. -/
theorem InOrder.left_of_waits {between : List Stride} {index : Nat} (h : InOrder n d)
    (hwaits : Waits c index (.leaveSync (tickets c.scheduler) :: rest) between d)
    (hleaves : stride? fails d (.go index) = some e) :
    d.scheduler.Held e.scheduler ∧
      forall ticket task, c.scheduler.Runs ticket task ->
        exists outcome poisoned, .finish ticket outcome poisoned ∈ between := by
  have hstrode := strode_of_stride? h.free hleaves
  refine ⟨hstrode.held (h.held_of_leaveSync hwaits.stays), ?_⟩
  intro ticket task hruns
  refine (hwaits.runs ticket task hruns).resolve_left ?_
  rintro ⟨job, hjob, rfl, -, hunfinished⟩
  rcases hruns with ⟨old, hold, hticket, -⟩
  cases hstrode with
  | went _ hplace heffect =>
      rw [hwaits.stays] at hplace
      cases hplace
      cases heffect with
      | leaveSync waited hended =>
          have hlisted : job.ticket ∈ tickets c.scheduler := by
            rw [← hticket]
            exact List.mem_map_of_mem hold
          have hone := List.all_eq_true.mp hended job hjob
          simp [hunfinished, hlisted] at hone

theorem InOrder.held_of_disabled {moves : List Stride} (h : InOrder n c)
    (hdisabled : c.scheduler.enabled = false) (hrun : strides? fails c moves = some d) :
    c.scheduler.Held d.scheduler := by
  refine (h.strides_induction (P := fun d _ => d.scheduler.enabled = false ∧
    c.scheduler.Held d.scheduler) ⟨hdisabled, Scheduler.Held.refl _⟩ ?_ hrun).2.2
  rintro d e m later - - hstrode ⟨hdisabled, hheld⟩
  have hmay : d.scheduler.mayDispatch = false := by simp [Scheduler.mayDispatch, hdisabled]
  refine ⟨?_, hheld.trans (hstrode.held hmay)⟩
  cases hstrode with
  | went index hthread heffect =>
      cases heffect with
      | launch =>
          dsimp only
          rw [(Scheduler.switches_launch fails _ d.scheduler).1]
          exact hdisabled
      | disable => rfl
      | _ => exact hdisabled
  | _ => exact hdisabled

/--
Threads make calls in any order, as long as every enqueuing is followed by a dispatch, and
jobs end in any order. Between the moment in which a thread enters a synchronisation and
the one in which it leaves, nothing is handed out, and it leaves only after every job that
ran when it entered has ended. Nothing is handed out after the scheduler was disabled. If
no construction of a collector failed and nobody has anything left to do, then a scheduler
that is enabled has nothing in line, or as many jobs run as the pool has slots.
-/
theorem sync_holds_up_and_wakes {fails : Nat -> Option Failure} {n : Nat} {moves : List Stride}
    {c : Crew} (hrun : strides? fails (start (.ofCapacity n)) moves = some c) :
    (forall thread between d, Syncs fails thread c between d -> c.scheduler.Held d.scheduler ∧
      forall e, stride? fails d (.go thread) = some e -> c.scheduler.Held e.scheduler ∧
        forall ticket task, c.scheduler.Runs ticket task ->
          exists outcome poisoned, .finish ticket outcome poisoned ∈ between) ∧
      (forall thread rest later d, c.threads[thread]? = some (.disable :: rest) ->
        strides? fails c (.go thread :: later) = some d -> c.scheduler.Held d.scheduler) ∧
      (c.scheduler.NoneFailed fails -> c.isQuiet = true -> c.scheduler.enabled = true ->
        c.scheduler.queue.isEmpty = false ->
          c.scheduler.capacity ≤ (Drain.running c.scheduler).length) := by
  have hstart := inOrder_start n
  have horder := (hstart.strides_induction (P := fun _ _ => True) trivial
    (fun _ _ _ _ => trivial) hrun).1
  refine ⟨?_, ?_, ?_⟩
  · intro thread between d hsyncs
    rcases horder.waits_of_syncs hsyncs with ⟨hd, rest, hwaits⟩
    refine ⟨hwaits.held, fun e hleaves => ?_⟩
    rcases hd.left_of_waits hwaits hleaves with ⟨hheld, hended⟩
    exact ⟨hwaits.held.trans hheld, hended⟩
  · intro thread rest later d hthread hlater
    rw [strides?, List.foldlM_cons] at hlater
    rcases Option.bind_eq_some_iff.mp hlater with ⟨next, hstride, hrest⟩
    have hstrode := strode_of_stride? horder.free hstride
    have hnext := horder.strode hstrode
    cases hstrode with
    | went _ hplace heffect =>
        rw [hthread] at hplace
        cases hplace
        cases heffect
        have hheld := hnext.held_of_disabled rfl hrest
        exact ⟨hheld.next, hheld.jobs⟩
  · intro hnone hquiet henabled hline
    have hidle : forall thread, thread ∈ c.threads -> thread = [] := by
      intro thread hthread
      simp only [isQuiet, Bool.and_eq_true, List.all_eq_true] at hquiet
      exact List.isEmpty_iff.mp (hquiet.2 thread hthread)
    have hfull : c.scheduler.capacity ≤ c.scheduler.jobs.length := by
      by_contra hroom
      have hawake := hstart.awake_strides (fun _ hline => by cases hline) hrun hnone
      rcases hawake henabled hline (Nat.not_le.mp hroom) with ⟨thread, hthread, errand, hmem, -⟩
      rw [hidle thread hthread] at hmem
      cases hmem
    have hswept : c.scheduler.jobs.filter Job.isFinished = [] := by
      rw [List.filter_eq_nil_iff]
      intro job hjob hfinished
      rcases horder.swept job hjob hfinished with ⟨thread, hthread, hdispatch⟩
      rw [hidle thread hthread] at hdispatch
      cases hdispatch
    have hsum := Drain.length_running_add_finished c.scheduler
    rw [hswept, List.length_nil] at hsum
    omega

/-- Three tasks and one slot: the first task runs, and two threads are to synchronise. -/
def entering : List Stride :=
  [.ask [.enqueue [⟨⟨1⟩, ⟨"part"⟩, []⟩, ⟨⟨2⟩, ⟨"part"⟩, []⟩], .enqueue [⟨⟨3⟩, ⟨"part"⟩, []⟩],
    .dispatch], .go 0, .go 0, .go 0, .go 0, .ask [.sync], .ask [.sync]]

/-- The second thread enters as well, the job ends, and its worker hands out in vain. -/
def waiting : List Stride := [.go 2, .finish 0 .unchanged false, .go 3, .go 3]

/-- The first thread leaves and does not resume, the second one does. -/
def leaving : List Stride := [.go 1, .go 1, .go 2, .go 2, .go 2, .go 2]

/-- A crew with one slot for which every collector can be made, after some strides. -/
def reached (strides : List Stride) : Crew :=
  (strides? (fun _ => none) (start (.ofCapacity 1)) strides).getD (start (.ofCapacity 1))

/--
The dispatch of the worker is held up, and so is all that the first thread does after it
left, but the second one makes up for it: the second task runs while the third waits.
-/
theorem overlapping_syncs_wake :
    let entered := reached entering
    let waited := reached (entering ++ .go 1 :: waiting)
    let left := reached (entering ++ .go 1 :: waiting ++ leaving)
    entered.scheduler.Runs 0 ⟨⟨1⟩, ⟨"part"⟩, []⟩ ∧ Syncs (fun _ => none) 1 entered waiting waited ∧
      entered.scheduler.Held waited.scheduler ∧
      (exists outcome poisoned, .finish 0 outcome poisoned ∈ waiting) ∧
      strides? (fun _ => none) waited leaving = some left ∧ left.isQuiet = true ∧
      left.scheduler.queue.isEmpty = false ∧
      left.scheduler.capacity ≤ (Drain.running left.scheduler).length := by
  intro entered waited left
  have hentered : strides? (fun _ => none) (start (.ofCapacity 1)) entering = some entered := rfl
  have hleft : strides? (fun _ => none) (start (.ofCapacity 1))
      (entering ++ .go 1 :: waiting ++ leaving) = some left := rfl
  have hruns : entered.scheduler.Runs 0 ⟨⟨1⟩, ⟨"part"⟩, []⟩ :=
    ⟨⟨0, ⟨⟨1⟩, ⟨"part"⟩, []⟩, ⟨0, 0⟩, .assigned⟩, List.mem_cons_self, rfl, rfl, rfl⟩
  have hsyncs : Syncs (fun _ => none) 1 entered waiting waited := ⟨⟨[], rfl⟩, by decide, rfl⟩
  rcases (sync_holds_up_and_wakes hentered).1 1 waiting waited hsyncs with ⟨hheld, hleaves⟩
  refine ⟨hruns, hsyncs, hheld, (hleaves _ rfl).2 0 _ hruns, rfl, by decide, by decide, ?_⟩
  exact (sync_holds_up_and_wakes hleft).2.2 (fun _ _ => rfl) (by decide) (by decide) (by decide)

end Crew
end SymbolIndex
