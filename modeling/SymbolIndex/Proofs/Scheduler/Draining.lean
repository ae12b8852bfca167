import SymbolIndex.Proofs.Scheduler.Accounts
import SymbolIndex.Proofs.Scheduler.Effort

/-!
# Every drain comes to an end, with an account of every task

Each turn of a drain takes something of the effort that is left, of the way the waiter
has to go until it looks whether all is done, or of the rounds that are owed; and a
waiter that has to go round again has found effort left that this time round takes some
of. So the drain ends, whatever constructions fail and however the jobs end.
-/

namespace SymbolIndex
namespace Drain

variable {fails : Nat -> Option Failure} {n size : Nat} {s : Scheduler} {log : List Entry}
  {l m : Ledger}

/-!
# Counting
-/

/-- The tasks are in line, running or reported, and the counters agree with reports and log. -/
structure Tallied (size : Nat) (s : Scheduler) (log : List Entry) : Prop where
  tasks : s.queue.toList.length + (running s).length + s.reports.length = size
  dispatched : s.counters.dispatched = (running s).length + (ends log).length
  outcomes : s.counters.indexed + s.counters.unchanged + s.counters.stale + s.counters.failed =
    s.reports.length

theorem dispatched_record (c : SchedulerCounters) (outcome : TaskOutcome) :
    (c.record outcome).dispatched = c.dispatched := by
  cases outcome <;> rfl

theorem sum_record (c : SchedulerCounters) (outcome : TaskOutcome) :
    (c.record outcome).indexed + (c.record outcome).unchanged + (c.record outcome).stale +
        (c.record outcome).failed =
      c.indexed + c.unchanged + c.stale + c.failed + 1 := by
  cases outcome <;> simp only [SchedulerCounters.record] <;> omega

theorem Tallied.handed (h : Tallied size s log) (hs : s.Orderly n) {task : Task}
    {queue : TaskQueue} (hpop : s.queue.pop = (some task, queue)) (collector : Borrowed Nat)
    (collectors : CollectorPool) :
    Tallied size ({ s with queue, collectors }.assign task collector) log where
  tasks := by
    have hruns := running_assign { s with queue, collectors } task collector
    have htasks := h.tasks
    rw [hs.queue.toList_of_pop hpop, List.length_cons] at htasks
    rw [hruns, ← htasks]
    simp only [Scheduler.assign, running]
    omega
  dispatched := by
    have hdispatched := h.dispatched
    rw [running_assign]
    simp only [Scheduler.assign, running] at hdispatched ⊢
    omega
  outcomes := h.outcomes

theorem Tallied.refused (h : Tallied size s log) (hs : s.Orderly n) {task : Task}
    {queue : TaskQueue} (hpop : s.queue.pop = (some task, queue)) (collectors : CollectorPool)
    (failure : Failure) : Tallied size ({ s with queue, collectors }.refuse task failure) log := by
  rcases hs.queue.get?_of_pop hpop with ⟨-, hsound, hget⟩
  have htasks := h.tasks
  rw [hs.queue.toList_of_pop hpop, List.length_cons] at htasks
  rw [hs.refuse_eq hpop]
  split
  · refine ⟨?_, (dispatched_record _ _).trans h.dispatched, ?_⟩
    · simp only [Scheduler.report, List.length_append, List.length_singleton, running]
      simp only [running] at htasks
      omega
    · rw [Scheduler.report, sum_record, h.outcomes, List.length_append, List.length_singleton]
  · have habsent : queue.contains task.file = false :=
      (Table.contains_eq_false_iff _ _).mpr ((hget task.file).trans (if_pos rfl))
    refine ⟨?_, h.dispatched, h.outcomes⟩
    rw [hsound.toList_push habsent, List.length_append, List.length_singleton]
    exact htasks

theorem Tallied.of_ends (h : Tallied size s log) {log' : List Entry} (hends : ends log' = ends log) :
    Tallied size s log' where
  tasks := h.tasks
  dispatched := by
    rw [hends]
    exact h.dispatched
  outcomes := h.outcomes

theorem Tallied.finish (h : Tallied size s log) (hs : s.Orderly n) {job : Job}
    (hjob : s.job? job.ticket = some job) (hruns : job.isFinished = false) (ending : Ending) :
    Tallied size (s.finish job ending.outcome ending.poisons) (log ++ [.ended job ending]) := by
  have hrunning := running_finish hs.ticketed hjob hruns ending.outcome ending.poisons
  have htasks := h.tasks
  have hdispatched := h.dispatched
  have hreports : (s.finish job ending.outcome ending.poisons).reports.length =
      s.reports.length + 1 := by
    simp [Scheduler.finish, Scheduler.setStage, Scheduler.report]
  refine ⟨?_, ?_, ?_⟩
  · have hline : (s.finish job ending.outcome ending.poisons).queue = s.queue := rfl
    rw [hreports, hline, ← htasks]
    omega
  · rw [ends_append, List.length_append, ends_ended, List.length_singleton]
    refine (dispatched_record s.counters ending.outcome).trans ?_
    omega
  · rw [hreports, ← h.outcomes]
    exact sum_record s.counters ending.outcome

theorem Tallied.step (h : Tallied size l.1 l.2) (hl : l.1.Orderly n)
    (hstep : Step fails l m) : Tallied size m.1 m.2 := by
  cases hstep with
  | served hserves =>
      have hends := ends_of_serves hserves
      cases hserves with
      | handed hpop hacquire => exact (h.handed hl hpop _ _).of_ends hends
      | refused hpop hacquire => exact (h.refused hl hpop _ _).of_ends hends
  | swept s log =>
      refine ⟨?_, ?_, h.outcomes⟩
      · rw [running_freeSlots]
        exact h.tasks
      · rw [running_freeSlots]
        exact h.dispatched
  | synced s log syncing => exact ⟨h.tasks, h.dispatched, h.outcomes⟩
  | ended ending hjob hruns => exact h.finish hl hjob hruns ending

/-!
# The way of the waiter
-/

/-- The last part of a round: handing out, each time with or without a sweep before, and the look. -/
inductive Closing : List Chore -> Prop where
  | check : Closing [.check]
  | dispatch {rest : List Chore} (h : Closing rest) : Closing (.dispatch :: rest)
  | sweep {rest : List Chore} (h : Closing rest) : Closing (.sweep :: .dispatch :: rest)

/-- Where the waiter is, with what it knows there. -/
inductive Phase (s : Scheduler) : List Chore -> Prop where
  | entering (hsyncing : s.syncing = 0) : Phase s Chore.round
  | leaving (tickets : List Nat) (hsyncing : s.syncing = 1)
      (hjobs : forall job, job ∈ s.jobs -> job.ticket ∈ tickets) :
      Phase s (.leaveSync tickets :: Chore.round.tail)
  | closing {rest : List Chore} (hsyncing : s.syncing = 0) (hrest : Closing rest) : Phase s rest
  | done (hsyncing : s.syncing = 0) (hidle : effort s = 0) : Phase s []

/-- How far the waiter is from its next look. -/
def distance : List Chore -> Nat
  | .enterSync :: _ => 7
  | .leaveSync _ :: _ => 6
  | rest => rest.length

/-- One where the rest of the round need not take any effort. -/
def slack (s : Scheduler) : List Chore -> Nat
  | .enterSync :: _ => if effort s = 0 then 1 else 0
  | .leaveSync _ :: _ => if effort s = 0 then 1 else 0
  | .sweep :: _ => if Ready s then 0 else 1
  | .dispatch :: _ => if Ready s then 0 else 1
  | _ => 1

/-- What every turn takes something of. -/
def remaining (d : Drain) : Nat :=
  8 * (2 * effort d.scheduler + slack d.scheduler d.waiter) + distance d.waiter + d.owed

theorem slack_le_one (s : Scheduler) (waiter : List Chore) : slack s waiter ≤ 1 := by
  unfold slack
  split
  all_goals first | exact Nat.le_refl 1 | (split <;> decide)

/-!
# Rounds that others owe
-/

theorem syncing_dispatch (s : Scheduler) (fails : Nat -> Option Failure) :
    (s.dispatch fails).syncing = s.syncing :=
  (Scheduler.switches_launch fails _ s.freeSlots).2

theorem dispatch_of_held (hsyncing : s.syncing = 1) (fails : Nat -> Option Failure) :
    s.dispatch fails = s.freeSlots := by
  apply Scheduler.launch_of_held
  simp [Scheduler.mayDispatch, Scheduler.freeSlots, hsyncing]

theorem Phase.dispatch {waiter : List Chore} (h : Phase s waiter) (hs : s.Orderly n)
    (fails : Nat -> Option Failure) : Phase (s.dispatch fails) waiter := by
  have hsame := syncing_dispatch s fails
  cases h with
  | entering hsyncing => exact .entering (hsame.trans hsyncing)
  | leaving tickets hsyncing hjobs =>
      refine .leaving tickets (hsame.trans hsyncing) ?_
      rw [dispatch_of_held hsyncing]
      exact fun job hjob => hjobs job (List.mem_of_mem_filter hjob)
  | closing hsyncing hrest => exact .closing (hsame.trans hsyncing) hrest
  | done hsyncing hidle =>
      refine .done (hsame.trans hsyncing) ?_
      exact Nat.le_zero.mp (hidle ▸ effort_dispatch_le hs fails)

theorem slack_dispatch {waiter : List Chore} (h : Phase s waiter) (hs : s.Orderly n)
    (fails : Nat -> Option Failure) :
    effort (s.dispatch fails) < effort s ∨
      effort (s.dispatch fails) = effort s ∧
        slack (s.dispatch fails) waiter ≤ slack s waiter := by
  rcases Nat.lt_or_eq_of_le (effort_dispatch_le hs fails) with hless | hsame
  · exact Or.inl hless
  · -- a round that takes no effort had nothing to do
    have hnothing : s.syncing = 0 -> ¬ Ready s := by
      intro hsyncing hready
      have hless := effort_dispatch_lt hs hready hsyncing fails
      omega
    refine Or.inr ⟨hsame, ?_⟩
    cases h with
    | entering hsyncing => simp [slack, Chore.round, hsame]
    | leaving tickets hsyncing hjobs => simp [slack, hsame]
    | closing hsyncing hrest =>
        refine Nat.le_trans (slack_le_one _ _) ?_
        cases hrest with
        | check => exact Nat.le_refl 1
        | dispatch hrest => simp [slack, hnothing hsyncing]
        | sweep hrest => simp [slack, hnothing hsyncing]
    | done hsyncing hidle => exact Nat.le_refl 1

/-!
# Every turn gets on
-/

/-- Where a drain stands at every moment: the scheduler is in order and the waiter on its way. -/
structure Underway (n : Nat) (d : Drain) : Prop where
  orderly : d.scheduler.Orderly n
  phase : Phase d.scheduler d.waiter

variable {d d' : Drain}

theorem underway_start (hs : s.Orderly n) (hsyncing : s.syncing = 0) (owed : Nat) :
    Underway n (start s owed) := ⟨hs, .entering hsyncing⟩

theorem Underway.handOut (h : Underway n d) (howed : d.owed ≠ 0) :
    Phase (d.scheduler.dispatch fails) d.waiter ∧
      remaining { d.dispatch fails with owed := d.owed - 1 } < remaining d := by
  refine ⟨h.phase.dispatch h.orderly fails, ?_⟩
  have hsmall := slack_le_one (d.scheduler.dispatch fails) d.waiter
  rcases slack_dispatch h.phase h.orderly fails with hless | ⟨hsame, hslack⟩
  · simp only [remaining, dispatch]
    omega
  · simp only [remaining, dispatch, hsame]
    omega

theorem Phase.finish {waiter : List Chore} (h : Phase s waiter) (hs : s.Orderly n) {job : Job}
    (hjob : s.job? job.ticket = some job) (hruns : job.isFinished = false)
    (outcome : TaskOutcome) (poisoned : Bool) : Phase (s.finish job outcome poisoned) waiter := by
  cases h with
  | entering hsyncing => exact .entering hsyncing
  | leaving tickets hsyncing hjobs =>
      refine .leaving tickets hsyncing ?_
      intro found hfound
      rcases (Scheduler.mem_jobs_setStage _ _ _ _).mp hfound with ⟨old, hold, hset⟩
      have hticket : found.ticket = old.ticket := by
        rw [← hset]
        split <;> rfl
      rw [hticket]
      exact hjobs old hold
  | closing hsyncing hrest => exact .closing hsyncing hrest
  | done hsyncing hidle =>
      have hless := effort_finish hs.ticketed hjob hruns outcome poisoned
      omega

theorem Underway.finish (h : Underway n d) {job : Job}
    (hjob : d.scheduler.job? job.ticket = some job) (hruns : job.isFinished = false)
    (ending : Ending) :
    Phase (d.scheduler.finish job ending.outcome ending.poisons) d.waiter ∧
      remaining { d with
        scheduler := d.scheduler.finish job ending.outcome ending.poisons
        log := d.log ++ [.ended job ending]
        owed := d.owed + 1 } < remaining d := by
  refine ⟨h.phase.finish h.orderly hjob hruns _ _, ?_⟩
  have hless := effort_finish h.orderly.ticketed hjob hruns ending.outcome ending.poisons
  have hsmall := slack_le_one (d.scheduler.finish job ending.outcome ending.poisons) d.waiter
  simp only [remaining]
  omega

theorem ready_of_haveEnded (hs : s.Orderly n) (hn : 0 < n) {tickets : List Nat}
    (hjobs : forall job, job ∈ s.jobs -> job.ticket ∈ tickets)
    (hended : Crew.haveEnded s tickets = true) : effort s = 0 ∨ Ready s := by
  cases hlist : s.jobs with
  | nil =>
      cases hline : s.queue.toList with
      | nil => exact Or.inl (by simp [effort, running, hlist, hline])
      | cons task rest =>
          refine Or.inr (Or.inr ⟨by simp [hline], ?_⟩)
          rw [hlist, hs.capacity]
          exact hn
  | cons job rest =>
      have hmem : job ∈ s.jobs := by
        rw [hlist]
        exact List.mem_cons_self
      have hfinished : job.isFinished = true := by
        have hjob := List.all_eq_true.mp hended job hmem
        simpa [hjobs job hmem] using hjob
      exact Or.inr (Or.inl (List.ne_nil_of_mem (List.mem_filter.mpr ⟨hmem, hfinished⟩)))

theorem Underway.leave (h : Underway n d) (hn : 0 < n) {tickets : List Nat}
    (hwaiter : d.waiter = .leaveSync tickets :: Chore.round.tail) (hsyncing : d.scheduler.syncing = 1)
    (hjobs : forall job, job ∈ d.scheduler.jobs -> job.ticket ∈ tickets)
    (hended : Crew.haveEnded d.scheduler tickets = true) :
    Phase (Crew.leave d.scheduler)
        (Chore.afterSync (Crew.leave d.scheduler).mayDispatch ++ Chore.round.tail) ∧
      remaining { d with
        scheduler := Crew.leave d.scheduler
        waiter := Chore.afterSync (Crew.leave d.scheduler).mayDispatch ++ Chore.round.tail } <
        remaining d := by
  have hmay : (Crew.leave d.scheduler).mayDispatch = true := by
    simp [Scheduler.mayDispatch, Crew.leave, hsyncing, h.orderly.enabled]
  have heffort : effort (Crew.leave d.scheduler) = effort d.scheduler := rfl
  have hready : Ready (Crew.leave d.scheduler) ↔ Ready d.scheduler := Iff.rfl
  rw [hmay]
  refine ⟨.closing (by simp [Crew.leave, hsyncing]) (.sweep (.sweep .check)), ?_⟩
  simp only [remaining, hwaiter, heffort, slack, distance, hready, Chore.afterSync, Chore.round,
    List.tail_cons, if_true, List.cons_append, List.nil_append, List.length_cons, List.length_nil]
  rcases ready_of_haveEnded h.orderly hn hjobs hended with hzero | hsome
  · rw [if_pos hzero]
    split <;> omega
  · rw [if_pos hsome]
    omega

theorem slack_freeSlots (s : Scheduler) (rest : List Chore) :
    effort s.freeSlots < effort s ∨
      effort s.freeSlots = effort s ∧
        slack s.freeSlots (.dispatch :: rest) ≤ slack s (.dispatch :: rest) := by
  have hswept := effort_freeSlots s
  by_cases hfinished : s.jobs.filter Job.isFinished = []
  · rw [hfinished, List.length_nil, Nat.add_zero] at hswept
    refine Or.inr ⟨hswept.symm, ?_⟩
    have hlength := length_running_add_finished s
    rw [hfinished, List.length_nil] at hlength
    have hready : Ready s -> Ready s.freeSlots := by
      rintro (hsome | ⟨hline, hroom⟩)
      · exact absurd hfinished hsome
      · refine Or.inr ⟨hline, ?_⟩
        rw [(Scheduler.placed_freeSlots s).2]
        exact Nat.lt_of_le_of_lt (Nat.le_of_eq hlength) hroom
    simp only [slack]
    split
    · exact Nat.zero_le _
    · rename_i hnot
      exact Nat.le_of_eq (if_neg fun h => hnot (hready h)).symm
  · have hsome := List.length_pos_iff.mpr hfinished
    exact Or.inl (by omega)

theorem Underway.wait_check (h : Underway n d) (hwaiter : d.waiter = [.check])
    (hsyncing : d.scheduler.syncing = 0) (hperform : d.perform fails [] .check = some d') :
    Phase d'.scheduler d'.waiter ∧ remaining d' < remaining d := by
  cases hperform
  cases hidle : d.scheduler.isIdle with
  | true =>
      have hzero := (effort_eq_zero_iff h.orderly).mpr hidle
      refine ⟨.done hsyncing hzero, ?_⟩
      simp only [remaining, hwaiter, slack, distance, if_true, List.length_cons, List.length_nil]
      omega
  | false =>
      have hsome : effort d.scheduler ≠ 0 := by
        rw [ne_eq, effort_eq_zero_iff h.orderly, hidle]
        exact Bool.false_ne_true
      refine ⟨.entering hsyncing, ?_⟩
      simp only [remaining, hwaiter, slack, distance, Chore.round, if_neg hsome,
        Bool.false_eq_true, if_false, List.length_cons, List.length_nil]
      omega

theorem Underway.wait_dispatch (h : Underway n d) {rest : List Chore}
    (hwaiter : d.waiter = .dispatch :: rest) (hsyncing : d.scheduler.syncing = 0)
    (hrest : Closing rest) (hperform : d.perform fails rest .dispatch = some d') :
    Phase d'.scheduler d'.waiter ∧ remaining d' < remaining d := by
  cases hperform
  refine ⟨.closing ((syncing_dispatch _ fails).trans hsyncing) hrest, ?_⟩
  have hsmall := slack_le_one (d.scheduler.dispatch fails) rest
  have hless := effort_dispatch_le h.orderly fails
  have hbefore : distance (.dispatch :: rest) = rest.length + 1 := rfl
  have hafter : distance rest = rest.length := by cases hrest <;> rfl
  by_cases hready : Ready d.scheduler
  · have hstrict := effort_dispatch_lt h.orderly hready hsyncing fails
    simp only [remaining, dispatch, hwaiter, hbefore, hafter]
    omega
  · have hslack : slack d.scheduler (.dispatch :: rest) = 1 := by simp [slack, hready]
    simp only [remaining, dispatch, hwaiter, hbefore, hafter, hslack]
    omega

theorem wait_sweep {rest : List Chore} (hwaiter : d.waiter = .sweep :: .dispatch :: rest)
    (hsyncing : d.scheduler.syncing = 0) (hrest : Closing rest)
    (hperform : d.perform fails (.dispatch :: rest) .sweep = some d') :
    Phase d'.scheduler d'.waiter ∧ remaining d' < remaining d := by
  cases hperform
  refine ⟨.closing hsyncing (.dispatch hrest), ?_⟩
  have hsmall := slack_le_one d.scheduler.freeSlots (.dispatch :: rest)
  have hsame : slack d.scheduler (.sweep :: .dispatch :: rest) =
    slack d.scheduler (.dispatch :: rest) := rfl
  rcases slack_freeSlots d.scheduler rest with hless | ⟨heffort, hslack⟩
  · simp only [remaining, hwaiter, distance, List.length_cons]
    omega
  · simp only [remaining, hwaiter, distance, List.length_cons, heffort, hsame]
    omega

theorem Underway.wait (h : Underway n d) (hn : 0 < n) {chore : Chore} {rest : List Chore}
    (hwaiter : d.waiter = chore :: rest) (hperform : d.perform fails rest chore = some d') :
    Phase d'.scheduler d'.waiter ∧ remaining d' < remaining d := by
  have hphase := h.phase
  rw [hwaiter] at hphase
  cases hphase with
  | entering hsyncing =>
      cases hperform
      refine ⟨.leaving _ (by rw [hsyncing]) fun job hjob => List.mem_map_of_mem hjob, ?_⟩
      have heffort : effort { d.scheduler with syncing := d.scheduler.syncing + 1 } =
        effort d.scheduler := rfl
      simp only [remaining, hwaiter, heffort, slack, distance]
      omega
  | leaving tickets hsyncing hjobs =>
      simp only [perform] at hperform
      split at hperform
      · rename_i hended
        cases hperform
        exact h.leave hn hwaiter hsyncing hjobs hended
      · cases hperform
  | closing hsyncing hrest =>
      cases hrest with
      | check => exact h.wait_check hwaiter hsyncing hperform
      | dispatch hrest => exact h.wait_dispatch hwaiter hsyncing hrest hperform
      | sweep hrest => exact wait_sweep hwaiter hsyncing hrest hperform

theorem Underway.turn (h : Underway n d) (hn : 0 < n) {turn : Turn}
    (hturn : d.turn? fails turn = some d') : Underway n d' ∧ remaining d' < remaining d := by
  have horderly : d'.scheduler.Orderly n :=
    (Steps.induction (P := fun _ => True) (fun _ _ _ => trivial) (turn_steps h.orderly hturn)
      h.orderly trivial).1
  have hnext : Phase d'.scheduler d'.waiter ∧ remaining d' < remaining d := by
    cases turn with
    | wait =>
        simp only [turn?] at hturn
        split at hturn
        · cases hturn
        · rename_i chore rest hwaiter
          exact h.wait hn hwaiter hturn
    | handOut =>
        simp only [turn?] at hturn
        split at hturn
        · cases hturn
        · rename_i howed
          cases hturn
          exact h.handOut howed
    | finish ticket ending =>
        simp only [turn?] at hturn
        split at hturn
        · rename_i job hjob
          split at hturn
          · cases hturn
          · rename_i hruns
            cases hturn
            have hticket := (Scheduler.mem_of_job? hjob).2
            rw [← hticket] at hjob
            exact h.finish hjob (by simpa using hruns) ending
        · cases hturn
  exact ⟨⟨horderly, hnext.1⟩, hnext.2⟩

/-!
# Whole runs
-/

theorem run_induction {P : Ledger -> Prop}
    (hstep : forall {l m : Ledger}, l.1.Orderly n -> Step fails l m -> P l -> P m) (hn : 0 < n)
    {turns : List Turn} (hd : Underway n d) (hP : P (d.scheduler, d.log))
    (hrun : run? fails d turns = some d') :
    Underway n d' ∧ P (d'.scheduler, d'.log) ∧ remaining d' + turns.length ≤ remaining d := by
  induction turns generalizing d with
  | nil =>
      cases hrun
      exact ⟨hd, hP, Nat.le_refl _⟩
  | cons turn rest ih =>
      rw [run?, List.foldlM_cons] at hrun
      rcases Option.bind_eq_some_iff.mp hrun with ⟨next, hturn, hrest⟩
      rcases hd.turn hn hturn with ⟨hnext, hless⟩
      have hkept := (Steps.induction hstep (turn_steps hd.orderly hturn) hd.orderly hP).2
      rcases ih hnext hkept hrest with ⟨hlast, hP', hle⟩
      refine ⟨hlast, hP', ?_⟩
      rw [List.length_cons]
      omega

theorem goes_on (fails : Nat -> Option Failure) (hwaiter : d.waiter ≠ []) :
    (d.turn? fails .wait).isSome = true ∨ running d.scheduler ≠ [] := by
  cases hrest : d.waiter with
  | nil => exact absurd hrest hwaiter
  | cons chore rest =>
      cases hchore : chore with
      | leaveSync tickets =>
          cases hended : Crew.haveEnded d.scheduler tickets with
          | true => exact Or.inl (by simp [turn?, hrest, hchore, perform, hended])
          | false =>
              refine Or.inr fun hnone => ?_
              have hall : Crew.haveEnded d.scheduler tickets = true := by
                rw [Crew.haveEnded, List.all_eq_true]
                intro job hjob
                have hfinished := List.filter_eq_nil_iff.mp hnone job hjob
                simp_all
              rw [hall] at hended
              cases hended
      | enterSync => exact Or.inl (by simp [turn?, hrest, hchore, perform])
      | sweep => exact Or.inl (by simp [turn?, hrest, hchore, perform])
      | dispatch => exact Or.inl (by simp [turn?, hrest, hchore, perform])
      | check => exact Or.inl (by simp [turn?, hrest, hchore, perform])

theorem Underway.may_finish (h : Underway n d) {job : Job} (hjob : job ∈ running d.scheduler)
    (ending : Ending) : (d.turn? fails (.finish job.ticket ending)).isSome = true := by
  rcases List.mem_filter.mp hjob with ⟨hmem, hruns⟩
  have hfound : d.scheduler.job? job.ticket = some job := by
    cases hfind : d.scheduler.job? job.ticket with
    | none =>
        have hnone := List.find?_eq_none.mp hfind job hmem
        simp at hnone
    | some found =>
        rcases Scheduler.mem_of_job? hfind with ⟨hfoundMem, hticket⟩
        rw [h.orderly.ticketed.eq_of_ticket_eq hfoundMem hmem hticket]
  have hnot : job.isFinished = false := by simpa using hruns
  simp [turn?, hfound, hnot]

/-!
# The account of a drain
-/

/--
The one thing that became of a task: a worker ended it, or it was given up after four
constructions for its file of which none succeeded.
-/
inductive Outcome (s : Scheduler) (log : List Entry) (task : Task) : Prop where
  | ran (job : Job) (ending : Ending) (htask : job.task = task)
      (hends : endsOf log task.file = [(job, ending)])
      (hreports : reportsOn s task.file = [⟨task.file, task.part, ending.outcome⟩])
  | unavailable (message : String) (hends : endsOf log task.file = [])
      (hfailed : constructionsFor log task.file = [none, none, none, none])
      (hreports : reportsOn s task.file =
        [⟨task.file, task.part, .collectorUnavailable message⟩])

/-- A drain of some tasks is over, and each of them is accounted for. -/
structure Settled (tasks : List Task) (d : Drain) : Prop where
  queue : d.scheduler.queue.isEmpty = true
  jobs : d.scheduler.jobs = []
  collectors : d.scheduler.collectors.pool.available = d.scheduler.capacity
  outcomes : forall task, task ∈ tasks -> Outcome d.scheduler d.log task
  others : forall report, report ∈ d.scheduler.reports ->
    exists task, task ∈ tasks ∧ task.file = report.file
  dispatched : d.scheduler.counters.dispatched = (ends d.log).length
  counted : d.scheduler.counters.indexed + d.scheduler.counters.unchanged +
    d.scheduler.counters.stale + d.scheduler.counters.failed = tasks.length

/-- What holds of the ledger of a drain of the tasks of `queue` at every moment. -/
structure Accounted (queue : TaskQueue) (l : Ledger) : Prop where
  intact : Intact l.1.collectors l.1.jobs (broken l.2)
  tallied : Tallied queue.toList.length l.1 l.2
  accounts : forall file, Account (queue.get? file) file l.1 l.2

theorem accounted_enqueue (n : Nat) (tasks : List Task) :
    Accounted ((Scheduler.ofCapacity n).enqueue tasks).queue
      ((Scheduler.ofCapacity n).enqueue tasks, []) where
  intact := intact_ofCapacity n
  tallied := ⟨rfl, rfl, rfl⟩
  accounts := by
    intro file
    cases hget : ((Scheduler.ofCapacity n).enqueue tasks).queue.get? file with
    | none => exact .none rfl hget (by simp [Scheduler.enqueue, Scheduler.ofCapacity]) rfl
    | some task =>
        exact .inLine task rfl hget (by simp [Scheduler.enqueue, Scheduler.ofCapacity]) rfl rfl rfl

theorem Accounted.step {queue : TaskQueue} (hl : l.1.Orderly n) (hstep : Step fails l m)
    (h : Accounted queue l) : Accounted queue m where
  intact := h.intact.step hl hstep
  tallied := h.tallied.step hl hstep
  accounts := fun file => (h.accounts file).step hl hstep

theorem Accounted.outcome {queue : TaskQueue} {task : Task} (h : Accounted queue l)
    (hjobs : l.1.jobs = []) (hempty : l.1.queue.isEmpty = true)
    (hqueued : queue.get? task.file = some task) : Outcome l.1 l.2 task := by
  have haccount := h.accounts task.file
  rw [hqueued] at haccount
  cases haccount with
  | none hqueued => cases hqueued
  | inLine other hqueued hinLine =>
      rw [(TaskQueue.isEmpty_iff _).mp hempty] at hinLine
      cases hinLine
  | runs job hqueued htaken hfile hjob =>
      rw [hjobs] at hjob
      cases hjob
  | ended job ending hqueued htaken hothers hreports hends =>
      cases hqueued
      exact .ran job ending rfl hends hreports
  | givenUp other message hqueued htaken hothers hreports hends hfailed =>
      cases hqueued
      exact .unavailable message hends hfailed hreports

theorem Accounted.queued_of_report {queue : TaskQueue} (h : Accounted queue l)
    {report : TaskReport} (hreport : report ∈ l.1.reports) :
    exists task, queue.get? report.file = some task := by
  have hsome : report ∈ reportsOn l.1 report.file :=
    List.mem_filter.mpr ⟨hreport, by simp⟩
  cases h.accounts report.file with
  | none hqueued htaken hothers hreports =>
      rw [hreports] at hsome
      cases hsome
  | inLine task hqueued => exact ⟨task, hqueued⟩
  | runs job hqueued => exact ⟨job.task, hqueued⟩
  | ended job ending hqueued => exact ⟨job.task, hqueued⟩
  | givenUp task message hqueued => exact ⟨task, hqueued⟩

theorem Underway.idle (h : Underway n d) (hwaiter : d.waiter = []) :
    d.scheduler.jobs = [] ∧ d.scheduler.queue.isEmpty = true := by
  have hphase := h.phase
  rw [hwaiter] at hphase
  have hidle : d.scheduler.isIdle = true := by
    cases hphase with
    | closing hsyncing hrest => cases hrest
    | done hsyncing hzero => exact (effort_eq_zero_iff h.orderly).mp hzero
  rw [Scheduler.isIdle, h.orderly.enabled, Bool.not_true, Bool.false_or, Bool.and_eq_true,
    List.isEmpty_iff] at hidle
  exact hidle

theorem Underway.settled (h : Underway n d) {queue : TaskQueue} (hqueue : queue.Sound)
    (haccounted : Accounted queue (d.scheduler, d.log)) (hwaiter : d.waiter = []) :
    Settled queue.toList d := by
  rcases h.idle hwaiter with ⟨hjobs, hempty⟩
  have hline := (h.orderly.queue.isEmpty_iff_toList).mp hempty
  have hruns : running d.scheduler = [] := by simp [running, hjobs]
  have htasks := haccounted.tallied.tasks
  have hdispatched := haccounted.tallied.dispatched
  have houtcomes := haccounted.tallied.outcomes
  simp only [hline, hruns, List.length_nil, Nat.zero_add, Nat.add_zero] at htasks hdispatched
  refine
    { queue := hempty
      jobs := hjobs
      collectors := ?_
      outcomes := ?_
      others := ?_
      dispatched := hdispatched
      counted := houtcomes.trans htasks }
  · have hall := h.orderly.available_add_pending
    rw [Scheduler.pending, hjobs, List.length_nil, Nat.add_zero] at hall
    exact hall.trans h.orderly.capacity.symm
  · intro task htask
    exact haccounted.outcome hjobs hempty ((hqueue.mem_toList_iff task).mp htask)
  · intro report hreport
    rcases haccounted.queued_of_report hreport with ⟨task, hget⟩
    have hkey := hqueue.keyed report.file task hget
    exact ⟨task, (hqueue.mem_toList_iff task).mpr (by rw [hkey]; exact hget), hkey⟩

theorem remaining_start_le (n : Nat) (tasks : List Task) (owed : Nat) :
    remaining (start ((Scheduler.ofCapacity n).enqueue tasks) owed) ≤
      96 * ((Scheduler.ofCapacity n).enqueue tasks).queue.toList.length + 15 + owed := by
  have hsmall := slack_le_one ((Scheduler.ofCapacity n).enqueue tasks) Chore.round
  have hweights : ((Scheduler.ofCapacity n).enqueue tasks).queue.toList.map (fun task =>
        attemptsLeft ((Scheduler.ofCapacity n).enqueue tasks) task.file + 2) =
      ((Scheduler.ofCapacity n).enqueue tasks).queue.toList.map fun _ => 6 := rfl
  have heffort : effort ((Scheduler.ofCapacity n).enqueue tasks) =
      ((Scheduler.ofCapacity n).enqueue tasks).queue.toList.length * 6 := by
    rw [effort, hweights, List.map_const', List.sum_replicate_nat]
    rfl
  simp only [remaining, start, heffort, distance, Chore.round] at hsmall ⊢
  omega

/--
A drain ends and accounts for every task once, from any tasks in line, whatever
constructions of collectors fail, however the jobs end and whoever else hands out. There
are only so many turns in a run, and as long as the waiter is not done it can go on or a
job runs, which can end in any way. No more jobs run than the pool has slots, and none
on a collector on which a task panicked.
-/
theorem drain_settles {fails : Nat -> Option Failure} {n : Nat} {tasks : List Task} {owed : Nat}
    {turns : List Turn} {d : Drain}
    (hrun : run? fails (start ((Scheduler.ofCapacity n).enqueue tasks) owed) turns = some d) :
    turns.length ≤
        96 * ((Scheduler.ofCapacity n).enqueue tasks).queue.toList.length + 15 + owed ∧
      (d.waiter ≠ [] -> (d.turn? fails .wait).isSome = true ∨ running d.scheduler ≠ []) ∧
      (forall job, job ∈ running d.scheduler ->
        (forall ending, (d.turn? fails (.finish job.ticket ending)).isSome = true) ∧
          job.collector.thing ∉ broken d.log) ∧
      (running d.scheduler).length ≤ d.scheduler.capacity ∧
      (d.waiter = [] -> Settled ((Scheduler.ofCapacity n).enqueue tasks).queue.toList d) := by
  have horderly := Scheduler.orderly_enqueue n tasks
  rcases run_induction (P := Accounted ((Scheduler.ofCapacity n).enqueue tasks).queue)
    (fun hl hstep h => h.step hl hstep) (by omega) (underway_start horderly rfl owed)
    (accounted_enqueue n tasks) hrun with ⟨hunderway, haccounted, hlength⟩
  have hbound := remaining_start_le n tasks owed
  refine ⟨by omega, goes_on fails, ?_, ?_, ?_⟩
  · intro job hjob
    rcases List.mem_filter.mp hjob with ⟨hmem, hruns⟩
    exact ⟨hunderway.may_finish hjob, haccounted.intact.runs_whole hmem (by simpa using hruns)⟩
  · have hall := hunderway.orderly.available_add_pending
    have hfewer := length_running_add_finished d.scheduler
    rw [Scheduler.pending, ← hunderway.orderly.capacity] at hall
    omega
  · exact hunderway.settled horderly.queue haccounted

/-- Two tasks in line and one slot; the second construction is the only one that succeeds. -/
def scarceStart : Drain :=
  start ((Scheduler.ofCapacity 1).enqueue [⟨⟨1⟩, ⟨"part"⟩, []⟩, ⟨⟨2⟩, ⟨"part"⟩, []⟩]) 0

def scarceFails (attempt : Nat) : Option Failure :=
  if attempt = 1 then none else some (.storage .foreignKey)

/-- The first task goes to the end of the line, the second one panics, the first one is given up. -/
def scarceTurns : List Turn :=
  [.wait, .wait, .wait, .wait, .wait, .wait, .finish 0 (.panicked "broken"), .handOut, .wait,
    .wait, .wait, .wait, .wait, .wait, .wait, .wait]

theorem scarceTurns_settle :
    exists d, run? scarceFails scarceStart scarceTurns = some d ∧ d.waiter = [] ∧
      Settled [⟨⟨1⟩, ⟨"part"⟩, []⟩, ⟨⟨2⟩, ⟨"part"⟩, []⟩] d ∧
      constructionsFor d.log ⟨1⟩ = [none, none, none, none] ∧
      constructionsFor d.log ⟨2⟩ = [some 1] := by
  refine ⟨_, rfl, by decide, ?_, by decide, by decide⟩
  have hdrain := @drain_settles scarceFails 1 [⟨⟨1⟩, ⟨"part"⟩, []⟩, ⟨⟨2⟩, ⟨"part"⟩, []⟩] 0
    scarceTurns _ rfl
  exact hdrain.2.2.2.2 (by decide)

end Drain
end SymbolIndex
