import SymbolIndex.Proofs.Engine.Attention

/-!
# Until nothing is left to do

An engine that is left to itself takes its steps in one fixed order until nothing waits
and nothing runs. Each of these steps is an event of a history, so that whatever a history
of such events keeps is kept by the engine on its own. Besides what a drain leaves alone,
it touches no file that nobody owns: tasks are queued and handed out for owned files only,
and a notification that files were removed is heeded for those that are owned.
-/

namespace SymbolIndex
namespace Engine

variable {s : Surroundings} {d : Disk} {env : Environment} {e e' e'' : Engine}

/-!
# The steps as a history
-/

/-- Workers that go on and notifications that are handled lead from one engine to another. -/
def Leads (s : Surroundings) (d : Disk) (e e' : Engine) : Prop :=
  exists drain, (forall event, event ∈ drain -> World.isSettling event = true) ∧
    World.run s ⟨d, e⟩ drain = ⟨d, e'⟩

theorem Leads.refl (s : Surroundings) (d : Disk) (e : Engine) : Leads s d e e :=
  ⟨[], fun _ hevent => absurd hevent List.not_mem_nil, rfl⟩

theorem Leads.trans (h : Leads s d e e') (h' : Leads s d e' e'') : Leads s d e e'' := by
  rcases h with ⟨drain, hdrain, hrun⟩
  rcases h' with ⟨more, hmore, hrun'⟩
  refine ⟨drain ++ more, ?_, ?_⟩
  · intro event hevent
    rcases List.mem_append.mp hevent with hfirst | hlater
    · exact hdrain event hfirst
    · exact hmore event hlater
  · rw [World.run, List.foldl_append]
    exact (congrArg (fun w => World.run s w more) hrun).trans hrun'

theorem leads_of_event (event : Event) (hevent : World.isSettling event = true)
    (hhappen : World.happen s ⟨d, e⟩ event = ⟨d, e'⟩) : Leads s d e e' := by
  refine ⟨[event], ?_, hhappen⟩
  intro other hother
  rw [List.mem_singleton.mp hother]
  exact hevent

theorem leads_stepTicket (s : Surroundings) (d : Disk) (e : Engine) (ticket : Nat) :
    Leads s d e (stepTicket (s.environment d) e ticket) :=
  leads_of_event (.work ticket) rfl rfl

theorem leads_dispatch (s : Surroundings) (d : Disk) (e : Engine) :
    Leads s d e (dispatch (s.environment d) e) :=
  leads_of_event .dispatch rfl rfl

theorem leads_receive (s : Surroundings) (d : Disk) (e : Engine) :
    Leads s d e (World.receive (s.environment d) e) :=
  leads_of_event .receive rfl rfl

theorem leads_runJob (s : Surroundings) (d : Disk) (e : Engine) (ticket : Nat) :
    Leads s d e (runJob (s.environment d) e ticket) :=
  ((leads_stepTicket s d e ticket).trans (leads_stepTicket s d _ ticket)).trans
    (leads_stepTicket s d _ ticket)

theorem leads_runJobs (s : Surroundings) (d : Disk) (fuel : Nat) (e : Engine) :
    Leads s d e (runJobs (s.environment d) fuel e) := by
  induction fuel generalizing e with
  | zero => exact Leads.refl s d e
  | succ fuel ih =>
      rw [runJobs]
      cases e.scheduler.unfinished? with
      | none => exact Leads.refl s d e
      | some job =>
          exact ((leads_runJob s d e job.ticket).trans (leads_dispatch s d _)).trans (ih _)

theorem leads_drainFrom (s : Surroundings) (d : Disk) (fuel : Nat) (e : Engine) :
    Leads s d e (drainFrom (s.environment d) fuel e) := by
  induction fuel generalizing e with
  | zero => exact Leads.refl s d e
  | succ fuel ih =>
      have hround : Leads s d e (dispatch (s.environment d) (settle (s.environment d) e)) :=
        (leads_runJobs s d e.rounds e).trans (leads_dispatch s d _)
      rw [drainFrom]
      split
      · exact hround
      · exact hround.trans (ih _)

theorem leads_drain (s : Surroundings) (d : Disk) (e : Engine) :
    Leads s d e (drain (s.environment d) e) := leads_drainFrom s d e.rounds e

theorem leads_deliverFrom (d : Disk) {meanwhile : Engine -> Engine}
    (hmeanwhile : forall e, Leads s d e (meanwhile e)) (fuel : Nat) (e : Engine) :
    Leads s d e (deliverFrom (s.environment d) meanwhile fuel e).2 := by
  induction fuel generalizing e with
  | zero => exact Leads.refl s d e
  | succ fuel ih =>
      have hreceive := leads_receive s d e
      rw [World.receive] at hreceive
      rw [deliverFrom]
      cases hnext : e.watcher.receive with
      | none => exact Leads.refl s d e
      | some next =>
          rw [hnext] at hreceive
          exact (hreceive.trans (hmeanwhile _)).trans (ih _)

theorem leads_quiesce (s : Surroundings) (d : Disk) (e : Engine) :
    Leads s d e (quiesce (s.environment d) e).2 :=
  (leads_drain s d e).trans (leads_deliverFrom d (leads_drain s d) _ _)

/-!
# Files that nobody owns
-/

/-- A drain that changes no owner, and nothing that is recorded of files nobody owns. -/
structure Minding (e e' : Engine) : Prop extends Draining e e' where
  owners : e'.owners = e.owners
  records : forall file, e.ownerOf file = none ->
    e'.storage.store.statuses.get? file = e.storage.store.statuses.get? file ∧
      e'.storage.store.recordsAt file = e.storage.store.recordsAt file

theorem Minding.refl (h : e.Agrees) : Minding e e where
  toDraining := .refl h
  owners := rfl
  records := fun _ _ => ⟨rfl, rfl⟩

theorem Minding.trans (h : Minding e e') (h' : Minding e' e'') : Minding e e'' where
  toDraining := h.toDraining.trans h'.toDraining
  owners := h'.owners.trans h.owners
  records := by
    intro file hfile
    rcases h.records file hfile with ⟨hstatus, hrecords⟩
    have hfile' : e'.ownerOf file = none := by
      rw [ownerOf, h.owners]
      exact hfile
    rcases h'.records file hfile' with ⟨hstatus', hrecords'⟩
    exact ⟨hstatus'.trans hstatus, hrecords'.trans hrecords⟩

/-- The workers have tasks of owned files, and what was announced lets no file go. -/
structure Tended (e : Engine) : Prop where
  agrees : e.Agrees
  handed : forall task, task ∈ e.scheduler.jobs.map Job.task ->
    exists part, e.ownerOf task.file = some part
  harmless : e.Harmless

theorem Harmless.of_draining (h : e.Harmless) (hdraining : Draining e e')
    (howners : e'.owners = e.owners) : e'.Harmless := by
  rcases hdraining.watcher with ⟨outbox, hwatcher, houtbox⟩
  intro change hchange
  rw [hwatcher] at hchange
  rcases h change (houtbox change hchange) with ⟨files, hremoved, hfiles⟩
  refine ⟨files, hremoved, ?_⟩
  intro file hfile howned
  rw [isOwned, howners] at howned
  rw [hdraining.isUnwatchable]
  exact hfiles file hfile howned

theorem Tended.of_minding (h : e.Tended) (hminding : Minding e e')
    (hhanded : forall task, task ∈ e'.scheduler.jobs.map Job.task ->
      exists part, e.ownerOf task.file = some part) : e'.Tended where
  agrees := hminding.agrees
  handed := by
    rw [show e'.ownerOf = e.ownerOf from congrArg Table.get? hminding.owners]
    exact hhanded
  harmless := h.harmless.of_draining hminding.toDraining hminding.owners

theorem Tended.minding_worked (h : e.Tended) {ticket : Nat} (hworked : Worked env e ticket e')
    (hagrees : e'.Agrees) : Minding e e' where
  toDraining := h.agrees.draining_worked hworked hagrees
  owners := (hworked.calm h.agrees).owners
  records := by
    intro file hfile
    cases hworked with
    | idle hidle => exact ⟨rfl, rfl⟩
    | begins job p status hjob hstage hpath hstatus halike =>
        rw [halike.storage]
        exact ⟨rfl, rfl⟩
    | collects job p status r hjob hstage hanswer halike =>
        rw [halike.storage]
        exact ⟨rfl, rfl⟩
    | fails job outcome poisoned hjob hfailure halike =>
        rw [halike.storage]
        exact ⟨rfl, rfl⟩
    | lands job status r outcome wrote t hjob hstage hok =>
        rcases h.handed job.task (List.mem_map_of_mem (Scheduler.mem_of_job? hjob).1) with
          ⟨part, howner⟩
        have hother : file ≠ job.task.file := by
          rintro rfl
          rw [hfile] at howner
          cases howner
        exact (h.agrees.store.linked.frame_applyResults hok).2.2.2 file hother

theorem Worked.tasks {ticket : Nat} (h : Worked env e ticket e') :
    e'.scheduler.jobs.map Job.task = e.scheduler.jobs.map Job.task := by
  cases h with
  | idle hidle => rfl
  | begins job p status hjob hstage hpath hstatus halike =>
      rw [halike.scheduler]
      exact Scheduler.map_setStage Job.task (fun _ _ => rfl) _ _ _
  | collects job p status r hjob hstage hanswer halike =>
      rw [halike.scheduler]
      exact Scheduler.map_setStage Job.task (fun _ _ => rfl) _ _ _
  | fails job outcome poisoned hjob hfailure halike =>
      rw [halike.scheduler]
      exact Scheduler.map_setStage Job.task (fun _ _ => rfl) _ _ _
  | lands job status r outcome wrote t hjob hstage hok =>
      exact Scheduler.map_setStage Job.task (fun _ _ => rfl) _ _ _

theorem Tended.stepTicket (h : e.Tended) (env : Environment) (ticket : Nat) :
    Minding e (Engine.stepTicket env e ticket) ∧ (Engine.stepTicket env e ticket).Tended := by
  have hworked := worked_stepTicket env e ticket
  have hminding := h.minding_worked hworked (h.agrees.stepTicket ticket)
  refine ⟨hminding, h.of_minding hminding ?_⟩
  rw [hworked.tasks]
  exact h.handed

theorem Tended.sweep (h : e.Tended) :
    Minding e { e with scheduler := e.scheduler.freeSlots } ∧
      ({ e with scheduler := e.scheduler.freeSlots } : Engine).Tended := by
  have hminding : Minding e { e with scheduler := e.scheduler.freeSlots } :=
    ⟨h.agrees.draining_sweep, rfl, fun _ _ => ⟨rfl, rfl⟩⟩
  refine ⟨hminding, h.of_minding hminding ?_⟩
  intro task htask
  rcases List.mem_map.mp htask with ⟨job, hjob, rfl⟩
  exact h.handed job.task (List.mem_map_of_mem (List.mem_of_mem_filter hjob))

theorem Tended.dispatch (h : e.Tended) (env : Environment) :
    Minding e (Engine.dispatch env e) ∧ (Engine.dispatch env e).Tended := by
  have hminding : Minding e (Engine.dispatch env e) :=
    ⟨h.agrees.draining_dispatch env, rfl, fun _ _ => ⟨rfl, rfl⟩⟩
  refine ⟨hminding, h.of_minding hminding ?_⟩
  rcases Scheduler.exists_dispatched h.agrees.queue env.fails with ⟨handed, hlaunched⟩
  intro task htask
  rcases List.mem_map.mp htask with ⟨job, hjob, rfl⟩
  rw [Engine.dispatch, hlaunched.jobs] at hjob
  rcases List.mem_append.mp hjob with hold | hnew
  · exact h.handed job.task (List.mem_map_of_mem (List.mem_of_mem_filter hold))
  · -- a job that was handed out has the task that was queued for its file
    cases hlaunched.fates job.task.file with
    | stays hsame hnone => exact absurd rfl (hnone job hnew)
    | runs found hfound hfile hqueued htaken honly => exact h.agrees.pending _ _ hqueued
    | givenUp task hqueued htaken hnone hreport => exact absurd rfl (hnone job hnew)

theorem Tended.receive (h : e.Tended) (env : Environment) :
    Minding e (World.receive env e) ∧ (World.receive env e).Tended := by
  have hdraining := h.agrees.draining_receive h.harmless env
  rcases h.harmless.receive_eq env with ⟨outbox, files, -, howned, heq⟩
  have hwatched := h.agrees.with_watcher { e.watcher with outbox }
  rcases hwatched.detach files with ⟨hdetached, -⟩
  rcases scheduler_detach { e with watcher := { e.watcher with outbox } } files with
    ⟨queue, hscheduler, -⟩
  rw [heq] at hdraining ⊢
  have hminding : Minding e
      (({ e with watcher := { e.watcher with outbox } } : Engine).detach files) := by
    refine ⟨hdraining, hdetached.owners, ?_⟩
    intro file hfile
    have hstays : file ∉ files := by
      intro hmem
      have hcontains := (howned file hmem).1
      rw [isOwned, Table.contains_iff] at hcontains
      rcases hcontains with ⟨part, howner⟩
      rw [ownerOf, howner] at hfile
      cases hfile
    exact ⟨by rw [hdetached.statuses, if_neg hstays], hdetached.records file hstays⟩
  refine ⟨hminding, h.of_minding hminding ?_⟩
  rw [hscheduler]
  exact h.handed

end Engine

namespace World

open Engine

variable {s : Surroundings} {w : World}

theorem tended_happen (h : w.engine.Tended) {event : Event} (hevent : isSettling event = true) :
    Minding w.engine (happen s w event).engine ∧ (happen s w event).engine.Tended := by
  cases event with
  | work ticket => exact h.stepTicket _ ticket
  | dispatch => exact h.dispatch _
  | sweep => exact h.sweep
  | receive => exact h.receive _
  | _ => cases hevent

theorem tended_run (h : w.engine.Tended) {drain : List Event}
    (hdrain : forall event, event ∈ drain -> isSettling event = true) :
    Minding w.engine (run s w drain).engine ∧ (run s w drain).engine.Tended := by
  induction drain generalizing w with
  | nil => exact ⟨Minding.refl h.agrees, h⟩
  | cons event rest ih =>
      rcases tended_happen (s := s) h (hdrain event List.mem_cons_self) with ⟨hone, htended⟩
      rcases ih htended (fun next hnext => hdrain next (List.mem_cons_of_mem _ hnext)) with
        ⟨hrest, hdone⟩
      exact ⟨hone.trans hrest, hdone⟩

end World

namespace Engine

theorem Tended.quiesce {e : Engine} (h : e.Tended) (s : Surroundings) (d : Disk) :
    Minding e (Engine.quiesce (s.environment d) e).2 := by
  rcases leads_quiesce s d e with ⟨drain, hdrain, hrun⟩
  have hminding := (World.tended_run (w := ⟨d, e⟩) h hdrain (s := s)).1
  rw [hrun] at hminding
  exact hminding

end Engine
end SymbolIndex
