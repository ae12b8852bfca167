import SymbolIndex.Proofs.Engine.Reachability
import SymbolIndex.Proofs.Engine.Working

/-!
# What events do to the scheduler

Calls change the queue of the scheduler and may have tasks handed out, workers move
their jobs on and end them. What each of these few steps keeps is kept by every event,
so that it need not be followed through the calls: that reports are never taken back,
and that tickets ascend.
-/

namespace SymbolIndex
namespace Engine

/-- What is kept when the queue changes and when tasks are handed out. -/
structure KeptByCalls (fails : Nat -> Option Failure) (P : Scheduler -> Prop) : Prop where
  queue : forall s queue, P s -> P { s with queue }
  dispatch : forall s, s.queue.Sound -> P s -> P (s.dispatch fails)

namespace KeptByCalls

variable {env : Environment} {P : Scheduler -> Prop} {e e' : Engine}

theorem of_queue {fails : Nat -> Option Failure} (hkept : KeptByCalls fails P)
    (hscheduler : exists queue, e'.scheduler = { e.scheduler with queue })
    (h : P e.scheduler) : P e'.scheduler := by
  rcases hscheduler with ⟨queue, hqueue⟩
  rw [hqueue]
  exact hkept.queue _ queue h

theorem retire {fails : Nat -> Option Failure} (hkept : KeptByCalls fails P)
    (h : P e.scheduler) (files : List FileId) : P (e.retire files).scheduler := by
  rcases scheduler_retire e files with ⟨queue, hscheduler, -⟩
  exact hkept.of_queue ⟨queue, hscheduler⟩ h

theorem detach {fails : Nat -> Option Failure} (hkept : KeptByCalls fails P)
    (h : P e.scheduler) (files : List FileId) : P (e.detach files).scheduler := by
  rcases scheduler_detach e files with ⟨queue, hscheduler, -⟩
  exact hkept.of_queue ⟨queue, hscheduler⟩ h

theorem removeParts {fails : Nat -> Option Failure} (hkept : KeptByCalls fails P)
    (h : P e.scheduler) (ids : List PartId) : P (e.removeParts ids).2.scheduler := by
  induction ids generalizing e with
  | nil => exact h
  | cons id rest ih =>
      rw [Engine.removeParts]
      cases e.filesOf id with
      | error failure => exact h
      | ok files =>
          apply ih
          exact hkept.retire h (files.filter (e.isFreeFor id))

theorem updateParts (hkept : KeptByCalls env.fails P) (hagrees : e.Agrees)
    (h : P e.scheduler) (parts : List Part) : P (Engine.updateParts env e parts).2.scheduler := by
  rcases hagrees.prepare ∅ parts with ⟨hprepared, hinterned, haccepted, -⟩
  have happlied : P (Engine.applyParts env (Engine.prepare ∅ e parts).2
      (Engine.prepare ∅ e parts).1.1).2.scheduler := by
    apply hkept.of_queue (hprepared.scheduler_applyParts env haccepted.sourced)
    rw [hinterned.scheduler]
    exact h
  unfold Engine.updateParts
  dsimp only
  split
  · exact hkept.dispatch _ (hprepared.applyParts env haccepted.sourced).queue happlied
  · exact happlied

theorem handleChanged (hkept : KeptByCalls env.fails P) (hagrees : e.Agrees)
    (h : P e.scheduler) (files : List FileId) :
    P (Engine.handleChanged env e files).2.scheduler := by
  have hlooked : Alike e (files.foldl (look env) e) := alike_foldl (alike_look env) e files
  have hseen := hlooked.trans (candidates_spec env false (files.foldl (look env) e)
    (files.filter (files.foldl (look env) e).isOwned)).2
  have hqueued : P ((candidates env false (files.foldl (look env) e)
      (files.filter (files.foldl (look env) e).isOwned)).2.reindex (candidates env false
        (files.foldl (look env) e)
        (files.filter (files.foldl (look env) e).isOwned)).1).2.scheduler :=
    hkept.of_queue ⟨_, by rw [← hseen.scheduler]; rfl⟩ h
  unfold Engine.handleChanged
  dsimp only
  split
  · exact hkept.dispatch _ ((hagrees.of_alike hseen).reindex _).queue hqueued
  · exact hqueued

theorem handleChange (hkept : KeptByCalls env.fails P) (hagrees : e.Agrees)
    (h : P e.scheduler) (change : PathChange) :
    P (Engine.handleChange env e change).2.scheduler := by
  cases change with
  | changed files => exact hkept.handleChanged hagrees h files
  | removed files => exact hkept.retire (hkept.detach h _) _

end KeptByCalls

variable {e : Engine}

theorem Agrees.scheduler_setContents (h : e.Agrees) (files : List (Path × String)) :
    (e.setContents files).2.scheduler = e.scheduler := by
  induction files generalizing e with
  | nil => rfl
  | cons f rest ih =>
      rcases f with ⟨p, content⟩
      rcases h.intern p with ⟨hagrees, hinterned, -⟩
      exact (ih (hagrees.with_overlay _)).trans hinterned.scheduler

theorem Agrees.scheduler_dropContents (h : e.Agrees) (d : Disk) (paths : List Path) :
    (Engine.dropContents d e paths).2.scheduler = e.scheduler := by
  induction paths generalizing e with
  | nil => rfl
  | cons p rest ih =>
      rw [Engine.dropContents]
      split
      · rcases (h.with_overlay (e.overlay.erase p)).intern p with ⟨hagrees, hinterned, -⟩
        exact (ih hagrees).trans hinterned.scheduler
      · exact ih h

namespace KeptByCalls

variable {env : Environment} {P : Scheduler -> Prop}

theorem updateGenerated (hkept : KeptByCalls env.fails P) (hagrees : e.Agrees)
    (h : P e.scheduler) (files : List (Path × String)) :
    P (Engine.updateGenerated env e files).2.scheduler := by
  have hset := hagrees.setContents files
  rw [← hagrees.scheduler_setContents files] at h
  unfold Engine.updateGenerated
  dsimp only
  split
  · exact h
  · exact hkept.handleChange (hset.with_watcher
      ((e.setContents files).2.watcher.remove (e.setContents files).1)) h _

theorem removeGenerated (hkept : KeptByCalls env.fails P) (hagrees : e.Agrees)
    (h : P e.scheduler) (paths : List Path) :
    P (Engine.removeGenerated env e paths).2.scheduler := by
  have hdropped := (hagrees.dropContents env.disk paths).with_watcher
    ((Engine.dropContents env.disk e paths).2.watcher.add env.backend
      ((Engine.dropContents env.disk e paths).1.1.filter fun f =>
        (Engine.dropContents env.disk e paths).2.isOwned f.1))
  rw [← hagrees.scheduler_dropContents env.disk paths] at h
  unfold Engine.removeGenerated
  dsimp only
  split
  · split
    · exact h
    · exact hkept.handleChange hdropped h _
  · split
    · exact hkept.handleChange hdropped h _
    · exact hkept.handleChange (hdropped.handleChange _) (hkept.handleChange hdropped h _) _

end KeptByCalls

/-- What is kept by everything that may happen to a scheduler. -/
structure Kept (fails : Nat -> Option Failure) (P : Scheduler -> Prop) : Prop
    extends KeptByCalls fails P where
  stage : forall s ticket stage, P s -> P (s.setStage ticket stage)
  finish : forall s job outcome poisoned, P s -> P (s.finish job outcome poisoned)
  sweep : forall s, P s -> P s.freeSlots
  disable : forall s, P s -> P s.disable

theorem Kept.worked {env : Environment} {P : Scheduler -> Prop} {e' : Engine} {ticket : Nat}
    {fails : Nat -> Option Failure} (hkept : Kept fails P) (h : P e.scheduler)
    (hworked : Worked env e ticket e') : P e'.scheduler := by
  cases hworked with
  | idle hidle => exact h
  | begins job p status hjob hstage hpath hstatus halike =>
      rw [halike.scheduler]
      exact hkept.stage _ _ _ h
  | collects job p status r hjob hstage hanswer halike =>
      rw [halike.scheduler]
      exact hkept.stage _ _ _ h
  | fails job outcome poisoned hjob hfailure halike =>
      rw [halike.scheduler]
      exact hkept.finish _ _ _ _ h
  | lands job status r outcome wrote t hjob hstage hok => exact hkept.finish _ _ _ _ h

theorem kept_reports (fails : Nat -> Option Failure) (reports : List TaskReport) :
    Kept fails fun s => reports <+: s.reports where
  queue := fun _ _ h => h
  dispatch := by
    intro s hqueue h
    rcases Scheduler.exists_dispatched hqueue fails with ⟨handed, hlaunched⟩
    exact h.trans hlaunched.reports
  stage := fun _ _ _ h => h
  finish := fun s _ _ _ h => h.trans (List.prefix_append _ _)
  sweep := fun _ h => h
  disable := fun _ h => h

theorem kept_ticketed (fails : Nat -> Option Failure) : Kept fails Scheduler.Ticketed where
  queue := fun _ _ h => h.of_jobs_eq rfl rfl
  dispatch := fun _ _ h => h.dispatch fails
  stage := fun _ _ _ h => h.setStage _ _
  finish := fun _ _ _ _ h => h.finish _ _ _
  sweep := fun _ h => h.freeSlots
  disable := fun _ h => h.of_jobs_eq rfl rfl

theorem Agrees.reports_handleChange {env : Environment} (h : e.Agrees) (change : PathChange) :
    e.scheduler.reports <+: (Engine.handleChange env e change).2.scheduler.reports :=
  (kept_reports env.fails _).handleChange h (List.prefix_refl _) change

end Engine

namespace World

variable {s : Surroundings} {w : World}

theorem kept_happen {P : Scheduler -> Prop} (hkept : Engine.Kept s.fails P)
    (hagrees : w.engine.Agrees) (h : P w.engine.scheduler) {event : Event}
    (hsame : forall concurrency, event ≠ .restart concurrency) :
    P (happen s w event).engine.scheduler := by
  have hcalls : Engine.KeptByCalls (s.environment w.disk).fails P := hkept.toKeptByCalls
  cases event with
  | submit parts => exact hcalls.updateParts hagrees h parts
  | removeParts ids => exact hcalls.removeParts h ids
  | handle change => exact hcalls.handleChange hagrees h change
  | receive =>
      show P (receive _ w.engine).scheduler
      unfold receive
      split
      · rename_i change watcher _hreceived
        exact hcalls.handleChange (hagrees.with_watcher watcher) h change
      · exact h
  | generate files => exact hcalls.updateGenerated hagrees h files
  | ungenerate paths => exact hcalls.removeGenerated hagrees h paths
  | edit change =>
      unfold happen
      dsimp only
      split <;> exact h
  | flush paths => exact h
  | work ticket => exact hkept.worked h (Engine.worked_stepTicket _ _ ticket)
  | dispatch => exact hcalls.dispatch _ hagrees.queue h
  | sweep => exact hkept.sweep _ h
  | disable => exact hkept.disable _ h
  | restart concurrency => exact absurd rfl (hsame concurrency)

theorem kept_run {P : Scheduler -> Prop} (hkept : Engine.Kept s.fails P)
    (hagrees : w.engine.Agrees) (h : P w.engine.scheduler) {history : List Event}
    (hsame : forall concurrency, .restart concurrency ∉ history) :
    P (run s w history).engine.scheduler := by
  induction history generalizing w with
  | nil => exact h
  | cons event rest ih =>
      refine ih (agrees_happen hagrees event) (kept_happen hkept hagrees h ?_) ?_
      · intro concurrency heq
        rw [heq] at hsame
        exact hsame concurrency List.mem_cons_self
      · exact fun concurrency hmem => hsame concurrency (List.mem_cons_of_mem _ hmem)

theorem Reachable.kept {P : Scheduler -> Prop} (hw : w.Reachable s)
    (hstart : forall n, P (.ofCapacity n)) (hkept : Engine.Kept s.fails P) :
    P w.engine.scheduler := by
  rcases hw with ⟨d, concurrency, history, rfl⟩
  suffices hrun : forall w : World, w.engine.Agrees -> P w.engine.scheduler ->
      P (run s w history).engine.scheduler from
    hrun _ (agrees_fresh d concurrency) (hstart concurrency)
  induction history with
  | nil => exact fun _ _ h => h
  | cons event rest ih =>
      intro w hagrees h
      apply ih _ (agrees_happen hagrees event)
      cases event with
      | restart concurrency => exact hstart concurrency
      | _ => exact kept_happen hkept hagrees h (fun _ heq => by cases heq)

theorem Reachable.ticketed (hw : w.Reachable s) : w.engine.scheduler.Ticketed :=
  hw.kept Scheduler.ticketed_ofCapacity (Engine.kept_ticketed s.fails)

theorem reports_run (hagrees : w.engine.Agrees) {history : List Event}
    (hsame : forall concurrency, .restart concurrency ∉ history) :
    w.engine.scheduler.reports <+: (run s w history).engine.scheduler.reports :=
  kept_run (Engine.kept_reports s.fails _) hagrees (List.prefix_refl _) hsame

end World
end SymbolIndex
