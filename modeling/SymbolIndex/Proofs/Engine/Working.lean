import SymbolIndex.Engine.History
import SymbolIndex.Proofs.Engine.Looking
import SymbolIndex.Proofs.Scheduler.Rounds

/-!
# Steps of workers

A step of a worker takes one job from one stage to the next, or it ends the job. Only
the last step of a job that does not fail touches the store.
-/

namespace SymbolIndex
namespace Engine

variable {env : Environment} {e e' : Engine} {ticket : Nat}

/-- What a step of the worker with a ticket may do. -/
inductive Worked (env : Environment) (e : Engine) (ticket : Nat) : Engine -> Prop where
  | idle (hidle : forall job, e.scheduler.job? ticket = some job -> job.isFinished = true) :
      Worked env e ticket e
  | begins (job : Job) (p : Path) (status : FileStatus) {e' : Engine}
      (hjob : e.scheduler.job? ticket = some job) (hstage : job.stage = .assigned)
      (hpath : e.path? job.task.file = some p)
      (hstatus : e.overlay.currentStatus env.disk p = .ok status)
      (halike : Alike (e.setStage job (.reading p status)) e') : Worked env e ticket e'
  | collects (job : Job) (p : Path) (status : FileStatus) (r : Results) {e' : Engine}
      (hjob : e.scheduler.job? ticket = some job) (hstage : job.stage = .reading p status)
      (hanswer : env.collect e.overlay p job.task.arguments = .results r)
      (halike : Alike (e.setStage job (.collected status r)) e') : Worked env e ticket e'
  | fails (job : Job) (outcome : TaskOutcome) (poisoned : Bool) {e' : Engine}
      (hjob : e.scheduler.job? ticket = some job) (hfailure : outcome.isFailure = true)
      (halike : Alike (e.finishJob job outcome poisoned) e') : Worked env e ticket e'
  | lands (job : Job) (status : FileStatus) (r : Results) (outcome : ApplyOutcome)
      (wrote : Bool) (t : Store)
      (hjob : e.scheduler.job? ticket = some job) (hstage : job.stage = .collected status r)
      (hok : e.storage.store.applyResults job.task status r = .ok (outcome, wrote, t)) :
      Worked env e ticket
        ({ e with storage := e.storage.advance wrote t }.finishJob job (outcomeOf outcome) false)

theorem alike_consult_with (e : Engine) (id : FileId) (s : Scheduler) :
    Alike { e with scheduler := s } { e.consult id with scheduler := s } := by
  have h := alike_consult e id
  exact ⟨rfl, rfl, rfl, rfl, rfl, rfl, h.paths, h.book, h.known⟩

theorem alike_with_log (e : Engine) (l : CallLog) : Alike e { e with log := l } :=
  ⟨rfl, rfl, rfl, rfl, rfl, rfl, fun _ => rfl, id, PathBook.Extends.refl e.book⟩

theorem worked_begin {job : Job} (hjob : e.scheduler.job? ticket = some job)
    (hstage : job.stage = .assigned) : Worked env e ticket (begin env e job) := by
  unfold begin
  cases hpath : e.path? job.task.file with
  | none => exact .fails job _ false hjob rfl (Alike.refl _)
  | some p =>
      dsimp only
      have hasked : (e.consult job.task.file).overlay = e.overlay := rfl
      rw [hasked]
      cases hstatus : e.overlay.currentStatus env.disk p with
      | error fault =>
          exact .fails job (.parseFailed (p.display ++ ": " ++ (Failure.io fault).message)) false
            hjob rfl (alike_consult_with e _ _)
      | ok status =>
          have halike := alike_consult_with e job.task.file
            (e.scheduler.setStage job.ticket (.reading p status))
          refine .begins job p status hjob hstage hpath hstatus ?_
          dsimp only
          split
          · exact halike.trans (alike_with_log _ _)
          · exact halike

theorem worked_collect {job : Job} {p : Path} {status : FileStatus}
    (hjob : e.scheduler.job? ticket = some job) (hstage : job.stage = .reading p status) :
    Worked env e ticket (collect env e job p status) := by
  -- the log of the calls is all that may differ from the engine before
  have hlogged : exists log, (if env.logsCalls then { e with log := e.log.finish } else e) =
      { e with log } := by
    split
    · exact ⟨_, rfl⟩
    · exact ⟨e.log, rfl⟩
  rcases hlogged with ⟨log, hlog⟩
  unfold collect
  dsimp only
  rw [hlog]
  cases hanswer : env.collect e.overlay p job.task.arguments with
  | results r => exact .collects job p status r hjob hstage hanswer (alike_with_log _ log)
  | failed failure => exact .fails job _ false hjob rfl (alike_with_log _ log)
  | panicked message =>
      exact .fails job (.parseFailed ("collector panicked on " ++ p.display)) true hjob rfl
        (alike_with_log _ log)

theorem worked_store {job : Job} {status : FileStatus} {r : Results}
    (hjob : e.scheduler.job? ticket = some job) (hstage : job.stage = .collected status r) :
    Worked env e ticket (e.store job status r) := by
  unfold store Storage.applyResults
  cases hok : e.storage.store.applyResults job.task status r with
  | error failure => exact .fails job _ false hjob rfl (Alike.refl _)
  | ok answer =>
      rcases answer with ⟨outcome, wrote, t⟩
      exact .lands job status r outcome wrote t hjob hstage hok

theorem worked_stepTicket (env : Environment) (e : Engine) (ticket : Nat) :
    Worked env e ticket (stepTicket env e ticket) := by
  unfold stepTicket
  cases hjob : e.scheduler.job? ticket with
  | none => exact .idle (by simp [hjob])
  | some job =>
      dsimp only
      unfold stepJob
      cases hstage : job.stage with
      | assigned => exact worked_begin hjob hstage
      | reading p status => exact worked_collect hjob hstage
      | collected status r => exact worked_store hjob hstage
      | finished poisoned => exact .idle (by simp [hjob, Job.isFinished, hstage])

theorem not_untroubled_of_fails {job : Job} {outcome : TaskOutcome} {poisoned : Bool}
    (hfailure : outcome.isFailure = true)
    (halike : Alike (e.finishJob job outcome poisoned) e') :
    ¬ e'.scheduler.UntroubledSince e.scheduler.reports.length := by
  intro huntroubled
  have hreports : e'.scheduler.reports =
      e.scheduler.reports ++ [⟨job.task.file, job.task.part, outcome⟩] := by
    rw [halike.scheduler]
    rfl
  have hreport := huntroubled ⟨job.task.file, job.task.part, outcome⟩ (by
    rw [hreports, List.drop_left]
    exact List.mem_cons_self)
  rw [hfailure] at hreport
  cases hreport

end Engine
end SymbolIndex
