import SymbolIndex.Engine.Project

/-!
# Histories

An engine and the disk it works on, and everything that may happen to the two, one event
after the other. Workers take their steps in any order, so that a job may wait between
any two of them while everything else goes on.
-/

namespace SymbolIndex

/-- What does not change: how sources are collected, what can be watched, which collectors can be made. -/
structure Surroundings where
  collect : Disk -> Overlay -> Path -> List String -> Collected
  backend : Disk -> Backend
  fails : Nat -> Option Failure

namespace Surroundings

def environment (s : Surroundings) (d : Disk) : Environment :=
  { disk := d
    collect := s.collect d
    logsCalls := false
    fails := s.fails
    backend := s.backend d }

end Surroundings

structure World where
  disk : Disk
  engine : Engine

inductive Event where
  | submit (parts : List Part)
  | removeParts (ids : List PartId)
  | handle (change : PathChange)
  | receive
  | generate (files : List (Path × String))
  | ungenerate (paths : List Path)
  | edit (change : Disk.Change)
  | flush (paths : List Path)
  | work (ticket : Nat)
  | dispatch
  | sweep
  | disable
  | restart (concurrency : Nat)

namespace World

def withEngine (w : World) (e : Engine) : World := { w with engine := e }

/-- Handle the notification that waits longest. -/
def receive (env : Environment) (e : Engine) : Engine :=
  match e.watcher.receive with
  | some (change, watcher) => (Engine.handleChange env { e with watcher } change).2
  | none => e

/-- The world after an event. -/
def happen (s : Surroundings) (w : World) (event : Event) : World :=
  let env := s.environment w.disk
  let e := w.engine
  match event with
  | .submit parts => w.withEngine (Engine.updateParts env e parts).2
  | .removeParts ids => w.withEngine (e.removeParts ids).2
  | .handle change => w.withEngine (Engine.handleChange env e change).2
  | .receive => w.withEngine (receive env e)
  | .generate files => w.withEngine (Engine.updateGenerated env e files).2
  | .ungenerate paths => w.withEngine (Engine.removeGenerated env e paths).2
  | .edit change =>
      match w.disk.apply change with
      | .ok disk => { w with disk }
      | .error _ => w
  | .flush paths => w.withEngine (Engine.flush env e paths)
  | .work ticket => w.withEngine (Engine.stepTicket env e ticket)
  | .dispatch => w.withEngine (Engine.dispatch env e)
  | .sweep => w.withEngine { e with scheduler := e.scheduler.freeSlots }
  | .disable => w.withEngine { e with scheduler := e.scheduler.disable }
  | .restart concurrency => w.withEngine (e.restart concurrency)

/-- The world after a history. -/
def run (s : Surroundings) (w : World) (history : List Event) : World := history.foldl (happen s) w

end World
end SymbolIndex
