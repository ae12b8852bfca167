import SymbolIndex.Storage

/-!
# Deliveries

Workers deliver the results of their tasks one after the other, in the order in which
they happen to get done. A delivery that fails changes nothing.
-/

namespace SymbolIndex

/-- A task, the status in which its file was seen and what was collected. -/
structure Delivery where
  task : Task
  status : FileStatus
  results : Results
deriving DecidableEq

namespace Storage

/-- What a delivery is answered, and storage after it. -/
def deliver (t : Storage) (d : Delivery) : Except Failure ApplyOutcome × Storage :=
  match t.applyResults d.task d.status d.results with
  | .ok (outcome, after) => (.ok outcome, after)
  | .error failure => (.error failure, t)

/-- Storage after some deliveries. -/
def deliverAll (t : Storage) (work : List Delivery) : Storage :=
  work.foldl (fun t d => (t.deliver d).2) t

/-- What each of some deliveries is answered. -/
def answers (t : Storage) : List Delivery -> List (Delivery × Except Failure ApplyOutcome)
  | [] => []
  | d :: rest => (d, (t.deliver d).1) :: (t.deliver d).2.answers rest

end Storage
end SymbolIndex
