import SymbolIndex.Engine.Run

/-!
# Whole projects

Bringing the index in line with all parts of a project at once: parts that are stored
but not listed are removed, then the listed ones are submitted.
-/

namespace SymbolIndex

/-- What became of a project. -/
structure ProjectReport where
  dropped : List PartId
  removed : Nat
  enqueued : Nat
  rejected : List Failure
deriving DecidableEq

namespace Engine

/-- The stored parts that are not among the listed ones. -/
def unlisted (e : Engine) (parts : List Part) : List PartId :=
  e.storage.store.partIds.filter fun id => !(parts.map Part.id).contains id

/--
Leave exactly the listed parts in the index and wait until nothing is running. The files
of the parts that go count as removed.
-/
def indexProject (env : Environment) (e : Engine) (parts : List Part) :
    Except Failure ProjectReport × Engine :=
  let dropped := e.unlisted parts
  match e.removeParts dropped with
  | (.error failure, e) => (.error failure, e)
  | (.ok gone, e) =>
      let (report, e) := updateParts env e parts
      let (_, e) := quiesce env e
      (.ok ⟨dropped, gone + report.removed, report.enqueued, report.rejected⟩, e)

end Engine
end SymbolIndex
