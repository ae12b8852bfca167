import SymbolIndex.Data.Rows
import SymbolIndex.Display.Records
import SymbolIndex.Engine.Project

/-!
# Answers of commands

What a command finds out, and why a command may find out nothing. Programs are given
an answer as data, in a record that says whether all went well.
-/

namespace SymbolIndex

/--
What the `index` command has done: the files that were indexed, with the numbers of their
symbols, and those that failed, with the reasons. The last field is the number of files
that are watched from now on, if any are to be.
-/
structure IndexSummary where
  project : Path
  database : Path
  listed : Nat
  concurrency : Nat
  report : ProjectReport
  counters : SchedulerCounters
  reindexed : List (Path × Nat)
  failures : List (Path × String)
  counts : StoreCounts
  watching : Option Nat
deriving DecidableEq

namespace IndexSummary

/-- The tasks that ended without anything to store. -/
def idle (s : IndexSummary) : Nat := s.counters.unchanged + s.counters.stale

end IndexSummary

inductive Answer where
  | indexed (summary : IndexSummary)
  | symbols (file : Path) (symbols : List SymbolRecord)
  | locations (symbol : SymbolRecord) (locations : List (LocationRecord × Path))
  | found (name : String) (results : List (SymbolRecord × Path))
  | stats (database : Path) (counts : StoreCounts) (parts : List PartId)
  | wrote (config database : Path)
deriving DecidableEq

namespace Answer

/-- The command that gives this answer. -/
def command : Answer -> String
  | indexed _ => "index"
  | symbols .. => "symbols"
  | locations .. => "locations"
  | found .. => "find"
  | stats .. => "stats"
  | wrote .. => "init"

def data : Answer -> Data
  | indexed s => .record [
      ("enqueued", toData s.report.enqueued),
      ("indexed", toData s.counters.indexed),
      ("unchanged", toData s.idle),
      ("failed", toData s.counters.failed),
      ("removed", toData s.report.removed),
      ("dropped_parts", toData s.report.dropped),
      ("rejected", toData (s.report.rejected.map Failure.message)),
      ("symbols", toData s.counts.symbols),
      ("locations", toData s.counts.locations)]
  | symbols file records => .record [
      ("file", toData file),
      ("symbols", .list (records.map SymbolRecord.asRecord))]
  | locations symbol records => .record [
      ("symbol", symbol.asRecord),
      ("locations", .list (records.map fun l => l.1.placedData l.2))]
  | found name results => .record [
      ("name", toData name),
      ("results", .list (results.map fun r => .record [("symbol", r.1.asRecord), ("path", toData r.2)]))]
  | stats database counts parts => .record [
      ("database", toData database),
      ("sources", toData counts.sources),
      ("project_parts", toData parts),
      ("indexed_files", toData counts.indexedFiles),
      ("symbols", toData counts.symbols),
      ("locations", toData counts.locations)]
  | wrote config database => .record [("config", toData config), ("database", toData database)]

/-- The record of an answer. -/
def envelope (a : Answer) : Data :=
  .record [("ok", .boolean true), ("command", .text a.command), ("data", a.data)]

end Answer

/-- Why a command has no answer. -/
inductive Problem where
  | failed (failure : Failure)
  | badProject (project : Path) (failure : Failure)
  | noIndex (database : Path)
  | notIndexed (file : Path)
  | noSymbol (id : SymbolId)
deriving DecidableEq

namespace Problem

/-- The wording of a failure, with what brought it about. -/
def causes (failure : Failure) : String := String.intercalate ": " failure.chain

def message : Problem -> String
  | failed failure => causes failure
  | badProject project failure =>
      "failed to load project file " ++ project.display ++ ": " ++ causes failure
  | noIndex database =>
      "no index at " ++ database.display ++ " (run `symdex index --project <file>` first)"
  | notIndexed file => file.display ++ " is not part of the index"
  | noSymbol id => "no symbol with id " ++ id.display

/-- The record of a problem. -/
def envelope (p : Problem) : Data :=
  .record [("ok", .boolean false), ("error", .text p.message)]

end Problem
end SymbolIndex
