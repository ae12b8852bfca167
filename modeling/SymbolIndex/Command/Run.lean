import SymbolIndex.Collector
import SymbolIndex.Command.Arguments
import SymbolIndex.Command.Lines
import SymbolIndex.ProjectFile
import SymbolIndex.Store.Archive

/-!
# Running commands

From the words of a command line to what is printed, and from the disk before to the
disk after. The settings come first, and a problem with them ends the program before
any command runs. Queries never make an index where there is none.
-/

namespace SymbolIndex

/-- What a command is told from outside besides the disk. -/
structure Machine where
  grammar : Grammar
  processors : Nat
  theme : Theme

/-- What a program leaves behind: its exit code and the lines it printed. -/
structure Output where
  exit : Nat
  out : List String
  err : List String
deriving DecidableEq, Repr

/-!
# Indexing
-/

namespace Machine

/-- The path that a report is about. -/
def pathOf (e : Engine) (r : TaskReport) : Path := (e.path? r.file).getD ⟨[]⟩

def reindexed (e : Engine) : List (Path × Nat) :=
  e.scheduler.reports.filterMap fun r =>
    match r.outcome with
    | .indexed symbols _ => some (pathOf e r, symbols)
    | _ => none

def failures (e : Engine) : List (Path × String) :=
  e.scheduler.reports.filterMap fun r => r.outcome.message?.map fun message => (pathOf e r, message)

/-- Index the parts of a project file. -/
def index (m : Machine) (settings : Settings) (d : Disk) (project : Path) (watch : Bool) :
    Except Problem IndexSummary × Disk :=
  match ProjectFile.load d project with
  | .error failure => (.error (.badProject project failure), d)
  | .ok parts =>
      match Settings.ensureDirectory d settings.database with
      | .error failure => (.error (.failed failure), d)
      | .ok d =>
          match Store.openAt d settings.database with
          | .error failure => (.error (.failed failure), d)
          | .ok (store, d) =>
              let concurrency := settings.concurrencyOn m.processors
              let start := Engine.start store concurrency .empty
              let (report, e) := start.indexProject (.ofGrammar m.grammar d) parts
              match e.storage.store.save d settings.database, report with
              | .error failure, _ => (.error (.failed failure), d)
              | .ok d, .error failure => (.error (.failed failure), d)
              | .ok d, .ok report =>
                  (.ok
                    { project := project
                      database := settings.database
                      listed := parts.length
                      concurrency := concurrency
                      report := report
                      counters := e.scheduler.counters
                      reindexed := reindexed e
                      failures := failures e
                      counts := e.storage.store.counts
                      watching := if watch then some e.watcher.watchedCount else none }, d)

end Machine

/-!
# Queries
-/

namespace Command

/-- Open a store that is there. -/
def openIndex (d : Disk) (database : Path) : Except Problem Store :=
  if d.doesExist database then
    match Store.openAt d database with
    | .ok (store, _) => .ok store
    | .error failure => .error (.failed failure)
  else .error (.noIndex database)

/-- Carry on with what the store gave. -/
def asked {α : Type} : Except Failure α -> Except Problem α
  | .ok a => .ok a
  | .error failure => .error (.failed failure)

/-- The path of a file in the store. -/
def pathIn (s : Store) (id : FileId) : Except Problem Path :=
  match PathBook.empty.path? s id with
  | some p => .ok p
  | none => .error (.failed (.unknownFile id))

def symbolsOf (d : Disk) (s : Store) (file : Path) : Except Problem Answer := do
  let file := Path.absoluteIn d.currentPath file
  match PathBook.empty.find? s file with
  | none => .error (.notIndexed file)
  | some id => pure (.symbols file (← asked (s.symbolsIn id)))

def locationsOf (s : Store) (id : SymbolId) : Except Problem Answer := do
  match ← asked (s.symbol? id) with
  | none => .error (.noSymbol id)
  | some symbol =>
      let locations ← asked (s.locationsOf id)
      pure (.locations symbol (← locations.mapM fun l => do pure (l, ← pathIn s l.file)))

def symbolsNamed (s : Store) (name : String) : Except Problem Answer := do
  let symbols ← asked (s.symbolsNamed name)
  pure (.found name (← symbols.mapM fun symbol => do pure (symbol, ← pathIn s symbol.file)))

/-!
# Commands
-/

/-- What a command answers, and the disk after it. -/
def answer (m : Machine) (config : Path) (settings : Settings) (d : Disk) :
    Command -> Except Problem Answer × Disk
  | index project watch =>
      let (summary, d) := m.index settings d project watch
      (summary.map .indexed, d)
  | symbols file => ((openIndex d settings.database).bind fun s => symbolsOf d s file, d)
  | locations id => ((openIndex d settings.database).bind fun s => locationsOf s ⟨id⟩, d)
  | find name => ((openIndex d settings.database).bind fun s => symbolsNamed s name, d)
  | stats =>
      ((openIndex d settings.database).map fun s => .stats settings.database s.counts s.partIds, d)
  | init force =>
      match settings.save d config force with
      | .ok d => (.ok (.wrote config settings.database), d)
      | .error failure => (.error (.failed failure), d)

end Command

namespace Output

/-- The lines of a record, its fields by their names. -/
def recordLines (d : Data) : List String := (Json.pretty 0 d.sorted).splitOn "\n"

/-- An answer, for programs or for people. -/
def ofAnswer (theme : Theme) (json : Bool) (a : Answer) : Output :=
  if json then ⟨0, recordLines a.envelope, []⟩ else ⟨0, a.lines theme, a.warnings theme⟩

def ofProblem (theme : Theme) (json : Bool) (p : Problem) : Output :=
  if json then ⟨1, recordLines p.envelope, []⟩ else ⟨1, [], [theme.complaint p.message]⟩

def version : Output := ⟨0, ["symdex 0.1.0"], []⟩

def usage : List String :=
  ["Usage: symdex [--verbose] [--json] [--config FILE] [--database FILE] COMMAND",
   "",
   "Commands:",
   "  index --project FILE [--watch]  Index the project parts listed in a project file",
   "  symbols --file FILE             List the symbols recorded for a file",
   "  locations --symbol ID           List the locations of a symbol",
   "  find --name NAME                Find symbols by name",
   "  stats                           Show statistics about the index",
   "  init [--force]                  Write a default config file"]

/-- What is printed when reading the command line ends early. -/
def ofStop : Stop -> Output
  | .version => version
  | .help => ⟨0, usage, []⟩
  | .malformed => ⟨2, [], usage⟩

/-- What is shown when files changed while they were watched. -/
def ofUpdate (theme : Theme) (json : Bool) (s : IndexSummary) : Output :=
  if json then ⟨0, [], []⟩ else ⟨0, s.updateLines theme, s.failureLines theme⟩

end Output

namespace Invocation

def configFile (i : Invocation) : Path := i.config.getD Settings.defaultFile

/-- The settings of an invocation; the command line may name another database. -/
def settings (i : Invocation) (d : Disk) : Except Failure Settings :=
  (Settings.load d i.configFile).map fun loaded =>
    let settings := loaded.getD Settings.default
    { settings with database := i.database.getD settings.database }

def run (m : Machine) (d : Disk) (i : Invocation) : Output × Disk :=
  match i.settings d with
  | .error failure => (⟨1, [], ["Error: " ++ failure.message]⟩, d)
  | .ok settings =>
      match i.command.answer m i.configFile settings d with
      | (.ok a, d) => (.ofAnswer m.theme i.json a, d)
      | (.error p, d) => (.ofProblem m.theme i.json p, d)

/-!
# Watching
-/

/-- The project file to be watched, if there is one. -/
def watchedProject? (i : Invocation) : Option Path :=
  match i.command with
  | .index project true => some project
  | _ => none

/-- The project file of an invocation and the source files that it lists. -/
def sources (i : Invocation) (d : Disk) : List Path :=
  match i.command with
  | .index project _ =>
      project :: match ProjectFile.load d project with
        | .ok parts => parts.flatMap Part.files
        | .error _ => []
  | _ => []

/-- The paths that an invocation looks at, as far as the disk shows. -/
def consulted (i : Invocation) (d : Disk) : List Path :=
  let database := match i.settings d with
    | .ok settings => [settings.database]
    | .error _ => []
  i.configFile :: database ++ i.sources d

/-- What watching sees of the source files. -/
def glance (i : Invocation) (d : Disk) : List (Option FileStatus) :=
  (i.sources d).map fun p => (d.status p).toOption

/-- Index again after something changed. -/
def update (m : Machine) (d : Disk) (i : Invocation) : Output × Disk :=
  match i.watchedProject?, i.settings d with
  | some project, .ok settings =>
      match m.index settings d project false with
      | (.ok summary, d) => (.ofUpdate m.theme i.json summary, d)
      | (.error p, d) => (.ofProblem m.theme i.json p, d)
  | _, _ => (⟨0, [], []⟩, d)

end Invocation

/-- Run the program with the words behind its name. -/
def Machine.run (m : Machine) (d : Disk) (words : List String) : Output × Disk :=
  match Arguments.read words with
  | .error stop => (.ofStop stop, d)
  | .ok i => i.run m d

end SymbolIndex
