import SymbolIndex.Collector.Trees
import SymbolIndex.Command.Run

/-!
# The program

Fetches what a command looks at from the real disk, runs the command, puts back what it
changed and prints what it says. The syntax tree of a source file is looked for beside
it, in the file of the same name with `.tree` behind it.
-/

namespace SymbolIndex
namespace Program

/-- What is at a place of the real disk. -/
def fetch (place : Place) : IO (Option DiskNode) := do
  let some text := (Place.path place).text? | return none
  let p := (← IO.currentDir) / text
  if ← p.isDir then return some .directory
  try
    let modified := (← p.metadata).modified
    let content ← IO.FS.readBinFile p
    return some (.file content.toList (modified.sec * 1000000000 + modified.nsec.toNat))
  catch _ => return none

/-- Put what is on the way to a path on a disk. -/
def fetchWay (d : Disk) (p : Path) : IO Disk :=
  (d.wayTo p).foldlM (fun d place => do
    if (d.node? place).isSome then return d
    match ← fetch place with
    | some node => return d.put place node
    | none => return d) d

def fetchAll (d : Disk) (ps : List Path) : IO Disk := ps.foldlM fetchWay d

/--
The disk as far as an invocation looks at it: the settings name the database, and the
project file names the sources, so what is to be fetched shows in three rounds.
-/
def disk (current : Place) (i : Invocation) : IO Disk := do
  let d ← fetchAll (Disk.empty current) (i.consulted (Disk.empty current))
  let d ← fetchAll d (i.consulted d)
  fetchAll d (i.consulted d)

def treeFile (p : Path) : Path := ⟨p.bytes ++ Text.bytesOf ".tree"⟩

/-- The syntax trees beside the sources. -/
def grammar (d : Disk) (sources : List Path) : IO Grammar := do
  let d ← fetchAll d (sources.map treeFile)
  let known := sources.filterMap fun p => do
    let source ← (d.readText p).toOption
    let tree ← (d.readText (treeFile p)).toOption
    let tree ← (Json.read? tree).bind SyntaxTree.ofData?
    pure (source, tree)
  return Grammar.ofTrees (known.flatMap fun entry => Language.all.map fun l => (l, entry))

/-- Bring the real disk from one state to another. -/
def put (before after : Disk) : IO Unit :=
  after.nodes.entries.forM fun (place, node) => do
    if before.node? place = some node then return ()
    let some text := (Place.path place).text? | return ()
    match node with
    | .directory => IO.FS.createDirAll text
    | .file content _ => IO.FS.writeBinFile text ⟨content.toArray⟩

def print (o : Output) : IO Unit := do
  o.out.forM IO.println
  o.err.forM IO.eprintln

def theme : IO Theme := do
  return Theme.forOutput (← (← IO.getStdout).isTty) (← IO.getEnv "NO_COLOR").isSome

/-- Fetch, run and put back. -/
def perform (current : Place) (i : Invocation) (run : Machine -> Disk -> Output × Disk) :
    IO (UInt32 × List (Option FileStatus)) := do
  let d ← disk current i
  let (output, after) := run ⟨← grammar d (i.sources d), 1, ← theme⟩ d
  put d after
  print output
  return (output.exit.toUInt32, i.glance d)

/-- How many milliseconds pass before the sources are looked at again. -/
def pause : UInt32 := 200

/-- Index again whenever a source has changed. -/
partial def watch (current : Place) (i : Invocation) (seen : List (Option FileStatus)) : IO UInt32 := do
  IO.sleep pause
  if i.glance (← disk current i) = seen then watch current i seen
  else
    let (_, now) ← perform current i fun m d => i.update m d
    watch current i now

/-- Run the program with the words behind its name; the answer is its exit code. -/
def run (words : List String) : IO UInt32 := do
  let current := Place.ofPath (.ofString (← IO.currentDir).toString)
  match Arguments.read words with
  | .error stop =>
      let output := Output.ofStop stop
      print output
      return output.exit.toUInt32
  | .ok i =>
      let (exit, seen) ← perform current i fun m d => i.run m d
      if exit = 0 && i.watchedProject?.isSome then watch current i seen else return exit

end Program
end SymbolIndex

def main (words : List String) : IO UInt32 := SymbolIndex.Program.run words
