import SymbolIndex.Command.Answer
import SymbolIndex.Display.Marker

/-!
# Answers for people

The lines that show an answer, and the lines that warn about what went wrong on the way.
A line starts with a marker or with the blanks in its place; sections have a rule around
their title.
-/

namespace SymbolIndex

namespace Theme

/-- A text behind a marker. -/
def marked (t : Theme) (m : Marker) (text : String) : String := m.glyph t ++ " " ++ text

/-- The sign of a marker in a style. -/
def sign (t : Theme) (style : Style) (m : Marker) : String := style.apply (m.glyph t)

/-- A labelled value. -/
def fact (t : Theme) (label value : String) : String :=
  t.sign t.label .note ++ " " ++ t.faint.apply label ++ ": " ++ value

/-- The lines above a section. -/
def sectionTitle (t : Theme) (title : String) : List String :=
  ["", "━" ++ t.heading.apply (" " ++ title ++ " ") ++ "━"]

/-- A value under a label, set in. -/
def entry (t : Theme) (label value : String) : String := "  " ++ t.faint.apply label ++ " " ++ value

/-- A text behind a faint sign, set in. -/
def bullet (t : Theme) (m : Marker) (text : String) : String :=
  "  " ++ t.sign t.faint m ++ " " ++ text

def warning (t : Theme) (text : String) : String := t.marked .caution (t.caution.apply text)

def complaint (t : Theme) (text : String) : String := t.marked .failed (t.failure.apply text)

/-- A file that could not be indexed. -/
def fileFailure (t : Theme) (p : Path) (message : String) : String :=
  t.sign t.failure .failed ++ " " ++ t.path.apply p.display ++ " " ++ t.faint.apply message

/-- A file that was indexed. -/
def fileIndexed (t : Theme) (p : Path) (symbols : Nat) : String :=
  t.sign t.caution .reindexed ++ " " ++ t.path.apply p.display ++ " "
    ++ t.aside.apply ("(" ++ toString symbols ++ " symbols)")

def watching (t : Theme) (files : Nat) : String :=
  t.marked .watching ("Watching " ++ toString files ++ " files for changes "
    ++ t.aside.apply "(Ctrl-C to stop)")

end Theme

/-- A grid, or a remark where it would have no rows. -/
def Grid.linesOr (g : Grid) (otherwise : String) : List String :=
  if g.rows.isEmpty then [otherwise] else g.lines

namespace IndexSummary

def lines (t : Theme) (s : IndexSummary) : List String :=
  [t.marked .start (t.heading.apply ("Indexing " ++ s.project.display)),
   t.fact "Database" s.database.display,
   t.fact "Project parts" (toString s.listed),
   t.fact "Concurrency" (toString s.concurrency),
   "",
   t.sign t.ok .done ++ " " ++ t.ok.apply "Complete",
   "  " ++ t.sign t.label .file ++ " " ++ toString s.counters.indexed ++ " indexed  "
     ++ t.sign t.label .part ++ " " ++ toString s.idle ++ " unchanged  "
     ++ t.sign t.label .failed ++ " " ++ toString s.counters.failed ++ " failed",
   t.entry "Files removed" (toString s.report.removed),
   t.entry "Parts rejected" (toString s.report.rejected.length),
   ""]
  ++ (metricGrid [("Indexed files", toString s.counts.indexedFiles),
      ("Symbols", toString s.counts.symbols), ("Locations", toString s.counts.locations)]).lines
  ++ (s.watching.toList.flatMap fun files => ["", t.watching files])

def failureLines (t : Theme) (s : IndexSummary) : List String :=
  s.failures.map fun f => t.fileFailure f.1 f.2

/-- The lines that are shown when files changed while they were watched. -/
def updateLines (t : Theme) (s : IndexSummary) : List String :=
  s.reindexed.map fun f => t.fileIndexed f.1 f.2

def warnings (t : Theme) (s : IndexSummary) : List String :=
  (s.report.dropped.map fun id =>
    t.warning ("Project part '" ++ id.name ++ "' is no longer listed, removed"))
  ++ (s.report.rejected.map fun failure => t.warning failure.message)
  ++ s.failureLines t

end IndexSummary

namespace Answer

def lines (t : Theme) : Answer -> List String
  | indexed s => s.lines t
  | symbols file records =>
      t.sectionTitle ("Symbols in " ++ file.display)
        ++ (SymbolRecord.grid records).linesOr (t.faint.apply "No symbols recorded for this file.")
  | locations symbol records =>
      t.sectionTitle ("Locations of " ++ symbol.name)
        ++ [t.entry "Kind" symbol.kind.text, t.entry "Key" symbol.usr, ""]
        ++ (LocationRecord.grid records).linesOr (t.faint.apply "No locations recorded.")
  | found name results =>
      t.sectionTitle ("Symbols named " ++ name)
        ++ (SymbolRecord.grid (results.map Prod.fst)).linesOr (t.faint.apply "No symbols found.")
        ++ (results.map Prod.snd).eraseDups.map fun p => t.bullet .file (t.path.apply p.display)
  | stats database counts parts =>
      t.sectionTitle "Index"
        ++ [t.fact "Database" database.display, ""]
        ++ (metricGrid (counts.rows.map fun row => (row.1, toString row.2))).lines
        ++ parts.map fun id => t.bullet .part (t.symbol.apply id.name)
  | wrote config database =>
      [t.marked .done (t.ok.apply ("Wrote " ++ config.display)),
       t.fact "Database" database.display,
       "",
       t.faint.apply "List project parts in a project file, then run:",
       "  " ++ Style.bold.apply "symdex index --project project.toml"]

def warnings (t : Theme) : Answer -> List String
  | indexed s => s.warnings t
  | _ => []

end Answer
end SymbolIndex
