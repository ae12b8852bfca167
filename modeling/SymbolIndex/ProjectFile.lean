import SymbolIndex.Part.Record
import SymbolIndex.Settings

/-!
# Project files

A project file lists project parts. Relative files and include paths are seen from
the directory of the project file.
-/

namespace SymbolIndex
namespace ProjectFile

def ofFields? (fields : List (String × Data)) : Option (List Part) :=
  Data.withDefault? fields "project_parts" [] fun d =>
    d.asList?.bind fun items => items.mapM (Part.ofData? .ignored)

def resolve (base p : Path) : Path :=
  if p.isRelative && !p.isEmpty then base.join p else p

def resolvePart (base : Path) (part : Part) : Part :=
  { part with
    files := part.files.map (resolve base)
    includePaths := part.includePaths.map (resolve base) }

/-- The directory that relative paths in the file `p` are seen from. -/
def baseOf (d : Disk) (p : Path) : Path :=
  match p.parent with
  | some parent => if parent.isEmpty then d.currentPath else Path.absoluteIn d.currentPath parent
  | none => d.currentPath

def load (d : Disk) (p : Path) : Except Failure (List Part) :=
  match d.readText p with
  | .error fault => .error (.io fault)
  | .ok text =>
      match (Toml.document? text).bind ofFields? with
      | some parts => .ok (parts.map (resolvePart (baseOf d p)))
      | none => .error (Settings.malformed p)

end ProjectFile
end SymbolIndex
