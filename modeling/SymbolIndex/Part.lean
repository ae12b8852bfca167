import SymbolIndex.Failure
import SymbolIndex.Text.Chars

/-!
# Project parts

A project part is a set of source files that are compiled alike: flags, macros
and include paths. Its command line is what a collector is told.
-/

namespace SymbolIndex

structure PartId where
  name : String
deriving DecidableEq, Repr, Inhabited

namespace PartId

def le (a b : PartId) : Bool := decide (a.name ≤ b.name)

end PartId

structure CompilerMacro where
  name : String
  value : Option String
deriving DecidableEq, Repr

namespace CompilerMacro

def argument (m : CompilerMacro) : String :=
  match m.value with
  | some value => "-D" ++ m.name ++ "=" ++ value
  | none => "-D" ++ m.name

end CompilerMacro

structure Part where
  id : PartId
  files : List Path
  arguments : List String
  macros : List CompilerMacro
  includePaths : List Path
deriving DecidableEq, Repr

namespace Part

/-- The compile arguments: flags, then macros, then include paths. -/
def commandLine (p : Part) : List String :=
  p.arguments ++ p.macros.map CompilerMacro.argument
    ++ p.includePaths.map (fun path => "-I" ++ path.display)

/-- What is wrong with a part, the first of: a blank id, an empty file, a relative file, a nameless macro. -/
def problem? (p : Part) : Option String :=
  if Text.allBlank p.id.name then some "empty project part id"
  else if p.files.any Path.isEmpty then some "empty file path \"\""
  else match p.files.find? Path.isRelative with
    | some file => some ("file path " ++ file.display ++ " is not absolute")
    | none =>
        if p.macros.any (fun m => Text.allBlank m.name) then some "macro without a name" else none

def validate (p : Part) : Except Failure Unit :=
  match p.problem? with
  | some reason => .error (.invalidPart p.id.name reason)
  | none => .ok ()

end Part
end SymbolIndex
