import SymbolIndex.Failure
import SymbolIndex.FileStatus
import SymbolIndex.Table

/-!
# Disks

The files and directories that the index is about, as a value: every place, named by
its way down from the root, holds a file, a directory or nothing. A path is walked
name by name from the root or from the current directory, so a `..` after a name that
is no directory leads nowhere.
-/

namespace SymbolIndex

/-- A place on a disk: the names on the way down from the root. -/
abbrev Place := List (List UInt8)

inductive DiskNode where
  | file (content : List UInt8) (modified : Int)
  | directory
deriving DecidableEq

structure Disk where
  nodes : Table Place DiskNode
  current : Place

namespace Place

/-- The place that an absolute path in normal form names. -/
def ofPath (p : Path) : Place := p.components.filterMap fun
  | .name bytes => some bytes
  | _ => none

def path (place : Place) : Path := Path.ofComponents (.root :: place.map .name)

end Place

namespace Disk

/-- The path of the current directory. -/
def currentPath (d : Disk) : Path := Place.path d.current

/-- A disk with nothing but the current directory and the directories around it. -/
def empty (current : Place) : Disk :=
  ⟨(List.range (current.length + 1)).foldl (fun t n => t.insert (current.take n) .directory) ∅, current⟩

def node? (d : Disk) (place : Place) : Option DiskNode :=
  if place.isEmpty then some .directory else d.nodes.get? place

def longestName : Nat := 255

/-- Go from a place to the one that a name leads to. -/
def enter (d : Disk) (place : Place) (name : List UInt8) : Except DiskFault Place :=
  match d.node? place with
  | none => .error .notFound
  | some (.file ..) => .error .notDirectory
  | some .directory =>
      if Path.isDot name then .ok place
      else if Path.isDotDot name then .ok place.dropLast
      else if longestName < name.length then .error .nameTooLong
      else .ok (place ++ [name])

def endsInSlash (p : Path) : Bool := p.bytes.getLast? == some Path.slash

/-- The place that a path leads to; something need not be there, but the way to it must. -/
def walk (d : Disk) (p : Path) : Except DiskFault Place :=
  if p.bytes.contains 0 then .error .nulInPath
  else if p.isEmpty then .error .notFound
  else
    let start := if p.isAbsolute then [] else d.current
    ((Path.pieces p.bytes).filter fun piece => !piece.isEmpty).foldlM d.enter start

/-- The places that a path leads through, were all of them directories. -/
def wayTo (d : Disk) (p : Path) : List Place :=
  let step : Place -> Component -> Place := fun place c =>
    match c with
    | .root => []
    | .here => place
    | .up => place.dropLast
    | .name bytes => place ++ [bytes]
  (List.range (p.components.length + 1)).map fun n => (p.components.take n).foldl step d.current

/-- What stands where a path leads. -/
def lookup (d : Disk) (p : Path) : Except DiskFault DiskNode := do
  let place ← d.walk p
  match d.node? place with
  | none => .error .notFound
  | some (.file content modified) =>
      if endsInSlash p then .error .notDirectory else .ok (.file content modified)
  | some .directory => .ok .directory

def doesExist (d : Disk) (p : Path) : Bool := (d.lookup p).isOk

def isDirectory (d : Disk) (p : Path) : Bool :=
  match d.lookup p with
  | .ok .directory => true
  | _ => false

/-- The size that a directory shows. -/
def directorySize : Nat := 4096

def status (d : Disk) (p : Path) : Except DiskFault FileStatus := do
  match ← d.lookup p with
  | .file content modified => pure (FileStatus.ofFile content.length modified)
  | .directory => pure (FileStatus.ofFile directorySize 0)

def read (d : Disk) (p : Path) : Except DiskFault (List UInt8) := do
  match ← d.lookup p with
  | .file content _ => pure content
  | .directory => .error .isDirectory

/-- The content of a file that must be text. -/
def readText (d : Disk) (p : Path) : Except DiskFault String := do
  let bytes ← d.read p
  match Text.ofBytes? bytes with
  | some s => pure s
  | none => .error .notText

/-!
# Changes
-/

def put (d : Disk) (place : Place) (node : DiskNode) : Disk :=
  { d with nodes := d.nodes.insert place node }

/-- Write a file, made anew or replaced, in a directory that is there. -/
def write (d : Disk) (p : Path) (content : List UInt8) (modified : Int) : Except DiskFault Disk := do
  let place ← d.walk p
  match d.node? place with
  | some .directory => .error .isDirectory
  | some (.file ..) =>
      if endsInSlash p then .error .notDirectory else pure (d.put place (.file content modified))
  | none => if endsInSlash p then .error .isDirectory else pure (d.put place (.file content modified))

def makeDirectory (d : Disk) (p : Path) : Except DiskFault Disk := do
  let place ← d.walk p
  match d.node? place with
  | some _ => .error .alreadyExists
  | none => pure (d.put place .directory)

/-- Make a directory unless it is there, whatever stands in the way being an error. -/
def ensureDirectory (d : Disk) (p : Path) : Except DiskFault Disk :=
  match d.makeDirectory p with
  | .ok d => .ok d
  | .error fault => if d.isDirectory p then .ok d else .error fault

/-- Make a directory and those around it. -/
def makeDirectories (d : Disk) : Nat -> Path -> Except DiskFault Disk
  | 0, p => d.ensureDirectory p
  | fuel + 1, p =>
      if p.isEmpty then .ok d
      else match d.makeDirectory p with
        | .ok d => .ok d
        | .error .notFound =>
            match p.parent with
            | none => .error .notFound
            | some parent => do
                let d ← d.makeDirectories fuel parent
                d.ensureDirectory p
        | .error fault => if d.isDirectory p then .ok d else .error fault

/-- Remove a file, or a directory with everything below it. -/
def remove (d : Disk) (p : Path) : Except DiskFault Disk := do
  let _ ← d.lookup p
  let place ← d.walk p
  pure { d with nodes := d.nodes.restrict fun other _ => !place.isPrefixOf other }

/-- The places at and below a place that hold something. -/
def placesBelow (d : Disk) (place : Place) : List Place :=
  d.nodes.keys.filter fun other => place.isPrefixOf other

def move (d : Disk) (source target : Path) : Except DiskFault Disk := do
  let node ← d.lookup source
  let fromPlace ← d.walk source
  let toPlace ← d.walk target
  let moved : Disk -> Disk := fun d =>
    let entries := (d.placesBelow fromPlace).filterMap fun other =>
      (d.nodes.get? other).map fun n => (toPlace ++ other.drop fromPlace.length, n)
    let cleared := d.nodes.restrict fun other _ => !fromPlace.isPrefixOf other
    { d with nodes := entries.foldl (fun t e => t.insert e.1 e.2) cleared }
  if fromPlace = toPlace then pure d
  else match node, d.node? toPlace with
    | .file .., some .directory => .error .isDirectory
    | .directory, some (.file ..) => .error .notDirectory
    | .directory, some .directory =>
        if (d.placesBelow toPlace).length > 1 then .error .notEmpty else pure (moved d)
    | _, _ => pure (moved d)

/-- A change of a disk. -/
inductive Change where
  | write (path : Path) (content : List UInt8) (modified : Int)
  | delete (path : Path)
  | makeDirectory (path : Path)
  | move (source target : Path)

/-- Carry out a change; a file is written together with the directories around it. -/
def apply (d : Disk) : Change -> Except DiskFault Disk
  | .write p content modified => do
      let d ← match p.parent with
        | some parent => d.makeDirectories parent.bytes.length parent
        | none => pure d
      d.write p content modified
  | .delete p => d.remove p
  | .makeDirectory p => d.makeDirectories p.bytes.length p
  | .move source target => d.move source target

/-- The places that a change of `d` touches. -/
def touchedBy (d : Disk) : Change -> List Place
  | .write p .. => (d.walk p).toOption.toList
  | .delete p =>
      match d.walk p with
      | .ok place => d.placesBelow place
      | .error _ => []
  | .makeDirectory p => (d.walk p).toOption.toList
  | .move source target => (d.walk source).toOption.toList ++ (d.walk target).toOption.toList

end Disk
end SymbolIndex
