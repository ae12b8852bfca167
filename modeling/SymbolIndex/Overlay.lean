import SymbolIndex.Disk

/-!
# Overlays

Contents of files that are generated or not saved yet, by the normal form of their
paths. An overlay counts its changes of content; the count at the last change of a
file takes the place of the modification time in its status.
-/

namespace SymbolIndex

structure GeneratedFile where
  content : String
  revision : Nat
deriving DecidableEq

structure Overlay where
  files : Table Path GeneratedFile
  revision : Nat

namespace Overlay

def empty : Overlay := ⟨∅, 0⟩

def get? (o : Overlay) (p : Path) : Option GeneratedFile := o.files.get? p.normalize

/-- Whether `p` already has this content. -/
def holds (o : Overlay) (p : Path) (content : String) : Bool :=
  match o.get? p with
  | some file => file.content == content
  | none => false

/-- Set the content of a file; a content that is there already changes nothing. -/
def insert (o : Overlay) (p : Path) (content : String) : Overlay :=
  if o.holds p content then o
  else
    let revision := o.revision + 1
    ⟨o.files.insert p.normalize ⟨content, revision⟩, revision⟩

def erase (o : Overlay) (p : Path) : Overlay := { o with files := o.files.erase p.normalize }

def contains (o : Overlay) (p : Path) : Bool := (o.get? p).isSome

def content? (o : Overlay) (p : Path) : Option String := (o.get? p).map GeneratedFile.content

def status? (o : Overlay) (p : Path) : Option FileStatus :=
  (o.get? p).map fun file =>
    ⟨UInt64.ofNat file.content.utf8ByteSize, Int64.ofNat file.revision⟩

def size (o : Overlay) : Nat := o.files.size

def isEmpty (o : Overlay) : Bool := o.size == 0

/-- The status of the generated content of a file, else of the file on the disk. -/
def currentStatus (o : Overlay) (d : Disk) (p : Path) : Except DiskFault FileStatus :=
  match o.status? p with
  | some status => .ok status
  | none => d.status p

end Overlay
end SymbolIndex
