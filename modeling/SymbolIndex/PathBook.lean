import SymbolIndex.Store

/-!
# Path books

A path book remembers which paths have which ids, so that the store is asked only once
for each. Paths are looked up in their normal form. The store holds the text of a path,
so two paths that are shown alike share an id.
-/

namespace SymbolIndex

structure PathBook where
  ids : Table Path FileId
  paths : Table FileId Path

namespace PathBook

def empty : PathBook := ⟨∅, ∅⟩

def remember (b : PathBook) (p : Path) (id : FileId) : PathBook :=
  ⟨b.ids.insert p id, b.paths.insert id p⟩

def size (b : PathBook) : Nat := b.ids.size

/-- The id of a path that was interned before. -/
def find? (b : PathBook) (s : Store) (p : Path) : Option FileId :=
  let normal := p.normalize
  match b.ids.get? normal with
  | some id => some id
  | none => s.sourceId? normal.display

/-- The id of a path, issued now if there is none. -/
def intern (b : PathBook) (s : Store) (p : Path) : FileId × PathBook × Store :=
  let normal := p.normalize
  match b.ids.get? normal with
  | some id => (id, b, s)
  | none =>
      let s := s.addSource normal.display
      let id := (s.sourceId? normal.display).getD default
      (id, b.remember normal id, s)

def internAll (b : PathBook) (s : Store) : List Path -> List FileId × PathBook × Store
  | [] => ([], b, s)
  | p :: rest =>
      let (id, b, s) := b.intern s p
      let (ids, b, s) := b.internAll s rest
      (id :: ids, b, s)

/-- The path of an id. -/
def path? (b : PathBook) (s : Store) (id : FileId) : Option Path :=
  match b.paths.get? id with
  | some p => some p
  | none => (s.source? id).map Path.ofString

/-- The book after the path of an id was asked for. -/
def consult (b : PathBook) (s : Store) (id : FileId) : PathBook :=
  match b.paths.get? id with
  | some _ => b
  | none =>
      match s.source? id with
      | some text => b.remember (.ofString text) id
      | none => b

def resolve (b : PathBook) (s : Store) (id : FileId) : Except Failure Path × PathBook :=
  match b.path? s id with
  | some p => (.ok p, b.consult s id)
  | none => (.error (.unknownFile id), b)

end PathBook
end SymbolIndex
