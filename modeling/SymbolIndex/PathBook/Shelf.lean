import SymbolIndex.PathBook

/-!
# Path books over one store

Any number of path books over one store, and requests to them one after the other. A
book may be made anew at any time. When the store is opened again every book is empty,
and the store is as it was.
-/

namespace SymbolIndex

inductive BookRequest where
  | create (n : Nat)
  | reopen
  | intern (n : Nat) (path : Path)
  | internAll (n : Nat) (paths : List Path)
  | find (n : Nat) (path : Path)
  | resolve (n : Nat) (id : FileId)

inductive BookAnswer where
  | done
  | id (id : FileId)
  | ids (ids : List FileId)
  | found (id : Option FileId)
  | path (answer : Except Failure Path)

namespace BookRequest

/-- The paths that a request names. -/
def paths : BookRequest -> List Path
  | intern _ p => [p]
  | internAll _ ps => ps
  | find _ p => [p]
  | _ => []

/-- Which id was issued for which path, when a request is answered. -/
def issued : BookRequest -> BookAnswer -> List (Path × FileId)
  | intern _ p, .id id => [(p, id)]
  | internAll _ ps, .ids ids => ps.zip ids
  | _, _ => []

end BookRequest

/-- A store and its books. A book that nobody used is empty. -/
structure Shelf where
  store : Store
  book : Nat -> PathBook

namespace Shelf

def new : Shelf := ⟨.empty, fun _ => .empty⟩

/-- Put a book in the place of the `n`th one. -/
def put (s : Shelf) (n : Nat) (b : PathBook) (store : Store) : Shelf :=
  ⟨store, fun m => if m = n then b else s.book m⟩

def serve (s : Shelf) : BookRequest -> BookAnswer × Shelf
  | .create n => (.done, s.put n .empty s.store)
  | .reopen => (.done, ⟨s.store, fun _ => .empty⟩)
  | .intern n p =>
      let (id, b, store) := (s.book n).intern s.store p
      (.id id, s.put n b store)
  | .internAll n ps =>
      let (ids, b, store) := (s.book n).internAll s.store ps
      (.ids ids, s.put n b store)
  | .find n p => (.found ((s.book n).find? s.store p), s)
  | .resolve n id =>
      let (answer, b) := (s.book n).resolve s.store id
      (.path answer, s.put n b s.store)

def answer (s : Shelf) (r : BookRequest) : BookAnswer := (s.serve r).1

/-- The shelf after some requests. -/
def after (s : Shelf) : List BookRequest -> Shelf
  | [] => s
  | r :: rest => (s.serve r).2.after rest

/-- The ids that some requests were answered, each with its path, in the order of the answers. -/
def log (s : Shelf) : List BookRequest -> List (Path × FileId)
  | [] => []
  | r :: rest => r.issued (s.answer r) ++ (s.serve r).2.log rest

end Shelf
end SymbolIndex
