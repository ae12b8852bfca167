import SymbolIndex.Data.Rows
import SymbolIndex.Disk
import SymbolIndex.Json.Writer

/-!
# Archives

A store kept in a file: a line that says what the file is, then the store as data. An
empty file is an empty store, and any other file is refused. Two paths name no file but
a store that is gone when it is closed.
-/

namespace SymbolIndex
namespace Store

def archiveHeader : String := "symbol index 1\n"

def archive (s : Store) : List UInt8 :=
  Text.bytesOf (archiveHeader ++ Json.compact (toData s))

def ofArchive? (bytes : List UInt8) : Option Store :=
  if bytes.isEmpty then some empty
  else do
    let text ← Text.ofBytes? bytes
    let body ← Text.stripFront archiveHeader text
    let data ← Json.read? body
    ofData? data

/-- Paths of stores that are not kept. -/
def isFleeting (p : Path) : Bool := p.isEmpty || p.text? == some ":memory:"

/-- Keep a store in a file. -/
def save (s : Store) (d : Disk) (p : Path) : Except Failure Disk :=
  if isFleeting p then .ok d
  else match d.write p s.archive 0 with
    | .ok d => .ok d
    | .error _ => .error (.storage (.cannotOpen p))

/-- Open a store, which is made where there is none. -/
def openAt (d : Disk) (p : Path) : Except Failure (Store × Disk) :=
  if isFleeting p then .ok (empty, d)
  else match d.read p with
    | .ok bytes =>
        match ofArchive? bytes with
        | some s => .ok (s, d)
        | none => .error (.storage .notADatabase)
    | .error .notFound => (empty.save d p).map fun d => (empty, d)
    | .error _ => .error (.storage (.cannotOpen p))

end Store
end SymbolIndex
