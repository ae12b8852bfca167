/-!
# File ids

Every source path is known by a number, issued once and never changed.
-/

namespace SymbolIndex

structure FileId where
  number : Int
deriving DecidableEq, Repr, Inhabited

namespace FileId

def display (id : FileId) : String := "#" ++ toString id.number

def le (a b : FileId) : Bool := decide (a.number ≤ b.number)

/-- The ids in ascending order, each once. -/
def ascending (ids : List FileId) : List FileId := (ids.mergeSort le).eraseDups

end FileId
end SymbolIndex
