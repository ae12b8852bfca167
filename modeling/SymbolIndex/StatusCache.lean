import SymbolIndex.FileId
import SymbolIndex.FileStatus
import SymbolIndex.Table

/-!
# Status caches

The status in which each file was last seen. Every look at a file replaces what the
cache says about it, and a file that cannot be seen is forgotten.
-/

namespace SymbolIndex

structure StatusCache where
  entries : Table FileId FileStatus
deriving DecidableEq

namespace StatusCache

def empty : StatusCache := ⟨∅⟩

def cached? (c : StatusCache) (id : FileId) : Option FileStatus := c.entries.get? id

/-- What was just seen of a file. -/
def note (c : StatusCache) (id : FileId) : Option FileStatus -> StatusCache
  | some status => ⟨c.entries.insert id status⟩
  | none => ⟨c.entries.erase id⟩

def forget (c : StatusCache) (ids : List FileId) : StatusCache := ⟨c.entries.eraseAll ids⟩

def size (c : StatusCache) : Nat := c.entries.size

end StatusCache
end SymbolIndex
