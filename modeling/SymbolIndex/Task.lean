import SymbolIndex.FileId
import SymbolIndex.Part

/-!
# Indexing tasks

A task asks to index one file with the compile arguments of the part that owns it.
-/

namespace SymbolIndex

structure Task where
  file : FileId
  part : PartId
  arguments : List String
deriving DecidableEq, Repr

end SymbolIndex
