/-!
# File statuses

The size and the modification time of a file. Two contents of one file are told
apart by their statuses.
-/

namespace SymbolIndex

structure FileStatus where
  size : UInt64
  modified : Int64
deriving DecidableEq, Repr, Inhabited

namespace FileStatus

/--
The status of a file of `size` bytes whose time is given in nanoseconds; times before
the epoch count as the epoch.
-/
def ofFile (size : Nat) (nanoseconds : Int) : FileStatus :=
  ⟨UInt64.ofNat size, if nanoseconds < 0 then 0 else Int64.ofInt nanoseconds⟩

end FileStatus
end SymbolIndex
