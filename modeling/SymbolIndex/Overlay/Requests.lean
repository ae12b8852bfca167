import SymbolIndex.Overlay

/-!
# Requests to an overlay

Contents are set and removed, one request after the other. The clones of an overlay share
its contents, so that the requests to all of them are one sequence.

Changes are counted in a word of 64 bits. A build that checks its arithmetic breaks off a
request that would count past the last number, before anything is changed. A build that
does not check lets the count begin again.
-/

namespace SymbolIndex

inductive OverlayRequest where
  | insert (path : Path) (content : String)
  | remove (path : Path)
deriving DecidableEq

namespace OverlayRequest

def path : OverlayRequest -> Path
  | insert p _ => p
  | remove p => p

end OverlayRequest

/-- What becomes of a count that is full. -/
inductive Counting where
  | checked
  | wrapping
deriving DecidableEq

namespace Overlay

/-- Whether a request counts past the last number of a word. -/
def overflows (o : Overlay) : OverlayRequest -> Bool
  | .insert p content => !o.holds p content && o.revision + 1 == UInt64.size
  | .remove _ => false

/-- Whether a request changed anything; there is no answer when it was broken off. -/
def answer? (c : Counting) (o : Overlay) (r : OverlayRequest) : Option Bool :=
  if c = .checked ∧ o.overflows r then none
  else match r with
    | .insert p content => some (!o.holds p content)
    | .remove p => some (o.contains p)

def serve (c : Counting) (o : Overlay) (r : OverlayRequest) : Overlay :=
  if c = .checked ∧ o.overflows r then o
  else match r with
    | .insert p content => o.insert p content
    | .remove p => o.erase p

/-- The overlay after some requests. -/
def after (c : Counting) (o : Overlay) (requests : List OverlayRequest) : Overlay :=
  requests.foldl (serve c) o

/-- The requests that are answered. -/
def answered (c : Counting) (o : Overlay) : List OverlayRequest -> List OverlayRequest
  | [] => []
  | r :: rest =>
      if (o.answer? c r).isSome then r :: (o.serve c r).answered c rest
      else (o.serve c r).answered c rest

end Overlay
end SymbolIndex
