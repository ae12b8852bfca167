import SymbolIndex.Text.Utf8

/-!
# Paths

A path is a string of bytes in which a slash separates names. What it means is
its list of components: repeated slashes, a slash at the end and `.` names say
nothing, except a `.` at the very front of a relative path. Two spellings are the
`same` path when their components agree.

The normal form of a path folds its components without looking at any disk: `.` is
dropped, and `..` takes away the component before it. With nothing to take away,
at the front of a relative path or right after the root, `..` is kept.
-/

namespace SymbolIndex

structure Path where
  bytes : List UInt8
deriving DecidableEq, Repr

/-- One step of a path. -/
inductive Component where
  | root
  | here
  | up
  | name (bytes : List UInt8)
deriving DecidableEq, Repr

namespace Path

def slash : UInt8 := 0x2f

def dot : UInt8 := 0x2e

def ofString (s : String) : Path := ⟨Text.bytesOf s⟩

instance : Inhabited Path := ⟨⟨[]⟩⟩

/-- The path as text, when it is text. -/
def text? (p : Path) : Option String := Text.ofBytes? p.bytes

/-- The path as shown in messages. -/
def display (p : Path) : String := Text.ofBytesLossy p.bytes

theorem display_ofString (s : String) : (ofString s).display = s :=
  Text.ofBytesLossy_bytesOf s

theorem ofString_display_of_text? {p : Path} {s : String} (h : p.text? = some s) :
    ofString p.display = p := by
  have hb : Text.bytesOf s = p.bytes := Text.bytesOf_of_ofBytes? h
  have hd : p.display = s := by
    simp only [text?] at h
    simp [display, Text.ofBytesLossy, h]
  rw [hd, ofString, hb]

def isEmpty (p : Path) : Bool := p.bytes.isEmpty

/-- A path is absolute when a slash stands in front. -/
def isAbsolute (p : Path) : Bool := p.bytes.head? == some slash

def isRelative (p : Path) : Bool := !p.isAbsolute

/-!
# Components
-/

/-- The pieces between the slashes, empty ones included. -/
def pieces : List UInt8 -> List (List UInt8)
  | [] => [[]]
  | b :: rest =>
      if b = slash then [] :: pieces rest
      else match pieces rest with
        | [] => [[b]]
        | piece :: more => (b :: piece) :: more

/-- The bytes of the pieces with a slash between any two. -/
def joined : List (List UInt8) -> List UInt8
  | [] => []
  | [piece] => piece
  | piece :: more => piece ++ slash :: joined more

theorem pieces_ne_nil (bytes : List UInt8) : pieces bytes ≠ [] := by
  cases bytes with
  | nil => simp [pieces]
  | cons b rest =>
      rw [pieces]
      split
      · simp
      · split <;> simp

theorem joined_pieces (bytes : List UInt8) : joined (pieces bytes) = bytes := by
  induction bytes with
  | nil => rfl
  | cons b rest ih =>
      rw [pieces]
      split
      · rename_i h
        cases hp : pieces rest with
        | nil => exact absurd hp (pieces_ne_nil rest)
        | cons piece more =>
            rw [hp] at ih
            simp [joined, ih, h]
      · cases hp : pieces rest with
        | nil => exact absurd hp (pieces_ne_nil rest)
        | cons piece more =>
            rw [hp] at ih
            cases more with
            | nil => simp_all [joined]
            | cons second more =>
                simp only [joined, List.cons_append]
                simp only [joined] at ih
                rw [ih]

def isDot (piece : List UInt8) : Bool := piece == [dot]

def isDotDot (piece : List UInt8) : Bool := piece == [dot, dot]

/-- Pieces that say nothing: the empty one and `.`. -/
def isIdle (piece : List UInt8) : Bool := piece.isEmpty || isDot piece

/-- The component that a piece names. -/
def componentOf (piece : List UInt8) : Option Component :=
  if isIdle piece then none
  else if isDotDot piece then some .up
  else some (.name piece)

def components (p : Path) : List Component :=
  match pieces p.bytes with
  | [] => []
  | first :: more =>
      let names := more.filterMap componentOf
      if p.isAbsolute then .root :: names
      else if isDot first then .here :: names
      else (componentOf first).toList ++ names

/-- Whether two spellings have the same components. -/
def same (p q : Path) : Bool := decide (p.components = q.components)

/-- The canonical spelling of a list of components. -/
def ofComponents (cs : List Component) : Path :=
  let spell : Component -> List UInt8
    | .root => []
    | .here => [dot]
    | .up => [dot, dot]
    | .name bytes => bytes
  match cs with
  | [.root] => ⟨[slash]⟩
  | _ => ⟨joined (cs.map spell)⟩

/-!
# The normal form
-/

/-- One more component on a path whose components are given last first. -/
def pushComponent : List Component -> Component -> List Component
  | _, .root => [.root]
  | out, .here => out
  | out, .name bytes => .name bytes :: out
  | [], .up => [.up]
  | [.root], .up => [.up, .root]
  | _ :: out, .up => out

def foldComponents (cs : List Component) : List Component :=
  (cs.foldl pushComponent []).reverse

def normalize (p : Path) : Path := ofComponents (foldComponents p.components)

/-!
# Parents, names and joining
-/

/-- The front of a path that is no name: the slash of the root or a leading `.`. -/
def frontAndRegion (p : Path) : Option Component × List UInt8 :=
  if p.isAbsolute then (some .root, p.bytes.drop 1)
  else match pieces p.bytes with
    | first :: _ => if isDot first then (some .here, p.bytes.drop 1) else (none, p.bytes)
    | [] => (none, p.bytes)

/-- The path without its last component; a root and an empty path have no parent. -/
def parent (p : Path) : Option Path :=
  let (front, region) := p.frontAndRegion
  let head : List UInt8 := match front with
    | some .root => [slash]
    | some .here => [dot]
    | _ => []
  match (pieces region).reverse.dropWhile isIdle with
  | _ :: before => some ⟨head ++ joined (before.dropWhile isIdle).reverse⟩
  | [] => if front = some .here then some ⟨[]⟩ else none

/-- `q` seen from `p`: an absolute `q` stays as it is. -/
def join (p q : Path) : Path :=
  if q.isAbsolute then q
  else if p.isEmpty || p.bytes.getLast? == some slash then ⟨p.bytes ++ q.bytes⟩
  else ⟨p.bytes ++ slash :: q.bytes⟩

/-- The last component, when it is a name. -/
def fileName (p : Path) : Option (List UInt8) :=
  match p.components.getLast? with
  | some (.name bytes) => some bytes
  | _ => none

/-- What follows the last dot of a name, when something stands before that dot. -/
def extensionOf (name : List UInt8) : Option (List UInt8) :=
  let back := name.reverse
  let after := back.takeWhile (fun b => b != dot)
  match back.drop after.length with
  | _ :: before => if before.isEmpty then none else some after.reverse
  | [] => none

def extension (p : Path) : Option (List UInt8) := p.fileName.bind extensionOf

/--
The absolute path that `p` means in the directory `base`. Components that say
nothing go away, `..` stays, and a slash at the end or exactly two at the front are
kept.
-/
def absoluteIn (base p : Path) : Path :=
  let cs := p.components
  let twoSlashes := p.bytes.take 2 == [slash, slash] && (p.bytes.drop 2).head? != some slash
  let start : Path :=
    if p.isAbsolute then (if twoSlashes then ⟨[slash, slash]⟩ else ⟨[]⟩) else base
  let rest := match cs with
    | .root :: more => if twoSlashes then more else cs
    | .here :: more => more
    | _ => cs
  let built := rest.foldl (fun q c => q.join (ofComponents [c])) start
  if p.bytes.getLast? == some slash then built.join ⟨[]⟩ else built

end Path
end SymbolIndex
