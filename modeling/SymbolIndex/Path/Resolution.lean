import SymbolIndex.Path

/-!
# Lexical resolution

Where a path leads, for a reader who looks at no disk. A `.` says nothing, and a `..`
takes back the nearest name before it that is not taken back yet. A `..` that finds no
such name leads up from where the path starts. Above the root there is nothing, so that
it says nothing in an absolute path.
-/

namespace SymbolIndex

/-- How far some components lead up from where they start, and the names they go down by. -/
structure Route where
  ups : Nat
  names : List (List UInt8)
deriving DecidableEq, Repr

namespace Route

/-- The route that begins with a name. A `..` that is left after the name takes it back. -/
def below (bytes : List UInt8) : Route -> Route
  | ⟨0, names⟩ => ⟨0, bytes :: names⟩
  | ⟨n + 1, names⟩ => ⟨n, names⟩

/-- The route that some components take. -/
def of : List Component -> Route
  | [] => ⟨0, []⟩
  | .up :: rest => ⟨(of rest).ups + 1, (of rest).names⟩
  | .name bytes :: rest => (of rest).below bytes
  | _ :: rest => of rest

/-- One route and then another one, which may take back names of the first. -/
def append (v w : Route) : Route :=
  ⟨v.ups + (w.ups - v.names.length), v.names.take (v.names.length - w.ups) ++ w.names⟩

def components (w : Route) : List Component := List.replicate w.ups .up ++ w.names.map .name

end Route

namespace Path

def route (p : Path) : Route := Route.of p.components

/-- The shortest spelling of where a path leads. -/
def resolved (p : Path) : Path :=
  ofComponents (if p.isAbsolute then .root :: p.route.names.map .name else p.route.components)

end Path

/-!
# Taking components away
-/

/-- One component that says nothing is left out, or one name and the `..` right after it. -/
inductive Cancels : List Component -> List Component -> Prop
  | here (before after : List Component) : Cancels (before ++ .here :: after) (before ++ after)
  | pair (before : List Component) (bytes : List UInt8) (after : List Component) :
      Cancels (before ++ .name bytes :: .up :: after) (before ++ after)
  | top (after : List Component) : Cancels (.root :: .up :: after) (.root :: after)

end SymbolIndex
