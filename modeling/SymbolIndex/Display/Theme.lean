/-!
# Themes

The styles of the texts in the output of a command, by the role that a text plays. A
style is the list of its terminal codes. Colours and emoji are for terminals only, and
a plain theme has neither.
-/

namespace SymbolIndex

/-- The codes that a terminal is told before a text. -/
structure Style where
  codes : List Nat
deriving DecidableEq, Repr

namespace Style

def plain : Style := ⟨[]⟩

def bold : Style := ⟨[1]⟩

def control (codes : List Nat) : String :=
  "\x1b[" ++ String.intercalate ";" (codes.map toString) ++ "m"

/-- A text in a style; a style without codes leaves the text as it is. -/
def apply (s : Style) (text : String) : String :=
  if s.codes.isEmpty then text else control s.codes ++ text ++ control [0]

end Style

structure Theme where
  heading : Style
  ok : Style
  failure : Style
  caution : Style
  label : Style
  faint : Style
  aside : Style
  symbol : Style
  path : Style
  emoji : Bool
deriving DecidableEq, Repr

namespace Theme

def plain : Theme :=
  { heading := .plain
    ok := .plain
    failure := .plain
    caution := .plain
    label := .plain
    faint := .plain
    aside := .plain
    symbol := .plain
    path := .plain
    emoji := false }

def colored : Theme :=
  { heading := ⟨[36, 1]⟩
    ok := ⟨[32, 1]⟩
    failure := ⟨[31, 1]⟩
    caution := ⟨[33, 1]⟩
    label := ⟨[35]⟩
    faint := ⟨[37, 2]⟩
    aside := ⟨[90]⟩
    symbol := .bold
    path := ⟨[34]⟩
    emoji := true }

/-- The style of each role. -/
def roles (t : Theme) : List (String × Style) :=
  [("heading", t.heading), ("ok", t.ok), ("failure", t.failure), ("caution", t.caution),
   ("label", t.label), ("faint", t.faint), ("aside", t.aside), ("symbol", t.symbol), ("path", t.path)]

/-- Colours are for a terminal that has not been asked to do without. -/
def forOutput (isTerminal noColor : Bool) : Theme :=
  if isTerminal && !noColor then colored else plain

end Theme
end SymbolIndex
