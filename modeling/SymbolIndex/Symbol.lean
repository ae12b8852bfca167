import SymbolIndex.Failure
import SymbolIndex.Text.Chars

/-!
# Symbols and locations

The symbols of every language fall into four kinds. A collector reports the
symbols of one file and the places where they are defined or referred to; a
location names its symbol by the symbol's place in the list.
-/

namespace SymbolIndex

inductive SymbolKind where
  | nameSpace
  | container
  | callable
  | value
deriving DecidableEq, Repr

namespace SymbolKind

def all : List SymbolKind := [.nameSpace, .container, .callable, .value]

def text : SymbolKind -> String
  | .nameSpace => "namespace"
  | .container => "container"
  | .callable => "callable"
  | .value => "value"

/-- The words that name each kind. -/
def words : SymbolKind -> List String
  | .nameSpace => ["namespace", "ns", "module", "package"]
  | .container => ["container", "class", "struct", "enum", "trait", "union"]
  | .callable => ["callable", "function", "method", "fn", "def"]
  | .value => ["value", "field", "variable", "var", "const", "macro"]

/-- The kind that a word names, in letters of either case. -/
def ofText? (s : String) : Option SymbolKind :=
  let word := Text.fold s
  all.find? fun kind => kind.words.contains word

def ofText (s : String) : Except Failure SymbolKind :=
  match ofText? s with
  | some kind => .ok kind
  | none => .error (.config (unknownKindText s))

end SymbolKind

inductive Role where
  | definition
  | reference
deriving DecidableEq, Repr

namespace Role

def text : Role -> String
  | definition => "definition"
  | reference => "reference"

def ofText? (s : String) : Option Role :=
  if s = "definition" || s = "def" then some definition
  else if s = "reference" || s = "ref" then some reference
  else none

def ofText (s : String) : Except Failure Role :=
  match ofText? s with
  | some role => .ok role
  | none => .error (.config (unknownRoleText s))

theorem ofText?_text (role : Role) : ofText? role.text = some role := by
  cases role <;> rfl

end Role

structure CollectedSymbol where
  usr : String
  kind : SymbolKind
  name : String
deriving DecidableEq, Repr

/-- A place in the file; lines and columns count from one. -/
structure CollectedLocation where
  symbol : Nat
  line : UInt32
  column : UInt32
  role : Role
deriving DecidableEq, Repr

/-- What a collector reports about one file. -/
structure Results where
  symbols : List CollectedSymbol
  locations : List CollectedLocation
deriving DecidableEq, Repr

namespace Results

def empty : Results := ⟨[], []⟩

instance : Inhabited Results := ⟨empty⟩

def isEmpty (r : Results) : Bool := r.symbols.isEmpty

/-- The place of the first symbol with the key `usr`. -/
def symbolIndex (r : Results) (usr : String) : Option Nat :=
  r.symbols.findIdx? fun s => s.usr == usr

def addLocation (r : Results) (symbol : Nat) (line column : UInt32) (role : Role) : Results :=
  { r with locations := r.locations ++ [⟨symbol, line, column, role⟩] }

/-- One more defining location; the symbol is added unless its key is there already. -/
def define (r : Results) (symbol : CollectedSymbol) (line column : UInt32) : Results :=
  match r.symbolIndex symbol.usr with
  | some index => r.addLocation index line column .definition
  | none =>
      let r' : Results := { r with symbols := r.symbols ++ [symbol] }
      r'.addLocation r.symbols.length line column .definition

end Results
end SymbolIndex
