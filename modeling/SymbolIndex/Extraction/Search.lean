import SymbolIndex.Extraction

/-!
# The search for a name, look by look

The name of a definition is searched by looking at one node after another. A search that
began at the name field goes on through qualified names and then is over. One that began at
a declarator does the same from there, and where it ends in no name it begins again at the
declarator of that declarator.
-/

namespace SymbolIndex
namespace Extraction

/-- The node that a qualified name leads to. -/
def qualified? (t : SyntaxTree) : Option SyntaxTree :=
  if t.kind = "qualified_identifier" then t.child? .name else none

/-- Where the search for the name of a definition stands. -/
inductive Search where
  /-- At a node, with the declarator that the search began at, if it began at one. -/
  | looking (t : SyntaxTree) (declarator : Option SyntaxTree)
  | over (found : Option SyntaxTree)

namespace Search

/-- Begin at the declarator of a node, if it has one. -/
def declaratorOf (t : SyntaxTree) : Search :=
  match t.child? .declarator with
  | some d => .looking d (some d)
  | none => .over none

def start (t : SyntaxTree) : Search :=
  match t.child? .name with
  | some c => .looking c none
  | none => declaratorOf t

/-- Where to go on when no name was found from a declarator, or from a name field. -/
def turnBack : Option SyntaxTree -> Search
  | some d => declaratorOf d
  | none => .over none

/-- Look at one node. -/
def look : Search -> Search
  | .over found => .over found
  | .looking t declarator =>
      if isNameKind t.kind then .over (some t)
      else match qualified? t with
        | some c => .looking c declarator
        | none => turnBack declarator

end Search
end Extraction
end SymbolIndex
