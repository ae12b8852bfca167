import SymbolIndex.Language
import SymbolIndex.SyntaxTree

/-!
# Symbols of a syntax tree

Going through a tree in preorder, a node that defines a symbol contributes a
defining location; its key is qualified by the definitions and scopes around it.
After all definitions, every other identifier whose text is the name of a
definition contributes a reference to the first symbol defined under that name.
-/

namespace SymbolIndex
namespace Extraction

/-!
# The name of a definition
-/

/-- Node kinds that are names by themselves. -/
def isNameKind (kind : String) : Bool :=
  ["identifier", "type_identifier", "field_identifier", "namespace_identifier",
   "property_identifier", "destructor_name", "operator_name"].contains kind

/-- The name at the end of a chain of qualified names. -/
def innermostName (t : SyntaxTree) : Option SyntaxTree :=
  if isNameKind t.kind then some t
  else if t.kind = "qualified_identifier" then
    match _h : t.child? .name with
    | some c => innermostName c
    | none => none
  else none
termination_by sizeOf t
decreasing_by exact SyntaxTree.sizeOf_child_lt (SyntaxTree.child?_mem _h)

/-- The first name along a chain of declarators. -/
def declaredName (t : SyntaxTree) : Option SyntaxTree :=
  match innermostName t with
  | some name => some name
  | none =>
      match _h : t.child? .declarator with
      | some c => declaredName c
      | none => none
termination_by sizeOf t
decreasing_by exact SyntaxTree.sizeOf_child_lt (SyntaxTree.child?_mem _h)

/-- The node that names a definition; the declarators count only where no name is given. -/
def definitionName (t : SyntaxTree) : Option SyntaxTree :=
  match t.child? .name with
  | some name => innermostName name
  | none => (t.child? .declarator).bind declaredName

/-!
# Definitions
-/

/-- A language together with the bytes of a source text. -/
structure Source where
  language : Language
  bytes : List UInt8

/-- A definition found in a tree. -/
structure Definition where
  usr : String
  kind : SymbolKind
  name : String
  start : Nat
  line : UInt32
  column : UInt32
deriving DecidableEq, Repr

def Definition.symbol (d : Definition) : CollectedSymbol := ⟨d.usr, d.kind, d.name⟩

namespace Source

def textOf (s : Source) (t : SyntaxTree) : Option String := Text.ofBytes? (t.slice s.bytes)

def qualifiedKey (language : Language) (scope : List String) (name : String) : String :=
  language.usrPrefix ++ ":" ++ String.intercalate "::" (scope ++ [name])

/-- Rows and columns count from zero, lines and columns of locations from one. -/
def position (n : Nat) : UInt32 := UInt32.ofNat n + 1

/-- The definition that a node makes, if it makes one, inside the given scopes. -/
def definitionAt (s : Source) (scope : List String) (t : SyntaxTree) : Option Definition :=
  match s.language.definitionKind t.kind with
  | none => none
  | some kind =>
      if Language.requiresBody t.kind && !t.hasField .body then none
      else match definitionName t with
        | none => none
        | some nameNode =>
            match s.textOf nameNode with
            | none => none
            | some name =>
                some ⟨qualifiedKey s.language scope name, kind, name, nameNode.info.start,
                  position nameNode.info.row, position nameNode.info.column⟩

/-- The name of the scope that a node opens without defining a symbol. -/
def scopeAt (s : Source) (t : SyntaxTree) : Option String :=
  if s.language.opensScope t.kind then (t.child? .type).bind s.textOf else none

/-- The scopes inside a node. -/
def scopeBelow (s : Source) (scope : List String) (t : SyntaxTree) : List String :=
  match s.definitionAt scope t with
  | some d => scope ++ [d.name]
  | none =>
      match s.scopeAt t with
      | some name => scope ++ [name]
      | none => scope

mutual

/-- The definitions in a list of trees, in preorder; only named nodes count. -/
def definitionsIn (s : Source) (scope : List String) : List SyntaxTree -> List Definition
  | [] => []
  | t :: rest =>
      (if t.info.named then definitionsOf s scope t else []) ++ definitionsIn s scope rest

def definitionsOf (s : Source) (scope : List String) : SyntaxTree -> List Definition
  | .node i cs =>
      (s.definitionAt scope (.node i cs)).toList
        ++ definitionsIn s (s.scopeBelow scope (.node i cs)) cs

end

/-!
# References
-/

mutual

/-- The named nodes of a tree in preorder, its root first. -/
def namedNodes : SyntaxTree -> List SyntaxTree
  | .node i cs => .node i cs :: namedNodesIn cs

def namedNodesIn : List SyntaxTree -> List SyntaxTree
  | [] => []
  | t :: rest => (if t.info.named then namedNodes t else []) ++ namedNodesIn rest

end

/-- The results with one defining location for each definition. -/
def defineAll (ds : List Definition) : Results :=
  ds.foldl (fun r d => r.define d.symbol d.line d.column) Results.empty

/-- The symbol that an identifier refers to: the first one defined under its text. -/
def referenceOf (s : Source) (ds : List Definition) (r : Results) (t : SyntaxTree) : Option Nat :=
  if !Language.isIdentifier t.kind || ds.any (fun d => d.start == t.info.start) then none
  else match s.textOf t with
    | none => none
    | some name => (ds.find? fun d => d.name == name).bind fun d => r.symbolIndex d.usr

/-- The symbols of a source text with its syntax tree. -/
def collect (s : Source) (root : SyntaxTree) : Results :=
  let ds := s.definitionsIn [] root.children
  let defined := defineAll ds
  let references := (namedNodes root).filterMap fun t =>
    (s.referenceOf ds defined t).map fun index =>
      (⟨index, position t.info.row, position t.info.column, .reference⟩ : CollectedLocation)
  { defined with locations := defined.locations ++ references }

end Source
end Extraction
end SymbolIndex
