/-!
# Syntax trees

Concrete syntax trees as a grammar delivers them: every node has a kind, the
range of bytes it covers, the row and column where it starts, and the fields under
which its parent knows it. A tree can be put together from its nodes in preorder
with their depths.
-/

namespace SymbolIndex

inductive Field where
  | name
  | declarator
  | body
  | type
deriving DecidableEq, Repr

namespace Field

def text : Field -> String
  | name => "name"
  | declarator => "declarator"
  | body => "body"
  | type => "type"

def all : List Field := [.name, .declarator, .body, .type]

def ofText? (s : String) : Option Field := all.find? fun field => field.text == s

end Field

structure NodeInfo where
  kind : String
  named : Bool
  start : Nat
  stop : Nat
  row : Nat
  column : Nat
  fields : List Field
deriving DecidableEq, Repr

inductive SyntaxTree where
  | node (info : NodeInfo) (children : List SyntaxTree)

namespace SyntaxTree

def info : SyntaxTree -> NodeInfo
  | node i _ => i

def children : SyntaxTree -> List SyntaxTree
  | node _ cs => cs

def kind (t : SyntaxTree) : String := t.info.kind

/-- The child that a field leads to. -/
def child? (t : SyntaxTree) (field : Field) : Option SyntaxTree :=
  t.children.find? fun c => c.info.fields.contains field

def hasField (t : SyntaxTree) (field : Field) : Bool := (t.child? field).isSome

theorem child?_mem {t c : SyntaxTree} {field : Field} (h : t.child? field = some c) :
    c ∈ t.children :=
  List.mem_of_find?_eq_some h

theorem sizeOf_child_lt {t c : SyntaxTree} (h : c ∈ t.children) : sizeOf c < sizeOf t := by
  cases t with
  | node i cs =>
      have := List.sizeOf_lt_of_mem h
      simp only [children] at this
      simp only [node.sizeOf_spec]
      omega

/-- The bytes that a node covers. -/
def slice (source : List UInt8) (t : SyntaxTree) : List UInt8 :=
  (source.drop t.info.start).take (t.info.stop - t.info.start)

/-!
# Trees from their nodes in preorder
-/

/-- Split off the nodes that lie deeper than `depth`. -/
def deeper (depth : Nat) (rows : List (Nat × NodeInfo)) : List (Nat × NodeInfo) :=
  rows.takeWhile fun r => decide (depth < r.1)

/-- The trees whose roots are the first node, and each later one that is not below the one before it. -/
def forest : Nat -> List (Nat × NodeInfo) -> List SyntaxTree
  | _, [] => []
  | 0, _ => []
  | fuel + 1, (depth, i) :: rest =>
      let below := deeper depth rest
      node i (forest fuel below) :: forest fuel (rest.drop below.length)

/-- The tree whose nodes, with their depths, are listed in preorder. -/
def ofPreorder? (rows : List (Nat × NodeInfo)) : Option SyntaxTree :=
  (forest rows.length rows).head?

end SyntaxTree
end SymbolIndex
