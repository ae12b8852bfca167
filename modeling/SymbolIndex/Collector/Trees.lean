import SymbolIndex.Collector
import SymbolIndex.Data.Form

/-!
# Recorded trees

Syntax trees as data: the list of their nodes in preorder, each node the list of its
depth, whether it is named, its kind, the bytes where it starts and stops, the row and
column where it starts, and its fields with commas between them. A grammar may consist
of recorded trees alone.
-/

namespace SymbolIndex

/-- A node with its depth. -/
def NodeInfo.ofRow? : Data -> Option (Nat × NodeInfo)
  | .list [depth, named, kind, start, stop, row, column, fields] => do
      let named : Nat ← ofData? named
      let fields : String ← ofData? fields
      pure (← ofData? depth,
        { kind := ← ofData? kind
          named := named == 1
          start := ← ofData? start
          stop := ← ofData? stop
          row := ← ofData? row
          column := ← ofData? column
          fields := (fields.splitOn ",").filterMap Field.ofText? })
  | _ => none

def SyntaxTree.ofData? (d : Data) : Option SyntaxTree := do
  let nodes ← (← d.asList?).mapM NodeInfo.ofRow?
  SyntaxTree.ofPreorder? nodes

namespace Grammar

/-- The grammar that knows some texts and their trees. -/
def ofTrees (known : List (Language × String × SyntaxTree)) : Grammar :=
  fun language source =>
    (known.find? fun entry => entry.1 == language && entry.2.1 == source).map fun entry => entry.2.2

end Grammar
end SymbolIndex
