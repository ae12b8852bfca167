import SymbolIndex.Toml.Value

/-!
# Documents of TOML

A document is a sequence of lines: pairs, and headers that say into which table the
pairs after them go. A table is put in its place when the next header begins.
-/

namespace SymbolIndex
namespace Toml

/-- The document read so far and the table that pairs go into. -/
structure Reading where
  root : Fields
  current : Fields
  path : List String
  inArray : Bool

namespace Reading

def start : Reading := ⟨[], [], [], false⟩

/-- Add a member to the array of tables under `key`. -/
def addMember (key : String) (member : Fields) (parent : Fields) : Option Fields :=
  match parent.get? key with
  | none => some (parent ++ [(key, .tables [member])])
  | some (.tables members) => some (parent.set key (.tables (members ++ [member])))
  | some _ => none

def addTable (key : String) (table : Fields) (parent : Fields) : Option Fields :=
  match parent.get? key with
  | none => some (parent ++ [(key, .table false false table)])
  | some _ => none

/-- Put the current table in its place. -/
def close? (r : Reading) : Option Fields :=
  match r.path.getLast? with
  | none => some r.current
  | some key =>
      let add := if r.inArray then addMember key r.current else addTable key r.current
      Fields.descend false (fun _ parent => add parent) r.path.dropLast false r.root

/-- The table under `key` as a header finds it: a table that was only implied is taken up. -/
def takeImplied (key : String) (parent : Fields) : Option Fields :=
  match parent.get? key with
  | none => some []
  | some (.table true false fields) => some fields
  | some _ => none

/-- The table at a path whose parents are there. -/
def parentAt? : List String -> Fields -> Option Fields
  | [], fields => some fields
  | key :: path, fields =>
      match fields.get? key with
      | some (.table _ _ sub) => parentAt? path sub
      | some (.tables members) => members.getLast?.bind (parentAt? path)
      | _ => none

def openTable? (r : Reading) (path : List String) : Option Reading := do
  let root ← r.close?
  let key ← path.getLast?
  let root ← Fields.descend false (fun _ parent => some parent) path.dropLast false root
  let parent ← parentAt? path.dropLast root
  let taken ← takeImplied key parent
  let root ← Fields.descend false (fun _ parent => some (parent.remove key)) path.dropLast false root
  pure ⟨root, taken, path, false⟩

def openMember? (r : Reading) (path : List String) : Option Reading := do
  let root ← r.close?
  let key ← path.getLast?
  let root ← Fields.descend false
    (fun _ parent =>
      match parent.get? key with
      | none => some (parent ++ [(key, .tables [])])
      | some (.tables _) => some parent
      | some _ => none)
    path.dropLast false root
  pure ⟨root, [], path, true⟩

def pair? (r : Reading) (path : List String) (d : Data) : Option Reading := do
  let key ← path.getLast?
  let current ← r.current.define? path.dropLast key d
  pure { r with current }

end Reading

/-- One header or pair, up to the end of its line. -/
def statement? (r : Reading) (cs : List Char) : Option (Reading × List Char) :=
  match cs with
  | '[' :: '[' :: rest => do
      let (path, rest) ← key? rest
      match rest with
      | ']' :: ']' :: rest => do
          let r ← r.openMember? path
          let rest ← lineEnd? rest
          pure (r, rest)
      | _ => none
  | '[' :: rest => do
      let (path, rest) ← key? rest
      match rest with
      | ']' :: rest => do
          let r ← r.openTable? path
          let rest ← lineEnd? rest
          pure (r, rest)
      | _ => none
  | _ => do
      let (path, rest) ← key? cs
      match rest with
      | '=' :: rest => do
          let (d, rest) ← value? (2 * rest.length + 2) (depthLimit - 1) (skipSpaces rest)
          let r ← r.pair? path d
          let rest ← lineEnd? rest
          pure (r, rest)
      | _ => none

def statements? : Nat -> Reading -> List Char -> Option Reading
  | 0, _, _ => none
  | fuel + 1, r, cs =>
      match skipSpaces cs with
      | [] => some r
      | '#' :: rest => (lineEnd? ('#' :: rest)).bind (statements? fuel r)
      | start =>
          match newline? start with
          | some rest => statements? fuel r rest
          | none => (statement? r start).bind fun s => statements? fuel s.1 s.2

/-- A mark of the byte order in front of a text says nothing. -/
def dropByteOrderMark : List Char -> List Char
  | '\uFEFF' :: rest => rest
  | cs => cs

/-- The fields of a document. -/
def document? (text : String) : Option (List (String × Data)) :=
  let cs := dropByteOrderMark text.toList
  match statements? (cs.length + 1) Reading.start cs with
  | none => none
  | some r => r.close?.map fieldsToData

end Toml
end SymbolIndex
