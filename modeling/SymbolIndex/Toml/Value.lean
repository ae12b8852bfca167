import SymbolIndex.Toml.Scalar

/-!
# Values and tables of TOML

Arrays, inline tables and the keys that lead into tables. A table remembers whether
it was only implied by a longer key and whether dots in a key made it: a table that
was written out is not written again, and dotted keys extend only tables that
dotted keys made.
-/

namespace SymbolIndex
namespace Toml

/-- What stands under a key while a document is being read. -/
inductive Item where
  | value (d : Data)
  | table (implied dotted : Bool) (fields : List (String × Item))
  | tables (members : List (List (String × Item)))

abbrev Fields := List (String × Item)

namespace Fields

def get? (key : String) : Fields -> Option Item
  | [] => none
  | (k, item) :: rest => if k = key then some item else get? key rest

def set (key : String) (item : Item) : Fields -> Fields
  | [] => [(key, item)]
  | (k, old) :: rest => if k = key then (key, item) :: rest else (k, old) :: set key item rest

def remove (key : String) (fields : Fields) : Fields := fields.filter fun e => e.1 != key

/--
Change the table that a path leads to, making implied tables on the way; `change` is
told whether dotted keys made the table. Through an array of tables the path goes on
in the last one.
-/
def descend (byDots : Bool) (change : Bool -> Fields -> Option Fields) :
    List String -> Bool -> Fields -> Option Fields
  | [], dotted, fields => change dotted fields
  | key :: path, _, fields =>
      match get? key fields with
      | none =>
          (descend byDots change path byDots []).map fun sub =>
            set key (.table true byDots sub) fields
      | some (.value _) => none
      | some (.tables members) =>
          match members.getLast? with
          | none => none
          | some last =>
              (descend byDots change path false last).map fun sub =>
                set key (.tables (members.dropLast ++ [sub])) fields
      | some (.table implied dotted sub) =>
          if byDots && !implied then none
          else (descend byDots change path dotted sub).map fun sub' =>
            set key (.table implied dotted sub') fields

/-- One more pair with a dotted key; a key that is there already is refused. -/
def define? (path : List String) (key : String) (d : Data) (fields : Fields) : Option Fields :=
  descend true
    (fun dotted sub =>
      if dotted == path.isEmpty then none
      else match get? key sub with
        | some _ => none
        | none => some (sub ++ [(key, .value d)]))
    path false fields

end Fields

mutual

def Item.toData : Item -> Data
  | .value d => d
  | .table _ _ fields => .record (fieldsToData fields)
  | .tables members => .list (membersToData members)

def fieldsToData : List (String × Item) -> List (String × Data)
  | [] => []
  | (key, item) :: rest => (key, item.toData) :: fieldsToData rest

def membersToData : List (List (String × Item)) -> List Data
  | [] => []
  | fields :: rest => .record (fieldsToData fields) :: membersToData rest

end

/-!
# Keys
-/

def isBareKeyChar (c : Char) : Bool := c.isAlphanum || c == '_' || c == '-'

def simpleKey? (cs : List Char) : Option (String × List Char) :=
  match cs with
  | '"' :: rest => (basicBody (rest.length + 1) rest).map fun r => (String.ofList r.1, r.2)
  | '\'' :: rest => (literalBody rest).map fun r => (String.ofList r.1, r.2)
  | _ =>
      let name := cs.takeWhile isBareKeyChar
      if name.isEmpty then none else some (String.ofList name, cs.drop name.length)

/-- The parts of a dotted key; blanks may stand around each part. -/
def dottedKey? : Nat -> List Char -> Option (List String × List Char)
  | 0, _ => none
  | fuel + 1, cs =>
      match simpleKey? (skipSpaces cs) with
      | none => none
      | some (key, rest) =>
          match skipSpaces rest with
          | '.' :: more => (dottedKey? fuel more).map fun r => (key :: r.1, r.2)
          | after => some ([key], after)

/-- How deep values and keys may be nested. -/
def depthLimit : Nat := 80

def key? (cs : List Char) : Option (List String × List Char) :=
  match dottedKey? (cs.length + 1) cs with
  | some (path, rest) => if path.length < depthLimit then some (path, rest) else none
  | none => none

/-!
# Arrays and inline tables
-/

mutual

/-- A value with at most `depth` arrays and tables around one another. -/
def value? : Nat -> Nat -> List Char -> Option (Data × List Char)
  | 0, _, _ => none
  | fuel + 1, depth, cs =>
      match cs with
      | '[' :: rest =>
          match depth with
          | 0 => none
          | depth + 1 => (items? fuel depth rest).map fun r => (.list r.1, r.2)
      | '\x7b' :: rest =>
          match depth with
          | 0 => none
          | depth + 1 =>
              match skipSpaces rest with
              | '\x7d' :: more => some (.record [], more)
              | _ => (pairs? fuel depth [] rest).map fun r => (.record (fieldsToData r.1), r.2)
      | c :: _ =>
          if c = '"' || c = '\'' then (string? cs).map fun r => (.text r.1, r.2)
          else
            let token := takeToken cs
            (scalar? token.1).map fun d => (d, token.2)
      | [] => none

/-- The items of an array up to its closing bracket; a comma may stand after the last one. -/
def items? : Nat -> Nat -> List Char -> Option (List Data × List Char)
  | 0, _, _ => none
  | fuel + 1, depth, cs =>
      match skipBlankLines cs.length cs with
      | ']' :: rest => some ([], rest)
      | start =>
          match value? fuel depth start with
          | none => none
          | some (d, rest) =>
              match skipBlankLines rest.length rest with
              | ',' :: more => (items? fuel depth more).map fun r => (d :: r.1, r.2)
              | ']' :: more => some ([d], more)
              | _ => none

/-- The pairs of an inline table up to its closing brace. -/
def pairs? : Nat -> Nat -> Fields -> List Char -> Option (Fields × List Char)
  | 0, _, _, _ => none
  | fuel + 1, depth, fields, cs =>
      match key? cs with
      | some (path, '=' :: rest) =>
          match value? fuel depth (skipSpaces rest) with
          | none => none
          | some (d, rest) =>
              match path.getLast?.bind fun key => fields.define? path.dropLast key d with
              | none => none
              | some fields =>
                  match skipSpaces rest with
                  | ',' :: more => pairs? fuel depth fields more
                  | '\x7d' :: more => some (fields, more)
                  | _ => none
      | _ => none

end

end Toml
end SymbolIndex
