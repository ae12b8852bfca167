/-!
# Structured data

Values as they come from a text format or go to one: nothing, truth values,
numbers, texts, lists and records. Numbers that are not whole and dates keep their
spelling, since nothing here computes with them.
-/

namespace SymbolIndex

inductive Data where
  | null
  | boolean (b : Bool)
  | integer (n : Int)
  | real (spelling : String)
  | date (spelling : String)
  | text (s : String)
  | list (items : List Data)
  | record (fields : List (String × Data))

namespace Data

/-- Whether a number fits a signed word of 64 bits. -/
def isWord (n : Int) : Bool := decide (-0x8000000000000000 ≤ n) && decide (n < 0x8000000000000000)

def asText? : Data -> Option String
  | text s => some s
  | _ => none

def asInt? : Data -> Option Int
  | integer n => some n
  | _ => none

/-- A number that is not negative. -/
def asNat? : Data -> Option Nat
  | integer n => if 0 ≤ n then some n.toNat else none
  | _ => none

def asList? : Data -> Option (List Data)
  | list items => some items
  | _ => none

def asTexts? (d : Data) : Option (List String) := d.asList?.bind fun items => items.mapM asText?

/-- The value of a field in a list of fields. -/
def field? (name : String) : List (String × Data) -> Option Data
  | [] => none
  | (key, value) :: rest => if key = name then some value else field? name rest

def ofTexts (texts : List String) : Data := list (texts.map text)

/-- Fields by the order of their names. -/
def byName (fields : List (String × Data)) : List (String × Data) :=
  fields.mergeSort fun a b => decide (a.1 ≤ b.1)

mutual

/-- The same data with the fields of every record by the order of their names. -/
def sorted : Data -> Data
  | list items => list (sortedItems items)
  | record fields => record (byName (sortedFields fields))
  | null => null
  | boolean b => boolean b
  | integer n => integer n
  | real spelling => real spelling
  | date spelling => date spelling
  | text s => text s

def sortedItems : List Data -> List Data
  | [] => []
  | d :: rest => sorted d :: sortedItems rest

def sortedFields : List (String × Data) -> List (String × Data)
  | [] => []
  | (key, d) :: rest => (key, sorted d) :: sortedFields rest

end

end Data
end SymbolIndex
