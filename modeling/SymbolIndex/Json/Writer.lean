import SymbolIndex.Data
import SymbolIndex.Text.Hex

/-!
# Writing JSON

Values as JSON text, on one line or with two blanks of indentation for every level.
-/

namespace SymbolIndex
namespace Json

def escaped (c : Char) : List Char :=
  if c = '"' then ['\\', '"']
  else if c = '\\' then ['\\', '\\']
  else if c = '\n' then ['\\', 'n']
  else if c = '\r' then ['\\', 'r']
  else if c = '\t' then ['\\', 't']
  else if c.toNat = 8 then ['\\', 'b']
  else if c.toNat = 12 then ['\\', 'f']
  else if c.toNat < 0x20 then
    ['\\', 'u', '0', '0', Text.hexDigit (c.toNat / 16), Text.hexDigit (c.toNat % 16)]
  else [c]

def quoted (s : String) : String :=
  "\"" ++ String.ofList (s.toList.flatMap escaped) ++ "\""

mutual

def compact : Data -> String
  | .null => "null"
  | .boolean b => if b then "true" else "false"
  | .integer n => toString n
  | .real spelling => spelling
  | .date spelling => quoted spelling
  | .text s => quoted s
  | .list items => "[" ++ String.intercalate "," (compactItems items) ++ "]"
  | .record fields => "\x7b" ++ String.intercalate "," (compactFields fields) ++ "\x7d"

def compactItems : List Data -> List String
  | [] => []
  | d :: rest => compact d :: compactItems rest

def compactFields : List (String × Data) -> List String
  | [] => []
  | (key, d) :: rest => (quoted key ++ ":" ++ compact d) :: compactFields rest

end

def indent (level : Nat) : String := String.ofList (List.replicate (2 * level) ' ')

/-- The lines of a list or record between its two brackets. -/
def block (opening closing : String) (level : Nat) (lines : List String) : String :=
  if lines.isEmpty then opening ++ closing
  else
    opening ++ "\n" ++ String.intercalate ",\n" (lines.map fun l => indent (level + 1) ++ l)
      ++ "\n" ++ indent level ++ closing

mutual

def pretty (level : Nat) : Data -> String
  | .list items => block "[" "]" level (prettyItems (level + 1) items)
  | .record fields => block "\x7b" "\x7d" level (prettyFields (level + 1) fields)
  | .null => "null"
  | .boolean b => if b then "true" else "false"
  | .integer n => toString n
  | .real spelling => spelling
  | .date spelling => quoted spelling
  | .text s => quoted s

def prettyItems (level : Nat) : List Data -> List String
  | [] => []
  | d :: rest => pretty level d :: prettyItems level rest

def prettyFields (level : Nat) : List (String × Data) -> List String
  | [] => []
  | (key, d) :: rest => (quoted key ++ ": " ++ pretty level d) :: prettyFields level rest

end

end Json
end SymbolIndex
