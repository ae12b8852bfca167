import SymbolIndex.Text.Hex

/-!
# Strings as TOML writes them

A text is written in the first of these forms that can hold it as it is: plain
quotes, apostrophes, three quotes, three apostrophes. A text that needs escapes in
all of them is written with escapes in plain quotes, or in three quotes when it has
several lines. Three quotes are followed by a line end that does not count when the
text has several lines.
-/

namespace SymbolIndex
namespace Toml

/-- The longest run of `quote` in a text, given the run so far and the longest before. -/
def longestRun (quote : Char) : Nat -> Nat -> List Char -> Nat
  | _, longest, [] => longest
  | run, longest, c :: rest =>
      if c = quote then longestRun quote (run + 1) (max longest (run + 1)) rest
      else longestRun quote 0 longest rest

def isControl (c : Char) : Bool := c.toNat < 0x20 || c.toNat == 0x7f

/-- Controls that no form without escapes can hold. -/
def needsEscape (c : Char) : Bool := isControl c && c != '\t' && c != '\n'

def fourDigits (n : Nat) : List Char :=
  [n / 4096, n / 256, n / 16, n].map fun m => Text.hexDigitUpper (m % 16)

/-- One character in quotes; line ends stay as they are in a string of several lines. -/
def escaped (severalLines : Bool) (c : Char) : List Char :=
  if c.toNat = 8 then ['\\', 'b']
  else if c = '\t' then ['\\', 't']
  else if c = '\n' then (if severalLines then ['\n'] else ['\\', 'n'])
  else if c.toNat = 12 then ['\\', 'f']
  else if c = '\r' then ['\\', 'r']
  else if c = '\\' then ['\\', '\\']
  else if isControl c then '\\' :: 'u' :: fourDigits c.toNat
  else [c]

/-- The characters of a text in quotes of which at most `allowed` may stand in a row. -/
def escapedBody (severalLines : Bool) (allowed : Nat) : Nat -> List Char -> List Char
  | _, [] => []
  | run, c :: rest =>
      if c = '"' then
        if run < allowed then '"' :: escapedBody severalLines allowed (run + 1) rest
        else '\\' :: '"' :: escapedBody severalLines allowed 0 rest
      else escaped severalLines c ++ escapedBody severalLines allowed 0 rest

def openingLine (cs : List Char) : List Char := if cs.contains '\n' then ['\n'] else []

def shortBasic (cs : List Char) : List Char := '"' :: escapedBody false 0 0 cs ++ ['"']

def longBasic (cs : List Char) : List Char :=
  ['"', '"', '"'] ++ openingLine cs ++ escapedBody true 2 0 cs ++ ['"', '"', '"']

def shortLiteral (cs : List Char) : List Char := '\'' :: cs ++ ['\'']

def longLiteral (cs : List Char) : List Char :=
  ['\'', '\'', '\''] ++ openingLine cs ++ cs ++ ['\'', '\'', '\'']

def quoted (s : String) : String :=
  let cs := s.toList
  let escapes := cs.any needsEscape
  let backslash := cs.contains '\\'
  let severalLines := cs.contains '\n'
  let quotes := longestRun '"' 0 0 cs
  let apostrophes := longestRun '\'' 0 0 cs
  String.ofList <|
    if !escapes && !backslash && quotes == 0 && !severalLines then shortBasic cs
    else if !escapes && apostrophes == 0 && !severalLines then shortLiteral cs
    else if !escapes && !backslash && quotes ≤ 2 then longBasic cs
    else if !escapes && apostrophes ≤ 2 then longLiteral cs
    else if severalLines then longBasic cs
    else shortBasic cs

end Toml
end SymbolIndex
