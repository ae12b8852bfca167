/-!
# Characters and lines

Blank characters, the folding of letter case in keywords, and the cutting of a
text into lines. The blank characters are those with the Unicode property
White_Space.
-/

namespace SymbolIndex
namespace Text

/-- The Unicode property White_Space. -/
def isBlank (c : Char) : Bool :=
  let n := c.toNat
  (9 ≤ n && n ≤ 13) || n == 0x20 || n == 0x85 || n == 0xa0 || n == 0x1680
    || (0x2000 ≤ n && n ≤ 0x200a) || n == 0x2028 || n == 0x2029 || n == 0x202f
    || n == 0x205f || n == 0x3000

/-- A text without the blanks at its two ends. -/
def trimChars (cs : List Char) : List Char :=
  ((cs.dropWhile isBlank).reverse.dropWhile isBlank).reverse

def trim (s : String) : String := String.ofList (trimChars s.toList)

def allBlank (s : String) : Bool := s.toList.all isBlank

/--
The lower-case letter that a keyword is compared with. Besides the ASCII letters
only the Kelvin sign has an ASCII lower case, and every keyword is ASCII, so no
other character needs its own lower case here.
-/
def foldChar (c : Char) : Char :=
  if c.toNat = 0x212a then 'k' else c.toLower

def fold (s : String) : String := String.ofList (s.toList.map foldChar)

/-- Cut at every line feed; the last piece has no line feed after it. -/
def splitLines : List Char -> List (List Char)
  | [] => [[]]
  | c :: rest =>
      if c = '\n' then [] :: splitLines rest
      else match splitLines rest with
        | [] => [[c]]
        | line :: more => (c :: line) :: more

def dropCarriageReturn (cs : List Char) : List Char :=
  if cs.getLast? = some '\r' then cs.dropLast else cs

/-- The lines that are ended by a line feed, alone or after a carriage return. -/
def endedLines (pieces : List (List Char)) : List (List Char) :=
  pieces.dropLast.map dropCarriageReturn

/--
The lines of a text: a line feed, alone or after a carriage return, ends a line,
and what follows the last line feed is a line unless it is empty.
-/
def lines (s : String) : List String :=
  let pieces := splitLines s.toList
  let last := pieces.getLast?.getD []
  let all := endedLines pieces ++ (if last.isEmpty then [] else [last])
  all.map String.ofList

/-- Whether `p` stands at the front of `s`; if so, the rest. -/
def stripFront (p s : String) : Option String :=
  if p.toList.isPrefixOf s.toList then some (String.ofList (s.toList.drop p.toList.length)) else none

end Text
end SymbolIndex
