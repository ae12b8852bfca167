import SymbolIndex.Data
import SymbolIndex.Text.Hex

/-!
# Scalars of TOML

White space, strings, numbers and dates. A reader takes the characters left and
gives what it read together with the rest, or nothing where the text is malformed.
-/

namespace SymbolIndex
namespace Toml

def isSpace (c : Char) : Bool := c == ' ' || c == '\t'

def skipSpaces (cs : List Char) : List Char := cs.dropWhile isSpace

/-- Characters that may stand in a comment. -/
def isCommentChar (c : Char) : Bool :=
  c == '\t' || (0x20 ≤ c.toNat && c.toNat ≠ 0x7f)

def skipComment : List Char -> List Char
  | '#' :: rest => rest.dropWhile isCommentChar
  | cs => cs

/-- The rest after a line end. -/
def newline? : List Char -> Option (List Char)
  | '\n' :: rest => some rest
  | '\r' :: '\n' :: rest => some rest
  | _ => none

/-- The rest after the end of a line, before which only blanks and a comment may stand. -/
def lineEnd? (cs : List Char) : Option (List Char) :=
  match skipComment (skipSpaces cs) with
  | [] => some []
  | rest => newline? rest

/-- Blanks, comments and line ends between the items of an array. -/
def skipBlankLines : Nat -> List Char -> List Char
  | 0, cs => cs
  | fuel + 1, cs =>
      let rest := skipSpaces cs
      match newline? (skipComment rest) with
      | some more => skipBlankLines fuel more
      | none => rest

/-!
# Strings
-/

def isLiteralChar (c : Char) : Bool := isCommentChar c && c != '\''

def isBasicChar (c : Char) : Bool := isCommentChar c && c != '"' && c != '\\'

/-- The character with the code that `n` hexadecimal digits give. -/
def codePoint? (n : Nat) (cs : List Char) : Option (Char × List Char) :=
  let digits := cs.take n
  if digits.length < n then none
  else match digits.mapM Text.hexValue with
    | none => none
    | some values =>
        let code := values.foldl (fun acc v => acc * 16 + v) 0
        if code < 0xd800 || (0xdfff < code && code < 0x110000) then
          some (Char.ofNat code, cs.drop n)
        else none

/-- The character that an escape sequence stands for, after the backslash. -/
def escape? : List Char -> Option (Char × List Char)
  | 'b' :: rest => some (Char.ofNat 8, rest)
  | 't' :: rest => some ('\t', rest)
  | 'n' :: rest => some ('\n', rest)
  | 'f' :: rest => some (Char.ofNat 12, rest)
  | 'r' :: rest => some ('\r', rest)
  | '"' :: rest => some ('"', rest)
  | '\\' :: rest => some ('\\', rest)
  | 'u' :: rest => codePoint? 4 rest
  | 'U' :: rest => codePoint? 8 rest
  | _ => none

def putChar (c : Char) (r : List Char × List Char) : List Char × List Char := (c :: r.1, r.2)

/-- A string on one line, after its opening quote. -/
def basicBody : Nat -> List Char -> Option (List Char × List Char)
  | 0, _ => none
  | _, [] => none
  | fuel + 1, c :: rest =>
      if c = '"' then some ([], rest)
      else if c = '\\' then
        match escape? rest with
        | some (e, more) => (basicBody fuel more).map (putChar e)
        | none => none
      else if isBasicChar c then (basicBody fuel rest).map (putChar c)
      else none

def literalBody : List Char -> Option (List Char × List Char)
  | [] => none
  | c :: rest =>
      if c = '\'' then some ([], rest)
      else if isLiteralChar c then (literalBody rest).map (putChar c)
      else none

/-- How a run of quotes inside a string of several lines goes on: content, or content and the end. -/
def quoteRun (quote : Char) (cs : List Char) : Nat × Bool :=
  let n := (cs.takeWhile (fun c => c == quote)).length
  if n < 3 then (n, false) else (min (n - 3) 2, true)

/-- The rest after a backslash at the end of a line: all blanks and line ends are skipped. -/
def joinedLine? (cs : List Char) : Option (List Char) :=
  (newline? (skipSpaces cs)).map fun rest =>
    rest.dropWhile fun c => isSpace c || c == '\n' || c == '\r'

/-- A string of several lines, after its opening quotes. -/
def longBody (quote : Char) (escapes : Bool) : Nat -> List Char -> Option (List Char × List Char)
  | 0, _ => none
  | _, [] => none
  | fuel + 1, c :: rest =>
      if c = quote then
        match quoteRun quote (c :: rest) with
        | (n, true) => some (List.replicate n quote, (c :: rest).drop (n + 3))
        | (n, false) =>
            (longBody quote escapes fuel ((c :: rest).drop n)).map fun r =>
              (List.replicate n quote ++ r.1, r.2)
      else match newline? (c :: rest) with
        | some more => (longBody quote escapes fuel more).map (putChar '\n')
        | none =>
            if escapes && c == '\\' then
              match joinedLine? rest with
              | some more => longBody quote escapes fuel more
              | none =>
                  match escape? rest with
                  | some (e, more) => (longBody quote escapes fuel more).map (putChar e)
                  | none => none
            else if isCommentChar c then (longBody quote escapes fuel rest).map (putChar c)
            else none

/-- A line end right after the opening quotes is no content. -/
def afterOpening (cs : List Char) : List Char := (newline? cs).getD cs

def string? : List Char -> Option (String × List Char)
  | '"' :: '"' :: '"' :: rest =>
      (longBody '"' true (rest.length + 1) (afterOpening rest)).map fun r => (String.ofList r.1, r.2)
  | '\'' :: '\'' :: '\'' :: rest =>
      (longBody '\'' false (rest.length + 1) (afterOpening rest)).map fun r => (String.ofList r.1, r.2)
  | '"' :: rest => (basicBody (rest.length + 1) rest).map fun r => (String.ofList r.1, r.2)
  | '\'' :: rest => (literalBody rest).map fun r => (String.ofList r.1, r.2)
  | _ => none

/-!
# Numbers
-/

/-- The digits of a number with single underscores between digits. -/
def digits? (isDigit : Char -> Bool) : List Char -> Option (List Char)
  | [] => none
  | [c] => if isDigit c then some [c] else none
  | c :: '_' :: rest => if isDigit c then (digits? isDigit rest).map (c :: ·) else none
  | c :: rest => if isDigit c then (digits? isDigit rest).map (c :: ·) else none

def valueOf (base : Nat) (digits : List Char) : Nat :=
  digits.foldl (fun acc c => acc * base + (Text.hexValue c).getD 0) 0

def isOctal (c : Char) : Bool := '0' ≤ c && c ≤ '7'

def isBinary (c : Char) : Bool := c == '0' || c == '1'

def bounded (n : Int) : Option Int := if Data.isWord n then some n else none

/-- Decimal digits without a needless zero in front. -/
def decimal? (cs : List Char) : Option (List Char) :=
  match digits? Char.isDigit cs with
  | some ds => if ds.head? = some '0' && ds.length != 1 then none else some ds
  | none => none

def integer? (token : List Char) : Option Int :=
  match token with
  | '0' :: 'x' :: rest =>
      (digits? (fun c => (Text.hexValue c).isSome) rest).bind fun ds => bounded (valueOf 16 ds)
  | '0' :: 'o' :: rest => (digits? isOctal rest).bind fun ds => bounded (valueOf 8 ds)
  | '0' :: 'b' :: rest => (digits? isBinary rest).bind fun ds => bounded (valueOf 2 ds)
  | '-' :: rest => (decimal? rest).bind fun ds => bounded (-(valueOf 10 ds : Int))
  | '+' :: rest => (decimal? rest).bind fun ds => bounded (valueOf 10 ds)
  | _ => (decimal? token).bind fun ds => bounded (valueOf 10 ds)

def unsigned (token : List Char) : List Char :=
  match token with
  | '+' :: rest => rest
  | '-' :: rest => rest
  | _ => token

def isExponentMark (c : Char) : Bool := c == 'e' || c == 'E'

/-- Whether a token is a number with a fraction or an exponent, or one of the words for none. -/
def isReal (token : List Char) : Bool :=
  let body := unsigned token
  if body = ['i', 'n', 'f'] || body = ['n', 'a', 'n'] then true
  else
    let mantissa := body.takeWhile fun c => !isExponentMark c
    let exponent := body.drop mantissa.length
    let whole := mantissa.takeWhile fun c => c != '.'
    let fraction := mantissa.drop whole.length
    let wholeOk := (decimal? whole).isSome
    let fractionOk := fraction.isEmpty || (digits? Char.isDigit (fraction.drop 1)).isSome
    let exponentOk := exponent.isEmpty || (digits? Char.isDigit (unsigned (exponent.drop 1))).isSome
    wholeOk && fractionOk && exponentOk && !(fraction.isEmpty && exponent.isEmpty)

/-!
# Dates
-/

/-- The number that exactly `n` digits give. -/
def fixedDigits? (n : Nat) (cs : List Char) : Option (Nat × List Char) :=
  let ds := cs.take n
  if ds.length = n && ds.all Char.isDigit then some (valueOf 10 ds, cs.drop n) else none

def mark? (c : Char) : List Char -> Option (List Char)
  | d :: rest => if d = c then some rest else none
  | [] => none

def isLeapYear (y : Nat) : Bool := y % 4 == 0 && (y % 100 != 0 || y % 400 == 0)

def daysInMonth (y m : Nat) : Nat :=
  if m == 2 then (if isLeapYear y then 29 else 28)
  else if m == 4 || m == 6 || m == 9 || m == 11 then 30
  else 31

/-- The rest after a calendar date. -/
def fullDate? (cs : List Char) : Option (List Char) := do
  let (y, cs) ← fixedDigits? 4 cs
  let cs ← mark? '-' cs
  let (m, cs) ← fixedDigits? 2 cs
  let cs ← mark? '-' cs
  let (d, cs) ← fixedDigits? 2 cs
  if 1 ≤ m && m ≤ 12 && 1 ≤ d && d ≤ daysInMonth y m then some cs else none

/-- The rest after the fraction of a second, which may be missing. -/
def secondFraction? : List Char -> Option (List Char)
  | '.' :: rest =>
      let more := rest.dropWhile Char.isDigit
      if more.length < rest.length then some more else none
  | cs => some cs

/-- The rest after a time of day. -/
def partialTime? (cs : List Char) : Option (List Char) := do
  let (h, cs) ← fixedDigits? 2 cs
  let cs ← mark? ':' cs
  let (m, cs) ← fixedDigits? 2 cs
  let cs ← mark? ':' cs
  let (s, cs) ← fixedDigits? 2 cs
  if h ≤ 23 && m ≤ 59 && s ≤ 60 then secondFraction? cs else none

/-- Whether the characters are a time zone or nothing. -/
def isZone (cs : List Char) : Bool :=
  match cs with
  | [] => true
  | ['Z'] => true
  | ['z'] => true
  | c :: rest =>
      (c == '+' || c == '-') &&
        match fixedDigits? 2 rest with
        | some (h, more) =>
            match (mark? ':' more).bind (fixedDigits? 2) with
            | some (m, []) => h ≤ 23 && m ≤ 59
            | _ => false
        | none => false

def isDate (token : List Char) : Bool :=
  match fullDate? token with
  | some [] => true
  | some (sep :: rest) =>
      (sep == 'T' || sep == 't' || sep == ' ') &&
        match partialTime? rest with
        | some zone => isZone zone
        | none => false
  | none => partialTime? token == some []

/-!
# Bare tokens
-/

def isTokenChar (c : Char) : Bool :=
  c.isAlphanum || c == '_' || c == '+' || c == '-' || c == '.' || c == ':'

/-- The characters of a bare value; a blank between a date and a time belongs to it. -/
def takeToken (cs : List Char) : List Char × List Char :=
  let first := cs.takeWhile isTokenChar
  let rest := cs.drop first.length
  match fullDate? first, rest with
  | some [], ' ' :: a :: b :: ':' :: more =>
      if a.isDigit && b.isDigit then
        let second := (a :: b :: ':' :: more).takeWhile isTokenChar
        (first ++ ' ' :: second, rest.drop (second.length + 1))
      else (first, rest)
  | _, _ => (first, rest)

/-- The value of a bare token. -/
def scalar? (token : List Char) : Option Data :=
  if token = ['t', 'r', 'u', 'e'] then some (.boolean true)
  else if token = ['f', 'a', 'l', 's', 'e'] then some (.boolean false)
  else match integer? token with
    | some n => some (.integer n)
    | none =>
        if isDate token then some (.date (String.ofList token))
        else if isReal token then some (.real (String.ofList token))
        else none

end Toml
end SymbolIndex
