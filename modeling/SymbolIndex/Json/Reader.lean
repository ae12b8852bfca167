import SymbolIndex.Data
import SymbolIndex.Text.Hex

/-!
# Reading JSON

A reader takes the characters left and gives a value with the rest, or nothing where
the text is malformed.
-/

namespace SymbolIndex
namespace Json

def isSpace (c : Char) : Bool := c == ' ' || c == '\t' || c == '\n' || c == '\r'

def skipSpaces (cs : List Char) : List Char := cs.dropWhile isSpace

/-- The number that four hexadecimal digits give. -/
def unit? (cs : List Char) : Option (Nat × List Char) :=
  match cs with
  | a :: b :: c :: d :: rest => do
      let a ← Text.hexValue a
      let b ← Text.hexValue b
      let c ← Text.hexValue c
      let d ← Text.hexValue d
      pure (((a * 16 + b) * 16 + c) * 16 + d, rest)
  | _ => none

/-- The character after `\u`; a character beyond the first plane is written as two units. -/
def unicode? (cs : List Char) : Option (Char × List Char) := do
  let (first, rest) ← unit? cs
  if first < 0xd800 || 0xdfff < first then pure (Char.ofNat first, rest)
  else if 0xdc00 ≤ first then none
  else match rest with
    | '\\' :: 'u' :: rest => do
        let (second, rest) ← unit? rest
        if 0xdc00 ≤ second && second ≤ 0xdfff then
          pure (Char.ofNat (0x10000 + (first - 0xd800) * 0x400 + (second - 0xdc00)), rest)
        else none
    | _ => none

def escape? : List Char -> Option (Char × List Char)
  | '"' :: rest => some ('"', rest)
  | '\\' :: rest => some ('\\', rest)
  | '/' :: rest => some ('/', rest)
  | 'b' :: rest => some (Char.ofNat 8, rest)
  | 'f' :: rest => some (Char.ofNat 12, rest)
  | 'n' :: rest => some ('\n', rest)
  | 'r' :: rest => some ('\r', rest)
  | 't' :: rest => some ('\t', rest)
  | 'u' :: rest => unicode? rest
  | _ => none

/-- The characters of a string, after its opening quote. -/
def stringBody : Nat -> List Char -> Option (List Char × List Char)
  | 0, _ => none
  | _, [] => none
  | fuel + 1, c :: rest =>
      if c = '"' then some ([], rest)
      else if c = '\\' then
        match escape? rest with
        | some (e, more) => (stringBody fuel more).map fun r => (e :: r.1, r.2)
        | none => none
      else if c.toNat < 0x20 then none
      else (stringBody fuel rest).map fun r => (c :: r.1, r.2)

def isNumberChar (c : Char) : Bool :=
  c.isDigit || c == '-' || c == '+' || c == '.' || c == 'e' || c == 'E'

def digitsValue (ds : List Char) : Nat := ds.foldl (fun acc c => acc * 10 + (c.toNat - 48)) 0

/-- Decimal digits without a needless zero in front. -/
def isWhole (ds : List Char) : Bool :=
  !ds.isEmpty && ds.all Char.isDigit && (ds.head? != some '0' || ds.length == 1)

def isExponentMark (c : Char) : Bool := c == 'e' || c == 'E'

def number? (token : List Char) : Option Data :=
  let negative := token.head? == some '-'
  let body := if negative then token.drop 1 else token
  let mantissa := body.takeWhile fun c => !isExponentMark c
  let exponent := body.drop mantissa.length
  let whole := mantissa.takeWhile fun c => c != '.'
  let fraction := mantissa.drop whole.length
  let power := match exponent.drop 1 with
    | '+' :: ds => ds
    | '-' :: ds => ds
    | ds => ds
  let areDigits := fun ds : List Char => !ds.isEmpty && ds.all Char.isDigit
  if !isWhole whole then none
  else if fraction.isEmpty && exponent.isEmpty then
    let n : Int := digitsValue whole
    some (.integer (if negative then -n else n))
  else if (fraction.isEmpty || areDigits (fraction.drop 1)) && (exponent.isEmpty || areDigits power) then
    some (.real (String.ofList token))
  else none

def word? : List Char -> Option (Data × List Char)
  | 'n' :: 'u' :: 'l' :: 'l' :: rest => some (.null, rest)
  | 't' :: 'r' :: 'u' :: 'e' :: rest => some (.boolean true, rest)
  | 'f' :: 'a' :: 'l' :: 's' :: 'e' :: rest => some (.boolean false, rest)
  | _ => none

/-- How many lists and records may be around one another. -/
def depthLimit : Nat := 127

mutual

def value? : Nat -> Nat -> List Char -> Option (Data × List Char)
  | 0, _, _ => none
  | fuel + 1, depth, cs =>
      match skipSpaces cs with
      | '"' :: rest =>
          (stringBody (rest.length + 1) rest).map fun r => (.text (String.ofList r.1), r.2)
      | '[' :: rest =>
          match depth with
          | 0 => none
          | depth + 1 =>
              match skipSpaces rest with
              | ']' :: more => some (.list [], more)
              | _ => (items? fuel depth rest).map fun r => (.list r.1, r.2)
      | '\x7b' :: rest =>
          match depth with
          | 0 => none
          | depth + 1 =>
              match skipSpaces rest with
              | '\x7d' :: more => some (.record [], more)
              | _ => (fields? fuel depth rest).map fun r => (.record r.1, r.2)
      | c :: rest =>
          if c.isDigit || c == '-' then
            let token := (c :: rest).takeWhile isNumberChar
            (number? token).map fun d => (d, (c :: rest).drop token.length)
          else word? (c :: rest)
      | [] => none

def items? : Nat -> Nat -> List Char -> Option (List Data × List Char)
  | 0, _, _ => none
  | fuel + 1, depth, cs =>
      match value? fuel depth cs with
      | none => none
      | some (d, rest) =>
          match skipSpaces rest with
          | ',' :: more => (items? fuel depth more).map fun r => (d :: r.1, r.2)
          | ']' :: more => some ([d], more)
          | _ => none

def fields? : Nat -> Nat -> List Char -> Option (List (String × Data) × List Char)
  | 0, _, _ => none
  | fuel + 1, depth, cs =>
      match skipSpaces cs with
      | '"' :: rest =>
          match stringBody (rest.length + 1) rest with
          | none => none
          | some (key, rest) =>
              match skipSpaces rest with
              | ':' :: rest =>
                  match value? fuel depth rest with
                  | none => none
                  | some (d, rest) =>
                      match skipSpaces rest with
                      | ',' :: more =>
                          (fields? fuel depth more).map fun r => ((String.ofList key, d) :: r.1, r.2)
                      | '\x7d' :: more => some ([(String.ofList key, d)], more)
                      | _ => none
              | _ => none
      | _ => none

end

/-- The value that a whole text is. -/
def read? (text : String) : Option Data :=
  let cs := text.toList
  match value? (2 * cs.length + 2) depthLimit cs with
  | some (d, rest) => if (skipSpaces rest).isEmpty then some d else none
  | none => none

end Json
end SymbolIndex
