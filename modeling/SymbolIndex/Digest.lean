import SymbolIndex.Blake3
import SymbolIndex.Symbol
import SymbolIndex.Text.Hex

/-!
# Digests of results

A result set is written as a string of bytes and hashed. Equal sets have equal
digests; the bytes tell sets apart as long as no key or name holds a separator.
-/

namespace SymbolIndex

/-- The `n` low bytes of a number, the lowest first. -/
def littleEndian : Nat -> Nat -> List UInt8
  | 0, _ => []
  | n + 1, x => UInt8.ofNat x :: littleEndian n (x / 256)

namespace CollectedSymbol

def encoding (s : CollectedSymbol) : List UInt8 :=
  Text.bytesOf s.usr ++ 0 :: Text.bytesOf s.kind.text ++ 0 :: Text.bytesOf s.name ++ [1]

end CollectedSymbol

namespace CollectedLocation

def encoding (l : CollectedLocation) : List UInt8 :=
  littleEndian 8 l.symbol ++ littleEndian 4 l.line.toNat ++ littleEndian 4 l.column.toNat
    ++ Text.bytesOf l.role.text

end CollectedLocation

namespace Results

/-- The bytes that are hashed: every symbol, then every location. -/
def encoding (r : Results) : List UInt8 :=
  r.symbols.flatMap CollectedSymbol.encoding ++ r.locations.flatMap CollectedLocation.encoding

def digest (r : Results) : String := Text.hex (Blake3.hash r.encoding)

end Results
end SymbolIndex
