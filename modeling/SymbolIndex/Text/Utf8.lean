/-!
# Bytes as text

A byte string is shown as text by reading it as UTF-8. Where the bytes are not
UTF-8, each longest run that starts a character but cannot go on becomes one
replacement character.
-/

namespace SymbolIndex
namespace Text

/-- The character shown for bytes that are no text. -/
def replacement : Char := '\uFFFD'

def inByteRange (lo hi b : UInt8) : Bool := lo ≤ b && b ≤ hi

/-- The bytes that may follow `b` at the second place of a character. -/
def secondRange (b : UInt8) : UInt8 × UInt8 :=
  if b = 0xe0 then (0xa0, 0xbf)
  else if b = 0xed then (0x80, 0x9f)
  else if b = 0xf0 then (0x90, 0xbf)
  else if b = 0xf4 then (0x80, 0x8f)
  else (0x80, 0xbf)

/-- How many bytes the character that starts with `b` has; none for a byte that starts no character. -/
def sequenceLength (b : UInt8) : Nat :=
  if b < 0x80 then 1
  else if inByteRange 0xc2 0xdf b then 2
  else if inByteRange 0xe0 0xef b then 3
  else if inByteRange 0xf0 0xf4 b then 4
  else 0

/-- How many of the first `n` bytes go on a character. -/
def continuationRun : Nat -> List UInt8 -> Nat
  | 0, _ => 0
  | _, [] => 0
  | n + 1, b :: rest => if inByteRange 0x80 0xbf b then continuationRun n rest + 1 else 0

/-- How many bytes after `b` belong to the same character or broken character. -/
def followers (b : UInt8) (rest : List UInt8) : Nat :=
  match sequenceLength b, rest with
  | n + 2, c :: more =>
      let r := secondRange b
      if inByteRange r.1 r.2 c then continuationRun n more + 1 else 0
  | _, _ => 0

def lowBits (b : UInt8) : Nat := b.toNat % 64

/-- The character of a complete sequence. -/
def characterOf (b : UInt8) (more : List UInt8) : Char :=
  let lead := match more.length with
    | 0 => b.toNat
    | 1 => b.toNat % 32
    | 2 => b.toNat % 16
    | _ => b.toNat % 8
  Char.ofNat (more.foldl (fun n c => n * 64 + lowBits c) lead)

/-- Read bytes as UTF-8 with a replacement character for each broken character. -/
def decodeLossy : List UInt8 -> List Char
  | [] => []
  | b :: rest =>
      let n := followers b rest
      let c := if sequenceLength b = n + 1 then characterOf b (rest.take n) else replacement
      c :: decodeLossy (rest.drop n)
termination_by bytes => bytes.length
decreasing_by
  simp only [List.length_cons, List.length_drop]
  omega

def bytesOf (s : String) : List UInt8 := s.toUTF8.data.toList

/-- The text whose UTF-8 form the bytes are. -/
def ofBytes? (bytes : List UInt8) : Option String := String.fromUTF8? ⟨bytes.toArray⟩

def ofBytesLossy (bytes : List UInt8) : String :=
  match ofBytes? bytes with
  | some s => s
  | none => String.ofList (decodeLossy bytes)

theorem ofBytes?_bytesOf (s : String) : ofBytes? (bytesOf s) = some s := by
  have h : (⟨(bytesOf s).toArray⟩ : ByteArray) = s.toByteArray := by
    simp [bytesOf]
  rw [ofBytes?, h]
  simp only [String.fromUTF8?, dif_pos s.isValidUTF8]
  rfl

theorem ofBytesLossy_bytesOf (s : String) : ofBytesLossy (bytesOf s) = s := by
  rw [ofBytesLossy, ofBytes?_bytesOf]

theorem bytesOf_of_ofBytes? {bytes : List UInt8} {s : String} (h : ofBytes? bytes = some s) :
    bytesOf s = bytes := by
  simp only [ofBytes?, String.fromUTF8?] at h
  split at h
  · cases h
    simp [bytesOf, String.fromUTF8]
  · cases h

end Text
end SymbolIndex
