/-!
# Hexadecimal digits

Bytes written with two digits each. Letters are written in lower case and read in
either case.
-/

namespace SymbolIndex
namespace Text

def hexDigit (n : Nat) : Char := if n < 10 then Char.ofNat (48 + n) else Char.ofNat (87 + n)

def hexDigitUpper (n : Nat) : Char := if n < 10 then Char.ofNat (48 + n) else Char.ofNat (55 + n)

def hexValue (c : Char) : Option Nat :=
  if c.isDigit then some (c.toNat - 48)
  else if 'a' ≤ c && c ≤ 'f' then some (c.toNat - 87)
  else if 'A' ≤ c && c ≤ 'F' then some (c.toNat - 55)
  else none

theorem hexValue_hexDigit (n : Nat) (h : n < 16) : hexValue (hexDigit n) = some n := by
  have all : ∀ m : Fin 16, hexValue (hexDigit m.val) = some m.val := by decide
  exact all ⟨n, h⟩

def hexChars (bytes : List UInt8) : List Char :=
  bytes.flatMap fun b => [hexDigit (b.toNat / 16), hexDigit (b.toNat % 16)]

def hex (bytes : List UInt8) : String := String.ofList (hexChars bytes)

def ofHexChars? : List Char -> Option (List UInt8)
  | [] => some []
  | a :: b :: rest => do
      let a ← hexValue a
      let b ← hexValue b
      let more ← ofHexChars? rest
      pure (UInt8.ofNat (a * 16 + b) :: more)
  | _ => none

/-- The bytes that a text of digits gives. -/
def ofHex? (s : String) : Option (List UInt8) := ofHexChars? s.toList

theorem ofHexChars?_hexChars (bytes : List UInt8) : ofHexChars? (hexChars bytes) = some bytes := by
  induction bytes with
  | nil => rfl
  | cons b rest ih =>
      have hb : b.toNat < 256 := b.toNat_lt
      have high := hexValue_hexDigit (b.toNat / 16) (by omega)
      have low := hexValue_hexDigit (b.toNat % 16) (by omega)
      have whole : UInt8.ofNat (b.toNat / 16 * 16 + b.toNat % 16) = b := by
        rw [Nat.div_add_mod' b.toNat 16, UInt8.ofNat_toNat]
      simp only [hexChars] at ih
      simp only [hexChars, List.flatMap_cons, List.cons_append, List.nil_append, ofHexChars?, high, low,
        ih, Option.bind_eq_bind, Option.bind_some, Option.pure_def, whole]

theorem ofHex?_hex (bytes : List UInt8) : ofHex? (hex bytes) = some bytes := by
  simp [ofHex?, hex, ofHexChars?_hexChars]

end Text
end SymbolIndex
