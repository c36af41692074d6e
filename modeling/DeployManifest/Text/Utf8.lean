/-! # The bytes of texts

A text is encoded in UTF-8. Bytes that are not the encoding of a text are still shown as one: what
no character can begin with, and a character that breaks off, become the replacement character
(`lossy`).
-/

namespace DeployManifest.Text

/-- The bytes of a text. -/
def bytes (s : String) : List UInt8 := s.toUTF8.data.toList

/-- The text that the bytes encode, if they encode one. -/
def ofBytes? (bs : List UInt8) : Option String := String.fromUTF8? ⟨bs.toArray⟩

/-- What stands for bytes that encode nothing. -/
def replacement : Char := '\uFFFD'

/-- A character whose first bytes have been read: the bits in them, the range of the next byte, and
how many bytes follow that one. -/
structure Begun where
  bits : Nat
  least : UInt8
  greatest : UInt8
  more : Nat

/-- What the first byte of a longer character begins. The range of the second byte leaves out what
fewer bytes encode, surrogates, and what lies above the last code point. -/
def begin? (b : UInt8) : Option Begun :=
  if b < 0xC2 then none
  else if b < 0xE0 then some ⟨b.toNat - 0xC0, 0x80, 0xBF, 0⟩
  else if b < 0xF0 then
    some ⟨b.toNat - 0xE0, if b = 0xE0 then 0xA0 else 0x80, if b = 0xED then 0x9F else 0xBF, 1⟩
  else if b < 0xF5 then
    some ⟨b.toNat - 0xF0, if b = 0xF0 then 0x90 else 0x80, if b = 0xF4 then 0x8F else 0xBF, 2⟩
  else none

/-- Reads a byte between characters: the characters it gives, and what it begins. -/
def readFirst (b : UInt8) : List Char × Option Begun :=
  if b < 0x80 then ([Char.ofNat b.toNat], none)
  else
    match begin? b with
    | some begun => ([], some begun)
    | none => ([replacement], none)

/-- The bits of a character so far, which is whole or goes on for some bytes. -/
def continued (bits : Nat) : Nat → List Char × Option Begun
  | 0 => ([Char.ofNat bits], none)
  | more + 1 => ([], some ⟨bits, 0x80, 0xBF, more⟩)

/-- Reads a byte within a character. One that does not continue it is read between characters. -/
def readNext (begun : Begun) (b : UInt8) : List Char × Option Begun :=
  if begun.least ≤ b ∧ b ≤ begun.greatest then
    continued (64 * begun.bits + (b.toNat - 0x80)) begun.more
  else
    let (chars, next) := readFirst b
    (replacement :: chars, next)

def read : Option Begun → UInt8 → List Char × Option Begun
  | none, b => readFirst b
  | some begun, b => readNext begun b

/-- The characters of bytes that may follow a begun character. -/
def decode : Option Begun → List UInt8 → List Char
  | none, [] => []
  | some _, [] => [replacement]
  | state, b :: bs =>
    let (chars, next) := read state b
    chars ++ decode next bs

/-- The text of bytes, whether they encode one or not. -/
def lossy (bs : List UInt8) : String := String.ofList (decode none bs)

end DeployManifest.Text
