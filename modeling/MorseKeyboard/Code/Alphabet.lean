import MorseKeyboard.Code.Pattern

/-!
# The Morse code tables

Two tables have an entry each for the numbers below 128.
`MorseKeyboard.Code.encodeTable` is indexed by a byte and has the pattern that is played for it, and
`MorseKeyboard.Code.decodeTable` is indexed by a pattern and has the character that is read from it.
They are written down independently of each other, and zero is no entry in either.
`MorseKeyboard.Code.prosigns` holds procedural signals, runs of elements sent without a break that
decode to a short text. A prosign is only ever decoded.

Most bytes with a code are played as the pattern that decodes to them, and capitals as their small
letters. The others are a blank, which is the bare start bit, a gap without elements; the dollar
sign, which is played as its prosign; and the grave accent, which is played as an apostrophe.
-/

namespace MorseKeyboard.Code

/-- The pattern of every byte below 128. Zero means that it has no code. -/
def encodeTable : Vector UInt8 128 :=
  #v[0x00, 0x00, 0x00, 0x00, 0x00, 0x00, 0x00, 0x00,  -- 0x00
    0x00, 0x00, 0x00, 0x00, 0x00, 0x00, 0x00, 0x00,  -- 0x08
    0x00, 0x00, 0x00, 0x00, 0x00, 0x00, 0x00, 0x00,  -- 0x10
    0x00, 0x00, 0x00, 0x00, 0x00, 0x00, 0x00, 0x00,  -- 0x18
    0x01, 0x6b, 0x52, 0x00, 0x89, 0x00, 0x00, 0x5e,  -- 0x20
    0x36, 0x6d, 0x00, 0x2a, 0x73, 0x61, 0x55, 0x32,  -- 0x28
    0x3f, 0x2f, 0x27, 0x23, 0x21, 0x20, 0x30, 0x38,  -- 0x30
    0x3c, 0x3e, 0x78, 0x6a, 0x00, 0x31, 0x00, 0x4c,  -- 0x38
    0x00, 0x05, 0x18, 0x1a, 0x0c, 0x02, 0x12, 0x0e,  -- 0x40
    0x10, 0x04, 0x17, 0x0d, 0x14, 0x07, 0x06, 0x0f,  -- 0x48
    0x16, 0x1d, 0x0a, 0x08, 0x03, 0x09, 0x11, 0x0b,  -- 0x50
    0x19, 0x1b, 0x1c, 0x00, 0x00, 0x00, 0x00, 0x4d,  -- 0x58
    0x5e, 0x05, 0x18, 0x1a, 0x0c, 0x02, 0x12, 0x0e,  -- 0x60
    0x10, 0x04, 0x17, 0x0d, 0x14, 0x07, 0x06, 0x0f,  -- 0x68
    0x16, 0x1d, 0x0a, 0x08, 0x03, 0x09, 0x11, 0x0b,  -- 0x70
    0x19, 0x1b, 0x1c, 0x00, 0x00, 0x00, 0x00, 0x00]  -- 0x78

/-- The character of every pattern below 128. Zero means that none is assigned. Letters are in lower
case. -/
def decodeTable : Vector Char 128 :=
  #v[' ', '\x00', 'e', 't', 'i', 'a', 'n', 'm',  -- 0x00
    's', 'u', 'r', 'w', 'd', 'k', 'g', 'o',  -- 0x08
    'h', 'v', 'f', '\x00', 'l', '\x00', 'p', 'j',  -- 0x10
    'b', 'x', 'c', 'y', 'z', 'q', '\x00', '\x00',  -- 0x18
    '5', '4', '\x00', '3', '\x00', '\x00', '\x00', '2',  -- 0x20
    '\x00', '\x00', '+', '\x00', '\x00', '\x00', '\x00', '1',  -- 0x28
    '6', '=', '/', '\x00', '\x00', '\x00', '(', '\x00',  -- 0x30
    '7', '\x00', '\x00', '\x00', '8', '\x00', '9', '0',  -- 0x38
    '\x00', '\x00', '\x00', '\x00', '\x00', '\x00', '\x00', '\x00',  -- 0x40
    '\x00', '\x00', '\x00', '\x00', '?', '_', '\x00', '\x00',  -- 0x48
    '\x00', '\x00', '"', '\x00', '\x00', '.', '\x00', '\x00',  -- 0x50
    '\x00', '\x00', '\x00', '\x00', '\x00', '\x00', '\'', '\x00',  -- 0x58
    '\x00', '-', '\x00', '\x00', '\x00', '\x00', '\x00', '\x00',  -- 0x60
    '\x00', '\x00', ';', '!', '\x00', ')', '\x00', '\x00',  -- 0x68
    '\x00', '\x00', '\x00', ',', '\x00', '\x00', '\x00', '\x00',  -- 0x70
    ':', '\x00', '\x00', '\x00', '\x00', '\x00', '\x00', '\x00']  -- 0x78

/-- The entry of a table at a place, if there is one and it is not zero. -/
def lookup? {α : Type} [DecidableEq α] (table : Vector α 128) (zero : α) (i : Nat) : Option α :=
  table[i]?.filter (· ≠ zero)

/-- The highest pattern that is looked up in the table. -/
def alphabetMax : Nat := 0x7E

/-- The most bits, start bit included, of a pattern with a meaning. -/
def patternBits : Nat := 10

/-- A procedural signal: an unbroken run of elements with a text of its own. -/
structure Prosign where
  pattern : Nat
  text : List Char
  deriving DecidableEq, Repr

/-- The byte that takes back the last one typed. -/
def backspace : UInt8 := 0x08

namespace Prosign

/-- The bytes of the text. -/
def bytes (p : Prosign) : List UInt8 := p.text.map Char.toUInt8

/-- Whether the signal takes back what was sent instead of adding to it. -/
def takesBack (p : Prosign) : Bool := p.bytes.head? == some backspace

end Prosign

/-- The procedural signals. Where two have one pattern the earlier counts. -/
def prosigns : List Prosign :=
  [ -- end of line
   ⟨0b1_0101, ['A', 'A']⟩,
   -- stand by
   ⟨0b1_01000, ['A', 'S']⟩,
   -- end of message
   ⟨0b1_01010, ['A', 'R']⟩,
   -- break
   ⟨0b1_10001, ['B', 'T']⟩,
   -- number
   ⟨0b1_10010, ['N', 'R']⟩,
   -- end of contact
   ⟨0b1_000101, ['S', 'K']⟩,
   -- commercial at
   ⟨0b1_011010, ['A', 'C']⟩,
   -- seven dits, an error noticed early
   ⟨0b1_0000000, ['\x08']⟩,
   ⟨0b1_0001001, ['$']⟩,
   -- eight dits, error
   ⟨0b1_00000000, ['\x08']⟩,
   ⟨0b1_000111000, ['S', 'O', 'S']⟩]

/-! ### From a pattern to its meaning -/

/-- The byte that the table assigns to a pattern. -/
def letter? (pattern : Nat) : Option UInt8 :=
  if 2 ≤ pattern ∧ pattern ≤ alphabetMax then (lookup? decodeTable '\x00' pattern).map Char.toUInt8
  else none

/-- The procedural signal of a pattern. -/
def prosign? (pattern : Nat) : Option Prosign := prosigns.find? fun p => p.pattern == pattern

/-! ### From a byte to its pattern -/

/-- The pattern that a byte is played as, if it has a code. A blank is the bare start bit. -/
def pattern? (byte : UInt8) : Option Nat :=
  (lookup? encodeTable 0x00 byte.toNat).map UInt8.toNat

/-- The elements that a byte is played as, without the space after the letter. -/
def elements? (byte : UInt8) : Option (List Symbol) := (pattern? byte).map Pattern.elements

end MorseKeyboard.Code
