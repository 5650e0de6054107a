import MorseKeyboard.Queues

/-!
# Keyboard reports

The host polls for reports. A report carries at most one key, as a modifier and a usage number, in
the eight bytes of the boot protocol. **A key equal to the one before it is preceded by an empty
report**, so that the host sees it released in between; a character without a key is consumed and
gives an empty report too.
-/

namespace MorseKeyboard

/-- A report with one key, or none. -/
structure Report where
  modifier : UInt8
  keycode : UInt8
  deriving DecidableEq, Repr

namespace Report

/-- All keys are up. -/
def empty : Report := ⟨0, 0⟩

/-- Whether no key is down. -/
def isEmpty (r : Report) : Bool := r.keycode == 0

/-- The report in the boot protocol. -/
def bytes (r : Report) : List UInt8 := [r.modifier, 0, r.keycode, 0, 0, 0, 0, 0]

/-- The modifier of the left shift key. -/
def leftShift : UInt8 := 0x02

/-- A key pressed alone. -/
def plain (keycode : UInt8) : Report := ⟨0, keycode⟩

/-- A key pressed together with shift. -/
def shifted (keycode : UInt8) : Report := ⟨leftShift, keycode⟩

/-- The keys of the characters that are neither letters nor digits. -/
def marks : List (Char × Report) :=
  [('\x08', plain 0x2a), ('\n', plain 0x28), (' ', plain 0x2c), ('!', shifted 0x1e),
   ('"', shifted 0x34), ('$', shifted 0x21), ('\'', plain 0x34), ('(', shifted 0x26),
   (')', shifted 0x27), ('+', shifted 0x2e), (',', plain 0x36), ('-', plain 0x2d),
   ('.', plain 0x37), ('/', plain 0x38), ('0', plain 0x27), (':', shifted 0x33),
   (';', plain 0x33), ('=', plain 0x2e), ('?', shifted 0x38), ('@', shifted 0x1f),
   ('_', shifted 0x2d), ('\x60', plain 0x35)]

/-- The report of the key that types a byte, if there is one. The usage numbers of the letters and
of the digits from one on are consecutive. -/
def ofByte? (byte : UInt8) : Option Report :=
  if 0x61 ≤ byte ∧ byte ≤ 0x7A then some (plain (byte - 0x61 + 0x04))
  else if 0x41 ≤ byte ∧ byte ≤ 0x5A then some (shifted (byte - 0x41 + 0x04))
  else if 0x31 ≤ byte ∧ byte ≤ 0x39 then some (plain (byte - 0x31 + 0x1e))
  else (marks.find? fun m => m.1.toUInt8 == byte).map Prod.snd

end Report

/-- What the reporter remembers: the character it consumed last, unless a release came after it. -/
structure Reporter where
  last : Option UInt8 := none
  deriving DecidableEq, Repr

namespace Reporter

/-- A reporter that has reported nothing. -/
def fresh : Reporter := {}

/-- Answer a poll: the report, the reporter and the queue afterwards. -/
def respond (r : Reporter) (queue : KeystrokeRing) : Report × Reporter × KeystrokeRing :=
  match queue.pop? with
  | some (byte, rest) =>
    if r.last = some byte then (.empty, { last := none }, queue)
    else ((Report.ofByte? byte).getD .empty, { last := some byte }, rest)
  | none => (.empty, { last := none }, queue)

end Reporter

end MorseKeyboard
