import MorseKeyboard.Code.Alphabet

/-!
# The decoder

The decoder listens to symbols and writes text. It gathers the elements of a letter into a pattern,
starting from the bare start bit, and when a space arrives it resolves the pattern and starts
afresh. A pattern resolves to

* a blank, if it is still the start bit: the space before this one already ended the letter;
* the character of the alphabet, if there is one;
* the text of the procedural signal, after a stroke unless it is a backspace, if there is one;
* nothing otherwise.

No signal has more than nine elements. A tenth element only raises a flag, so **the pattern never
outgrows ten bits**, and a letter that is too long resolves to nothing.
-/

namespace MorseKeyboard

/-- What is known of the letter being listened to. -/
structure Decoder where
  /-- The pattern of its elements so far. -/
  pattern : Nat := Pattern.seed
  /-- Whether it has more elements than any signal. -/
  tooLong : Bool := false
  deriving DecidableEq, Repr

namespace Decoder

/-- Between two letters. -/
def fresh : Decoder := {}

/-- The least pattern with no room for another element. -/
def limit : Nat := 1 <<< (Code.patternBits - 1)

/-- Whether no element has come since the last space. -/
def isIdle (d : Decoder) : Bool := d.pattern == Pattern.seed && !d.tooLong

/-- Take in an element. -/
def extend (d : Decoder) (s : Symbol) : Decoder :=
  if d.tooLong then d
  else if limit ≤ d.pattern then { d with tooLong := true }
  else { d with pattern := Pattern.extend d.pattern s }

/-- The text of a procedural signal: marked with a stroke, unless it takes text back. -/
def signalText (p : Code.Prosign) : List UInt8 :=
  if p.takesBack then p.bytes else 0x2F :: p.bytes

/-- The text that a complete pattern stands for. -/
def meaning (pattern : Nat) : List UInt8 :=
  if pattern = Pattern.seed then [0x20]
  else match Code.letter? pattern with
    | some byte => [byte]
    | none =>
      match Code.prosign? pattern with
      | some p => signalText p
      | none => []

/-- What the letter would be if it ended here. -/
def letter (d : Decoder) : List UInt8 := if d.tooLong then [] else meaning d.pattern

/-- Listen to one symbol: the text it completes, and what is known then. -/
def hear (d : Decoder) : Symbol → List UInt8 × Decoder
  | .space => (d.letter, fresh)
  | s => ([], d.extend s)

/-- Listen to symbols one after another. -/
def hearAll (d : Decoder) : List Symbol → List UInt8 × Decoder
  | [] => ([], d)
  | s :: rest =>
    let (bytes, d) := d.hear s
    let (more, d) := d.hearAll rest
    (bytes ++ more, d)

end Decoder

end MorseKeyboard
