import MorseKeyboard.Text.Bytes

/-!
# Messages of the log

A message is put together from pieces: fixed words, numbers, names. `MorseKeyboard.Log.Message`
takes the pieces one after another and keeps at most 120 bytes. **Each piece is cut on its own**,
to the whole characters that still fit; a piece that was cut leaves up to three bytes of room, and
a later piece may use them.
-/

namespace MorseKeyboard.Log

/-- A message of at most `MorseKeyboard.Log.Message.capacity` bytes, being put together. -/
structure Message where
  bytes : List UInt8 := []
  deriving DecidableEq, Repr

namespace Message

/-- The most bytes of a message. -/
def capacity : Nat := 120

/-- Nothing written yet. -/
def empty : Message := {}

/-- How many bytes still fit. -/
def room (l : Message) : Nat := capacity - l.bytes.length

/-- Append as much of a piece as fits. -/
def write (l : Message) (piece : String) : Message :=
  { bytes := l.bytes ++ Text.bytes (Text.cut l.room piece) }

/-- The message put together from some pieces. -/
def ofPieces (pieces : List String) : Message := pieces.foldl write empty

end Message

end MorseKeyboard.Log
