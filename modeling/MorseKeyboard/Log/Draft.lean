import MorseKeyboard.Log.Message

/-!
# Drafts of messages

While a message is put together, its bytes live in a buffer of fixed size, and a number says how
many of them are in use. `MorseKeyboard.Log.Draft.write?` adds a piece in place: it counts off as
many bytes as the piece has and the room allows, goes back to a boundary between two characters,
and copies. **Every step of this could fail**: the room could be less than nothing, the count could
go below zero, the bytes could be taken from beyond the end of the piece or copied beyond the end of
the buffer.
-/

namespace MorseKeyboard.Log

/-- A buffer with the bytes of a message, and how many of them are in use. -/
structure Draft where
  buffer : Vector UInt8 Message.capacity
  used : Nat
  deriving DecidableEq, Repr

namespace Draft

/-- Nothing written yet. -/
def blank : Draft where
  buffer := Vector.replicate Message.capacity 0
  used := 0

/-- The bytes in use. -/
def bytes (d : Draft) : List UInt8 := d.buffer.toList.take d.used

/-- The difference of two numbers, if it is not less than nothing. -/
def minus? (m n : Nat) : Option Nat := if n ≤ m then some (m - n) else none

/-- So many bytes from the beginning, if there are so many. -/
def take? (source : List UInt8) (count : Nat) : Option (List UInt8) :=
  if count ≤ source.length then some (source.take count) else none

/-- A buffer with some bytes copied to a position, if they end within the buffer. -/
def copy? (buffer : Vector UInt8 Message.capacity) (start : Nat) (source : List UInt8) :
    Option (Vector UInt8 Message.capacity) :=
  if h : start + source.length ≤ Message.capacity then
    some ⟨(buffer.toList.take start ++ source ++
      buffer.toList.drop (start + source.length)).toArray, by
        simp only [List.size_toArray, List.length_append, List.length_take, List.length_drop,
          Vector.length_toList]
        omega⟩
  else none

/-- Append as much of a piece as fits, if no step fails. -/
def write? (d : Draft) (piece : String) : Option Draft := do
  let source := Text.bytes piece
  let room ← minus? Message.capacity d.used
  let count ← Text.lastBoundary? source (min source.length room)
  let kept ← take? source count
  let buffer ← copy? d.buffer d.used kept
  return { buffer, used := d.used + count }

/-- Write some pieces one after another, if no step fails. -/
def writeAll? (d : Draft) (pieces : List String) : Option Draft := pieces.foldlM write? d

end Draft

end MorseKeyboard.Log
