import MorseKeyboard.Log.Level
import MorseKeyboard.Log.Message

/-!
# Records of the log

A record is a time, a level and a message. It lives in a slot that was used before, so the message
is the beginning of a buffer whose remaining bytes are left over from an earlier, longer message;
`MorseKeyboard.Log.Record.body` reads no further than the length of its own.

Written out, a record is one line: the time in milliseconds in brackets, right-aligned in five
columns, the level, and the message, or a notice in its place if it is not UTF-8.
-/

namespace MorseKeyboard.Log

/-- A record in its slot. -/
structure Record where
  /-- The scheduler clock in milliseconds, which wraps every 65.5 seconds. -/
  time : UInt16
  level : Level
  /-- The bytes of the message, and after them bytes of earlier messages. -/
  buffer : Vector UInt8 Message.capacity
  /-- How many bytes the message has. -/
  length : Nat
  length_le : length ≤ Message.capacity := by decide
  deriving DecidableEq, Repr

namespace Record

/-- The content of a slot never used. -/
def blank : Record where
  time := 0
  level := .trace
  buffer := Vector.replicate Message.capacity 0
  length := 0

/-- The bytes of the message. -/
def body (r : Record) : List UInt8 := r.buffer.toList.take r.length

/-- A buffer with its beginning overwritten by as much of a message as fits. -/
def overwrite (buffer : Vector UInt8 Message.capacity) (message : List UInt8) :
    Vector UInt8 Message.capacity :=
  let kept := message.take Message.capacity
  ⟨(kept ++ buffer.toList.drop kept.length).toArray, by
    simp only [List.size_toArray, List.length_append, List.length_drop, Vector.length_toList, kept,
      List.length_take]
    omega⟩

/-- Reuse a slot for a record; a message that is too long is cut. -/
def reuse (old : Record) (time : UInt16) (level : Level) (message : List UInt8) : Record where
  time
  level
  buffer := overwrite old.buffer message
  length := min message.length Message.capacity
  length_le := Nat.min_le_right _ _

/-- A record from a slot never used, with a length of its own; there is none if the length exceeds
the buffer. -/
def withLength? (time : UInt16) (level : Level) (length : Nat) (message : List UInt8) :
    Option Record :=
  if h : length ≤ Message.capacity then
    some { time, level, buffer := overwrite blank.buffer message, length, length_le := h }
  else none

/-- What stands in a line for a message that is not UTF-8. -/
def unreadable : String := "<invalid utf8>"

/-- A number in decimal, right-aligned in five columns. -/
def column (n : Nat) : String :=
  String.ofList (List.replicate (5 - n.repr.length) ' ') ++ n.repr

/-- The parts of the line of a record, in the order they are written. -/
def pieces (r : Record) : List String :=
  ["[", column r.time.toNat, "] ", r.level.label, ": ",
    (Text.ofBytes? r.body).getD unreadable, "\n"]

/-- The line of a record, newline included. -/
def line (r : Record) : String := String.join r.pieces

/-- **A reused slot holds the new message only**, as far as it fits. -/
theorem body_reuse (old : Record) (time : UInt16) (level : Level) (message : List UInt8) :
    (old.reuse time level message).body = message.take Message.capacity := by
  have h : min message.length Message.capacity = (message.take Message.capacity).length := by
    rw [List.length_take, Nat.min_comm]
  simp only [body, reuse, overwrite, Vector.toList_mk, h, List.take_left]

end Record

end MorseKeyboard.Log
