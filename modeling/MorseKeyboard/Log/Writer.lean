import MorseKeyboard.Log.Record

/-!
# Where the log is written

A log line is handed over in parts, and the receiving end may break down between two of them.
`MorseKeyboard.Log.Writer` keeps what was written; one with a limit **refuses every part once it
holds that many complete lines**, whether the lines came from records or from newlines inside a
message.
-/

namespace MorseKeyboard.Log

/-- A receiver of text. -/
structure Writer where
  /-- All that was written. -/
  text : String := ""
  /-- The number of complete lines after which nothing more is taken, if there is one. -/
  limit : Option Nat := none
  deriving DecidableEq, Repr

namespace Writer

/-- How many lines are complete. -/
def complete (w : Writer) : Nat := w.text.toList.count '\n'

/-- Whether the next part is refused. -/
def refuses (w : Writer) : Bool :=
  match w.limit with
  | some k => k ≤ w.complete
  | none => false

/-- Write parts until one is refused: whether all were taken, and the writer afterwards. -/
def writeAll (w : Writer) : List String → Bool × Writer
  | [] => (true, w)
  | piece :: rest =>
    if w.refuses then (false, w) else { w with text := w.text ++ piece }.writeAll rest

/-- Write the line of a record. -/
def writeRecord (w : Writer) (r : Record) : Bool × Writer := w.writeAll r.pieces

end Writer

end MorseKeyboard.Log
