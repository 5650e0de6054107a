import MorseKeyboard.Log.Stream

/-!
# The logbook

The keyboard logs into two streams, one for what happens in interrupts and one for the main loop, so
that each has a single producer. Both share the most verbose level and a clock for messages that
have no time of their own.

Writing out the logbook begins with the interrupt stream and goes on with the main stream. If
records were rejected since the last time, **a last line says how many on either side**, and
counting starts afresh.
-/

namespace MorseKeyboard

open Log

/-- The number of slots of either stream of the logbook. -/
def Logbook.capacity : Nat := 64

/-- The two streams of the keyboard, their filter and their clock. -/
structure Logbook where
  /-- The most verbose level that is kept. -/
  most : Level := .info
  /-- The scheduler clock as last published. -/
  clock : UInt16 := 0
  /-- What happened in interrupts. -/
  interrupt : Stream Logbook.capacity := Stream.empty (by decide)
  /-- What happened in the main loop. -/
  main : Stream Logbook.capacity := Stream.empty (by decide)
  deriving DecidableEq

namespace Logbook

/-- A logbook with nothing in it. -/
def empty : Logbook := {}

/-- Log something that happened in an interrupt at a given time. -/
def logInterrupt (b : Logbook) (time : UInt16) (level : Level) (pieces : List String) :
    Logbook :=
  { b with interrupt := (b.interrupt.note b.most time level pieces).2 }

/-- Log something that happened in the main loop at a given time. -/
def logMain (b : Logbook) (time : UInt16) (level : Level) (pieces : List String) : Logbook :=
  { b with main := (b.main.note b.most time level pieces).2 }

/-- Log an error in the main loop. -/
def error (b : Logbook) (pieces : List String) : Logbook := b.logMain b.clock .error pieces

/-- Log a warning in the main loop. -/
def warn (b : Logbook) (pieces : List String) : Logbook := b.logMain b.clock .warn pieces

/-- Log a piece of information in the main loop. -/
def info (b : Logbook) (pieces : List String) : Logbook := b.logMain b.clock .info pieces

/-- The line about rejected records. -/
def rejectedLine (interrupt main : UInt32) : String :=
  String.join ["[WARN] Dropped: ISR=", interrupt.toNat.repr, ", MAIN=", main.toNat.repr, "\n"]

/-- Write out both streams into a writer that takes everything: the number of records written, all
that was written, and the logbook afterwards. -/
def writeOut (b : Logbook) : Nat × String × Logbook :=
  let (first, w, interrupt) := b.interrupt.writeTo {}
  let (second, w, main) := b.main.writeTo w
  let total := first + second
  if 0 < interrupt.rejected ∨ 0 < main.rejected then
    (total, w.text ++ rejectedLine interrupt.rejected main.rejected,
      { b with interrupt := interrupt.forgetRejected, main := main.forgetRejected })
  else (total, w.text, { b with interrupt, main })

end Logbook

end MorseKeyboard
