import MorseKeyboard.Console.Session

/-!
# Sessions from a script

A session can be played from a script, all of its input being there from the start, under a clock
that moves by exactly the time the session waits between its turns. Such a run depends on nothing
but the script.

The script is a list of bytes. It is read line by line, and **a line that is not UTF-8 ends it**.
-/

namespace MorseKeyboard.Console

/-- The lines of a script, up to the first that is not UTF-8. -/
def scriptLines (bytes : List UInt8) : List String :=
  ((Text.linesOf 0x0A 0x0D bytes).map Text.ofBytes?).takeWhile Option.isSome |>.filterMap id

/-- A session played from a script, between two turns. -/
structure Script where
  session : Session
  /-- The lines not read yet. -/
  lines : List String
  /-- The milliseconds that have passed since the last turn. -/
  elapsed : Nat := 0
  /-- All that was shown so far. -/
  output : String := ""
  /-- All that was logged so far. -/
  log : String := ""

namespace Script

/-- The session that a script starts, before its first turn. -/
def ofBytes (bytes : List UInt8) : Except Refusal Script :=
  Session.start.map fun session => { session, lines := scriptLines bytes }

/-- The input that the next turn finds, and the lines left after it. -/
def input : List String → Input × List String
  | [] => (.closed, [])
  | line :: lines => (.line line, lines)

/-- Play a turn. The answer says whether the session goes on. -/
def turn (s : Script) : Bool × Script :=
  let (input, lines) := input s.lines
  let t := s.session.turn input s.elapsed
  let s := { s with lines, output := s.output ++ t.output, log := s.log ++ t.log }
  match t.next with
  | some session => (true, { s with session, elapsed := session.wait })
  | none => (false, s)

/-- Play so many turns, or fewer if the session ends before. -/
def run (s : Script) : Nat → Script
  | 0 => s
  | n + 1 =>
    match s.turn with
    | (true, s) => s.run n
    | (false, s) => s

end Script

end MorseKeyboard.Console
