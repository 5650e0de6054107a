import MorseKeyboard.Console.Session

/-!
# The program

A session at the terminal, paced by the clock on the wall. Lines of the standard input are read in
the background, so that the session goes on while the operator thinks; what a turn shows goes to the
standard output, what it logs to the standard error.
-/

namespace MorseKeyboard.Console

/-- Lines that were read and not taken up yet. -/
structure Inbox where
  lines : List String := []
  /-- Whether the input has ended. -/
  closed : Bool := false

namespace Inbox

/-- Add a line. -/
def add (b : Inbox) (line : String) : Inbox := { b with lines := b.lines ++ [line] }

/-- What the next turn finds, and the inbox without it. -/
def take (b : Inbox) : Input × Inbox :=
  match b.lines with
  | line :: rest => (.line line, { b with lines := rest })
  | [] => (if b.closed then .closed else .pending, b)

end Inbox

/-- The next line of a stream; nothing at its end, and nothing if the line is not text. -/
def nextLine? (stdin : IO.FS.Stream) : IO (Option String) :=
  try
    return (Text.lines (← stdin.getLine)).head?
  catch _ =>
    return none

/-- Read lines into the inbox until the input ends or the operator quits. -/
partial def listen (stdin : IO.FS.Stream) (inbox : IO.Ref Inbox) : IO Unit := do
  match ← nextLine? stdin with
  | some line =>
    inbox.modify (·.add line)
    if Command.parse line != .quit then
      listen stdin inbox
  | none => inbox.modify fun b => { b with closed := true }

/-- Take turns until the session ends, given when it started and the milliseconds run so far. -/
partial def attend (inbox : IO.Ref Inbox) (start done : Nat) (s : Session) : IO Unit := do
  let input ← inbox.modifyGet Inbox.take
  let elapsed := (← IO.monoMsNow) - start
  let turn := s.turn input (elapsed - done)
  IO.print turn.output
  (← IO.getStdout).flush
  IO.eprint turn.log
  match turn.next with
  | some s =>
    IO.sleep s.wait.toUInt32
    attend inbox start (max done elapsed) s
  | none => return

end MorseKeyboard.Console

open MorseKeyboard.Console in
/-- Run a session at the terminal. -/
def main : IO Unit := do
  match Session.start with
  | .error refusal => IO.eprintln ("keyboard: " ++ refusal.text)
  | .ok session =>
    let inbox ← IO.mkRef {}
    let listener ← IO.asTask (listen (← IO.getStdin) inbox) Task.Priority.dedicated
    attend inbox (← IO.monoMsNow) 0 session
    IO.cancel listener
