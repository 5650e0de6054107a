import MorseKeyboard.Console.Command
import MorseKeyboard.Report

/-!
# Sessions at the console

A session runs a keyboard for an operator at a terminal. It goes in turns: each takes at most one
line of input, runs the milliseconds that have passed, and shows what came of it. Keyed symbols are
shown as dots, dashes and blanks as they are played; bytes for the menu are shown one by one; the
text typed by the host's polls is shown **when everything waiting has been played and typed**. The
session ends when the operator quits, or when the input has ended and nothing is left to do.
-/

namespace MorseKeyboard.Console

/-- The milliseconds between two polls of the host. -/
def pollMillis : UInt16 := 10

/-- What a turn finds at the input. -/
inductive Input where
  /-- A complete line. -/
  | line (text : String)
  /-- Nothing yet. -/
  | pending
  /-- No line will come any more. -/
  | closed
  deriving DecidableEq, Repr

/-- A session between two turns. -/
structure Session where
  keyboard : Keyboard PolledTicker
  reporter : Reporter := .fresh
  /-- The text typed since it was last shown. -/
  typed : Array Char := #[]
  /-- Whether more input may come. -/
  inputOpen : Bool := true

/-- What a turn leads to. -/
structure Turn where
  /-- What is shown to the operator. -/
  output : String
  /-- What is written to the log. -/
  log : String
  /-- The session to go on with, unless it has ended. -/
  next : Option Session

namespace Session

/-- Start the keyboard, have it polled and let it greet. -/
def start : Except Refusal Session :=
  match (Keyboard.fresh PolledTicker.free).start with
  | (.error refusal, _) => .error refusal
  | (.ok (), kb) =>
    .ok { keyboard := { kb with
      scheduler := kb.scheduler.register .host pollMillis }.send Keyboard.greeting }

/-- A symbol as it is shown. -/
def glyph : Symbol → Char
  | .dit => '.'
  | .dah => '-'
  | .space => ' '

/-- Append what a byte types: a backspace takes the last character back. -/
def typeByte (typed : Array Char) (byte : UInt8) : Array Char :=
  if byte = Code.backspace then typed.pop else typed.push (Char.ofNat byte.toNat)

/-- Answer a poll of the host, and append what it types. -/
def poll (s : Session) : Session :=
  let queue := s.keyboard.queues.keystrokes
  let head := queue.peek?
  let (report, reporter, queue) := s.reporter.respond queue
  let typed := match head with
    | some byte => if report.isEmpty then s.typed else typeByte s.typed byte
    | none => s.typed
  { s with
    reporter
    typed
    keyboard := { s.keyboard with queues := { s.keyboard.queues with keystrokes := queue } } }

/-- Run a millisecond: what was played in it, and the session. -/
def tick (s : Session) : String × Session :=
  let (fired, kb) := s.keyboard.tick
  let (signals, kb) := kb.takeSignals
  let s := { s with keyboard := kb }
  (String.ofList (signals.filterMap Signal.symbol? |>.map glyph),
    if fired.contains .host then s.poll else s)

/-- Run some milliseconds. -/
def ticks (s : Session) (output : String) : Nat → String × Session
  | 0 => (output, s)
  | n + 1 =>
    let (played, s) := s.tick
    s.ticks (output ++ played) n

/-- A byte for the menu, as it is shown. -/
def menuLine (byte : UInt8) : String :=
  "\nmenu: " ++ Text.quoteChar (Char.ofNat byte.toNat) ++ "\n"

/-- Show what is waiting for the menu. -/
def showMenu (s : Session) : String × Session :=
  let (bytes, menu) := s.keyboard.queues.menu.drain
  (String.join (bytes.map menuLine),
    { s with keyboard := { s.keyboard with queues := { s.keyboard.queues with menu } } })

/-- Write out the log. -/
def showLog (s : Session) : String × Session :=
  let (_, text, log) := s.keyboard.log.writeOut
  (text, { s with keyboard := { s.keyboard with log } })

/-- Whether nothing waits to be played or typed. -/
def isIdle (s : Session) : Bool :=
  let q := s.keyboard.queues
  q.chars.isEmpty && q.symbols.isEmpty && q.keystrokes.isEmpty && s.keyboard.sender.state == .idle

/-- Show the text typed so far, once nothing waits any more. -/
def showTyped (s : Session) : String × Session :=
  if s.isIdle && !s.typed.isEmpty then
    ("\ntyped: " ++ Text.quoteText s.typed.toList ++ "\n", { s with typed := #[] })
  else ("", s)

/-- Take what a turn finds at the input: what is said about it, and the session. There is no result
if the operator quits. -/
def read (s : Session) : Input → Option (String × Session)
  | .line text =>
    (respondTo s.keyboard text).map fun (said, keyboard) => (said, { s with keyboard })
  | .pending => some ("", s)
  | .closed => some ("", { s with inputOpen := false })

/-- Run the milliseconds of a turn and show what came of it. -/
def run (s : Session) (said : String) (millis : Nat) : Turn :=
  let (output, s) := s.ticks said millis
  let (menu, s) := s.showMenu
  let (log, s) := s.showLog
  let (typed, s) := s.showTyped
  { output := output ++ menu ++ typed
    log
    next := if s.isIdle && !s.inputOpen then none else some s }

/-- One turn, given what is at the input and how many milliseconds have passed. -/
def turn (s : Session) (input : Input) (millis : Nat) : Turn :=
  match s.read input with
  | some (said, s) => s.run said millis
  | none => { output := "", log := "", next := none }

/-- How many milliseconds to wait before the next turn. -/
def wait (s : Session) : Nat := max 1 (s.keyboard.scheduler.timeToNext?.getD 1)

end Session

end MorseKeyboard.Console
