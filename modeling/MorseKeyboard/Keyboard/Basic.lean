import MorseKeyboard.Fault
import MorseKeyboard.Keyer.Keying
import MorseKeyboard.Repeater
import MorseKeyboard.Scheduler.Basic
import MorseKeyboard.Sender

/-!
# The keyboard

The keyboard joins the parts. Paddle edges go through the keyer to the symbol queue; characters go
through the sender to the same queue; the sender plays every symbol and lets the decoder listen;
what the decoder completes is delivered either to the host as keystrokes or, in command mode, to
the configuration menu.

What the keyboard does to the world is appended to its *outbox*, a list of signals in the order in
which they happened. Whoever drives the key and the sidetone takes the signals out.

The parameters of keying live in the settings. The keyboard works with a copy of them, corrected,
and `MorseKeyboard.Keyboard.reload` brings keyer, sidetone and output clock in line with the
settings again. **Every operation that changes a parameter ends with a reload.**
-/

namespace MorseKeyboard

/-- The state of the whole device, over a ticker of type `τ`. -/
structure Keyboard (τ : Type) where
  queues : Queues
  faults : FaultRegister
  settings : Settings
  scheduler : Scheduler τ
  log : Logbook
  keyer : Keyer := .fresh
  sender : Sender := .fresh
  repeater : Repeater := .fresh
  /-- Where decoded text goes. -/
  target : Target := .keystrokes
  /-- The keying parameters as last read from the settings. -/
  inForce : Parameters := .standard
  /-- What was done since the signals were last taken out. -/
  outbox : Array Signal := #[]
  deriving DecidableEq

namespace Keyboard

/-- Typed when the keyboard starts. -/
def greeting : String := "    hi."

/-- Played after the keyboard fell behind its clock. -/
def overrunText : String := "eeek!"

variable {τ : Type}

/-- The current speed. -/
def speed (kb : Keyboard τ) : Speed := kb.keyer.speed

/-- The length of a unit as a period of the scheduler. -/
def unit (kb : Keyboard τ) : UInt16 := kb.speed.dit.toUInt16

/-- Whether decoded text goes to the menu. -/
def inCommandMode (kb : Keyboard τ) : Bool := kb.target == .menu

/-- Append a signal to the outbox. -/
def emit (kb : Keyboard τ) (s : Signal) : Keyboard τ := { kb with outbox := kb.outbox.push s }

/-- Append signals to the outbox. -/
def emitAll (kb : Keyboard τ) (ss : List Signal) : Keyboard τ :=
  { kb with outbox := kb.outbox.appendList ss }

/-- Take the signals out of the outbox. -/
def takeSignals (kb : Keyboard τ) : List Signal × Keyboard τ :=
  (kb.outbox.toList, { kb with outbox := #[] })

/-- Log something in the main loop. -/
def info (kb : Keyboard τ) (pieces : List String) : Keyboard τ :=
  { kb with log := kb.log.info pieces }

/-- Log a warning in the main loop. -/
def warn (kb : Keyboard τ) (pieces : List String) : Keyboard τ :=
  { kb with log := kb.log.warn pieces }

/-- Log an error in the main loop. -/
def error (kb : Keyboard τ) (pieces : List String) : Keyboard τ :=
  { kb with log := kb.log.error pieces }

/-! ### Queues -/

/-- Queue characters to be played. -/
def sendBytes (kb : Keyboard τ) (bytes : List UInt8) : Keyboard τ :=
  { kb with queues := { kb.queues with chars := kb.queues.chars.pushAll bytes } }

/-- Queue one character to be played. -/
def sendByte (kb : Keyboard τ) (byte : UInt8) : Keyboard τ := kb.sendBytes [byte]

/-- Queue a text to be played. -/
def send (kb : Keyboard τ) (text : String) : Keyboard τ := kb.sendBytes (Text.bytes text)

/-- Deliver a decoded byte to where decoded text goes. -/
def deliver (kb : Keyboard τ) (byte : UInt8) : Keyboard τ :=
  let queues := match kb.target with
    | .keystrokes => { kb.queues with keystrokes := kb.queues.keystrokes.push byte }
    | .menu => { kb.queues with menu := kb.queues.menu.push byte }
  { kb with queues, outbox := kb.outbox.push (.delivered kb.target byte) }

/-! ### Parameters -/

variable [Ticker τ]

/-- Give the output clock a period, if the output is scheduled at all. -/
def retime (kb : Keyboard τ) (period : UInt16) : Keyboard τ :=
  if kb.scheduler.isOccupied .output then
    { kb with scheduler := kb.scheduler.register .output period }
  else kb

/-- Read the keying parameters from the settings again. -/
def reload (kb : Keyboard τ) : Keyboard τ :=
  let p := kb.settings.current.corrected
  let keyer := ((kb.keyer.withSpeed (.ofWpm p.wpm)).withMode p.mode).withLeft p.left
  let kb := { kb with inForce := p, keyer }.emit (.tone p.hz)
  kb.retime kb.unit

/-- A keyboard over queues, a fault register, settings and a logbook that may have been used before.
It is stopped. -/
def ofParts (ticker : τ) (queues : Queues) (faults : FaultRegister) (settings : Settings)
    (log : Logbook) : Keyboard τ :=
  { queues, faults, settings, log, scheduler := .ofTicker ticker : Keyboard τ }.reload

/-- A keyboard as it leaves the factory, stopped. -/
def fresh (ticker : τ) : Keyboard τ := ofParts ticker {} .fresh .standard .empty

end Keyboard

end MorseKeyboard
