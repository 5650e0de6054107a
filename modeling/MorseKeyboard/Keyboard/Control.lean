import MorseKeyboard.Keyboard.Clock

/-!
# Operating the keyboard

What may be asked of a keyboard: to start, to send, to keep texts and parameters, to change over to
command mode, to announce its faults. A request that names a slot or a preset that does not exist is
refused, and **a refused request changes nothing**, except that a refused start is recorded as a
fault and logged.
-/

namespace MorseKeyboard.Keyboard

variable {τ : Type}

/-! ### Sending -/

/-- Queue the message in a slot. -/
def playMessage (kb : Keyboard τ) (slot : Nat) : Except Refusal (Keyboard τ) :=
  if slot < Settings.messageSlots then .ok (kb.playSlot slot) else .error .slotOutOfRange

/-- Queue the callsign. -/
def playCallsign (kb : Keyboard τ) : Keyboard τ := kb.send kb.settings.callsign

/-- Play the notice about overruns, if the latest fault raised since the last call is one. -/
def announceOverruns (kb : Keyboard τ) : Keyboard τ :=
  let (new, faults) := kb.faults.acknowledge
  let kb := { kb with faults }
  if new && faults.fault == .tickOverrun then kb.send overrunText else kb

/-! ### Texts and presets -/

/-- Change the settings, with no effect on the parameters in force. -/
def change (kb : Keyboard τ) (c : Settings.Change) : Keyboard τ :=
  { kb with settings := kb.settings.apply c }

/-- Store a message. -/
def storeMessage (kb : Keyboard τ) (slot : Nat) (text : String) : Except Refusal (Keyboard τ) :=
  if slot < Settings.messageSlots then .ok (kb.change (.message slot text))
  else .error .slotOutOfRange

/-- Repeat a message every so many minutes, or not at all if that is zero. The countdown begins
afresh with the next minute. -/
def repeatMessage (kb : Keyboard τ) (slot minutes : Nat) : Except Refusal (Keyboard τ) :=
  if slot < Settings.messageSlots then
    let kb := kb.change (.interval slot minutes)
    .ok { kb with repeater := kb.repeater.restart slot }
  else .error .slotOutOfRange

/-- Store the callsign. -/
def storeCallsign (kb : Keyboard τ) (text : String) : Keyboard τ := kb.change (.callsign text)

/-- Store the current parameters in a preset. -/
def storePreset (kb : Keyboard τ) (index : Nat) : Except Refusal (Keyboard τ) :=
  if index < Settings.presetSlots then .ok (kb.change (.store index))
  else .error .presetOutOfRange

/-! ### Parameters -/

/-- A keying parameter to be set. -/
inductive Tuning where
  /-- The speed in words per minute; the fallback takes the place of one out of range. -/
  | wpm (wpm : Nat)
  /-- The pitch of the sidetone in Hz; the standard one takes the place of one out of range. -/
  | hz (hz : Nat)
  /-- The keying mode. -/
  | mode (mode : Mode)
  /-- The element of the left paddle; a space is not assigned. -/
  | left (s : Symbol)
  deriving DecidableEq, Repr

/-- The change of the settings that sets a parameter. -/
def Tuning.toChange : Tuning → Settings.Change
  | wpm w => .wpm w
  | hz h => .hz h
  | mode m => .mode m
  | left s => .left s

variable [Ticker τ]

/-- Change the settings and put their parameters into force. -/
def adjust (kb : Keyboard τ) (c : Settings.Change) : Keyboard τ := (kb.change c).reload

/-- Set a parameter. -/
def tune (kb : Keyboard τ) (t : Tuning) : Keyboard τ := kb.adjust t.toChange

/-- Exchange the paddles. -/
def exchangePaddles (kb : Keyboard τ) : Keyboard τ := kb.tune (.left kb.inForce.left.opposite)

/-- Make a preset the current parameters. -/
def recallPreset (kb : Keyboard τ) (index : Nat) : Except Refusal (Keyboard τ) :=
  if index < Settings.presetSlots then .ok (kb.adjust (.recall index))
  else .error .presetOutOfRange

/-! ### Starting and changing over -/

/-- The pieces of the message about the parameters at the start. -/
def startMessage (p : Parameters) : List String :=
  ["keyboard: ", p.wpm.repr, " wpm, ", p.mode.name, ", ", p.hz.repr, " Hz"]

/-- Claim the ticker and register the jobs of the keyboard. The answer says whether the ticker was
free; if it was not, a fault is recorded and nothing is registered. -/
def start (kb : Keyboard τ) : Except Refusal Unit × Keyboard τ :=
  match kb.scheduler.claim with
  | .error refusal =>
    (.error refusal,
      { kb with faults := kb.faults.raise .tickerInUse 0 }.error ["keyboard: ", refusal.text])
  | .ok scheduler =>
    let kb := { kb with scheduler }.emit (.tone kb.inForce.hz)
    let scheduler := ((kb.scheduler.register .keyer 1).register .output kb.unit).register
      .minute minuteMillis
    (.ok (), { kb with scheduler }.info (startMessage kb.inForce))

/-- Enter or leave command mode. Symbols and characters that wait are discarded, the letter being
decoded is forgotten, and text goes the other way from now on. -/
def changeOver (kb : Keyboard τ) (enabled : Bool) : Keyboard τ :=
  { kb with
    queues := { kb.queues with
      symbols := kb.queues.symbols.clear
      chars := kb.queues.chars.clear }
    sender := kb.sender.forgetLetter
    target := if enabled then .menu else .keystrokes }.info
      ["keyboard: command mode ", if enabled then "true" else "false"]

end MorseKeyboard.Keyboard
