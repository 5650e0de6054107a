import MorseKeyboard.Log.Logbook
import MorseKeyboard.Settings.Parameters
import MorseKeyboard.Text.Bytes

/-!
# The settings

What the keyboard keeps for its operator: the current keying parameters, ten presets of them, a
callsign, and ten messages with the minutes after which each is repeated. Texts are cut to the whole
characters that fit.

Every way to alter the settings is a `MorseKeyboard.Settings.Change`, and
`MorseKeyboard.Settings.apply` carries it out. **A change that names a slot or a preset that does
not exist changes nothing**; at the logbook it also leaves a warning
(`MorseKeyboard.Settings.applyLogged`).
-/

namespace MorseKeyboard

namespace Settings

/-- How many messages are stored. -/
def messageSlots : Nat := 10

/-- The most bytes of a message. -/
def messageBytes : Nat := 64

/-- The most bytes of the callsign. -/
def callsignBytes : Nat := 16

/-- How many presets are stored. -/
def presetSlots : Nat := 10

end Settings

open Settings in
/-- The settings of a keyboard. -/
structure Settings where
  /-- The current parameters. -/
  current : Parameters := .standard
  callsign : String := ""
  messages : Vector String messageSlots := Vector.replicate messageSlots ""
  /-- Minutes from one repetition of each message to the next, zero for none. -/
  intervals : Vector Nat messageSlots := Vector.replicate messageSlots 0
  presets : Vector Parameters presetSlots := Vector.replicate presetSlots .standard
  /-- The preset loaded or saved last. -/
  chosenPreset : Nat := 0
  deriving DecidableEq, Repr

namespace Settings

/-- The settings of a new keyboard. -/
def standard : Settings := {}

/-- The message in a slot; a slot that does not exist has an empty one. -/
def message (s : Settings) (slot : Nat) : String := s.messages[slot]?.getD ""

/-- The minutes between repetitions of a message; zero for a slot that does not exist. -/
def interval (s : Settings) (slot : Nat) : Nat := s.intervals[slot]?.getD 0

/-- The content of a preset, if it exists. -/
def preset? (s : Settings) (index : Nat) : Option Parameters := s.presets[index]?

/-! ### Changes -/

/-- A way to alter the settings. -/
inductive Change where
  /-- Set the speed, or the fallback if it is out of range. -/
  | wpm (wpm : Nat)
  /-- Set the pitch, or the standard one if it is out of range. -/
  | hz (hz : Nat)
  | mode (mode : Mode)
  /-- Assign the left paddle; a space is not assigned. -/
  | left (s : Symbol)
  | callsign (text : String)
  | message (slot : Nat) (text : String)
  | interval (slot : Nat) (minutes : Nat)
  /-- Make a preset the current parameters. -/
  | recall (index : Nat)
  /-- Store the current parameters in a preset. -/
  | store (index : Nat)
  /-- Store other parameters in a preset. -/
  | preset (index : Nat) (p : Parameters)
  /-- Replace the current parameters. -/
  | current (p : Parameters)
  deriving DecidableEq, Repr

/-- A number that names no slot or no preset. -/
inductive BadIndex where
  | slot (index : Nat)
  | preset (index : Nat)
  deriving DecidableEq, Repr

namespace BadIndex

/-- The pieces of the warning about a bad index. -/
def complaint : BadIndex → List String
  | slot i => ["settings: ", "memory slot", " ", i.repr, " out of range"]
  | preset i => ["settings: ", "preset", " ", i.repr, " out of range"]

end BadIndex

/-- What is wrong with the slot or preset that a change names, if anything is. -/
def Change.badIndex? : Change → Option BadIndex
  | .message i _ | .interval i _ => if i < messageSlots then none else some (.slot i)
  | .recall i | .store i | .preset i _ => if i < presetSlots then none else some (.preset i)
  | _ => none

/-- The settings after a change. -/
def apply (s : Settings) : Change → Settings
  | .wpm wpm => { s with current := { s.current with wpm := Speed.clamp wpm } }
  | .hz hz => { s with current := { s.current with hz := Pitch.clamp hz } }
  | .mode mode => { s with current := { s.current with mode } }
  | .left x => if x.isElement then { s with current := { s.current with left := x } } else s
  | .callsign text => { s with callsign := Text.cut callsignBytes text }
  | .message i text =>
    { s with messages := s.messages.setIfInBounds i (Text.cut messageBytes text) }
  | .interval i minutes => { s with intervals := s.intervals.setIfInBounds i minutes }
  | .recall i =>
    match s.preset? i with
    | some p => { s with current := p, chosenPreset := i }
    | none => s
  | .store i =>
    if i < presetSlots then
      { s with presets := s.presets.setIfInBounds i s.current, chosenPreset := i }
    else s
  | .preset i p => { s with presets := s.presets.setIfInBounds i p.corrected }
  | .current p => { s with current := p.corrected }

/-- Carry out a change, or log what is wrong with it. -/
def applyLogged (s : Settings) (log : Logbook) (c : Change) : Settings × Logbook :=
  match c.badIndex? with
  | none => (s.apply c, log)
  | some bad => (s, log.warn bad.complaint)

end Settings

end MorseKeyboard
