import MorseKeyboard.Symbol

/-!
# Signals

What the keyboard does to the world, as a list of things that happened in order: the pitch of the
sidetone is set, a symbol is taken up for playing, the key goes down or up, a decoded character is
delivered to one of its two destinations.
-/

namespace MorseKeyboard

/-- Where decoded text goes. -/
inductive Target where
  /-- To the host, as keystrokes. -/
  | keystrokes
  /-- To the configuration menu. -/
  | menu
  deriving DecidableEq, Repr

namespace Target

/-- The name of a destination. -/
def name : Target → String
  | keystrokes => "keystrokes"
  | menu => "menu"

end Target

/-- One thing that the keyboard did. -/
inductive Signal where
  /-- The sidetone was set to a pitch in Hz. -/
  | tone (hz : Nat)
  /-- A symbol was taken off the queue, to be played. -/
  | symbol (s : Symbol)
  /-- The key went down. -/
  | keyDown
  /-- The key went up. -/
  | keyUp
  /-- A decoded byte was delivered. -/
  | delivered (target : Target) (byte : UInt8)
  deriving DecidableEq, Repr

namespace Signal

/-- The symbol that was taken up, if this is what happened. -/
def symbol? : Signal → Option Symbol
  | symbol s => some s
  | _ => none

/-- Whether this is a movement of the key. -/
def isKeying : Signal → Bool
  | keyDown | keyUp => true
  | _ => false

/-- Whether this goes to the output device: the sidetone, the key and the symbols it plays. -/
def isOutput : Signal → Bool
  | delivered _ _ => false
  | _ => true

end Signal

end MorseKeyboard
