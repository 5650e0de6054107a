import MorseKeyboard.Keyer.Paddle
import MorseKeyboard.Ring.Basic

/-!
# The queues of the keyboard

Five rings join the interrupts, the keyer, the output and the consumers of text.
-/

namespace MorseKeyboard

/-- Symbols waiting to be played and decoded. -/
abbrev SymbolRing := Ring Symbol 16

/-- Characters waiting to be played. -/
abbrev CharRing := Ring UInt8 128

/-- Decoded characters waiting to be typed. -/
abbrev KeystrokeRing := Ring UInt8 8

/-- Paddle edges waiting for the next tick. -/
abbrev EdgeRing := Ring Edge 16

/-- Decoded characters for the configuration menu. -/
abbrev MenuRing := Ring UInt8 16

namespace SymbolRing

/-- A ring of symbols with nothing in it. -/
def empty : SymbolRing := Ring.empty 16 .space

end SymbolRing

namespace CharRing

/-- A ring of characters with nothing in it. -/
def empty : CharRing := Ring.empty 128 0

end CharRing

namespace KeystrokeRing

/-- A ring of keystrokes with nothing in it. -/
def empty : KeystrokeRing := Ring.empty 8 0

end KeystrokeRing

namespace EdgeRing

/-- A ring of paddle edges with nothing in it. -/
def empty : EdgeRing := Ring.empty 16 (.release .left)

end EdgeRing

namespace MenuRing

/-- A ring of menu characters with nothing in it. -/
def empty : MenuRing := Ring.empty 16 0

end MenuRing

/-- All queues of a keyboard. -/
structure Queues where
  paddles : EdgeRing := EdgeRing.empty
  symbols : SymbolRing := SymbolRing.empty
  chars : CharRing := CharRing.empty
  keystrokes : KeystrokeRing := KeystrokeRing.empty
  menu : MenuRing := MenuRing.empty
  deriving DecidableEq, Repr

end MorseKeyboard
