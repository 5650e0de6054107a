import MorseKeyboard.Keyboard.Control

/-!
# Requests

Everything that may be asked of a keyboard, as a value, so that what happened to a keyboard can be
written down as a list. `MorseKeyboard.Keyboard.handle` carries a request out and answers it. **A
request that is refused for its number leaves the keyboard as it was.**
-/

namespace MorseKeyboard

/-- Something asked of a keyboard. -/
inductive Request where
  /-- Claim the ticker and begin. -/
  | start
  /-- Read the parameters from the settings again. -/
  | reload
  /-- Play some characters. -/
  | send (bytes : List UInt8)
  /-- Play the message in a slot. -/
  | play (slot : Nat)
  /-- Play the callsign. -/
  | playCallsign
  | storeMessage (slot : Nat) (text : String)
  | repeatMessage (slot minutes : Nat)
  | storeCallsign (text : String)
  /-- Set a parameter of keying. -/
  | tune (t : Keyboard.Tuning)
  /-- Exchange the paddles. -/
  | exchangePaddles
  | recallPreset (index : Nat)
  | storePreset (index : Nat)
  /-- Enter or leave command mode. -/
  | changeOver (enabled : Bool)
  /-- Play a notice if there were overruns. -/
  | announceOverruns
  /-- Apply an edge of a paddle at once. -/
  | edge (e : Edge)
  deriving DecidableEq, Repr

namespace Keyboard

variable {τ : Type}

/-- The answer to a request that may be refused, and the keyboard afterwards. -/
def settle (kb : Keyboard τ) : Except Refusal (Keyboard τ) → Except Refusal Unit × Keyboard τ
  | .ok kb => (.ok (), kb)
  | .error refusal => (.error refusal, kb)

variable [Ticker τ]

/-- Carry out a request: the answer, and the keyboard afterwards. -/
def handle (kb : Keyboard τ) : Request → Except Refusal Unit × Keyboard τ
  | .start => kb.start
  | .reload => (.ok (), kb.reload)
  | .send bytes => (.ok (), kb.sendBytes bytes)
  | .play slot => kb.settle (kb.playMessage slot)
  | .playCallsign => (.ok (), kb.playCallsign)
  | .storeMessage slot text => kb.settle (kb.storeMessage slot text)
  | .repeatMessage slot minutes => kb.settle (kb.repeatMessage slot minutes)
  | .storeCallsign text => (.ok (), kb.storeCallsign text)
  | .tune t => (.ok (), kb.tune t)
  | .exchangePaddles => (.ok (), kb.exchangePaddles)
  | .recallPreset index => kb.settle (kb.recallPreset index)
  | .storePreset index => kb.settle (kb.storePreset index)
  | .changeOver enabled => (.ok (), kb.changeOver enabled)
  | .announceOverruns => (.ok (), kb.announceOverruns)
  | .edge e => (.ok (), kb.paddle e)

end Keyboard

end MorseKeyboard
