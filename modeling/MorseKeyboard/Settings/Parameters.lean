import MorseKeyboard.Keyer.Paddle
import MorseKeyboard.Keyer.Speed

/-!
# Keying parameters

Speed, mode, assignment of the paddles and pitch of the sidetone are the four parameters of keying,
and a preset stores all four. A request may be anything; `MorseKeyboard.Parameters.corrected` makes
it one that can be kept, and **correcting twice changes nothing more**
(`MorseKeyboard.Parameters.corrected_corrected`).
-/

namespace MorseKeyboard

/-! ### The pitch of the sidetone -/

namespace Pitch

/-- The lowest pitch in Hz. -/
def lowest : Nat := 80

/-- The highest pitch in Hz. -/
def highest : Nat := 8000

/-- The pitch of a new keyboard, and the one in place of a pitch out of range. -/
def standard : Nat := 220

/-- A requested pitch, if it is in range, or else the standard one. -/
def clamp (hz : Nat) : Nat := if lowest ≤ hz ∧ hz ≤ highest then hz else standard

/-- **A clamped pitch is in range.** -/
theorem clamp_inRange (hz : Nat) : 80 ≤ clamp hz ∧ clamp hz ≤ 8000 := by
  unfold clamp
  split
  · next h => exact h
  · decide

theorem clamp_of_inRange {hz : Nat} (h : 80 ≤ hz ∧ hz ≤ 8000) : clamp hz = hz := if_pos h

end Pitch

/-! ### The four parameters -/

/-- What a preset stores. -/
structure Parameters where
  /-- Words per minute. -/
  wpm : Nat := 20
  mode : Mode := .bug
  /-- The symbol of the left paddle. -/
  left : Symbol := .dit
  /-- The pitch of the sidetone. -/
  hz : Nat := Pitch.standard
  deriving DecidableEq, Repr

namespace Parameters

/-- The parameters of a new keyboard. -/
def standard : Parameters := {}

/-- The parameters with speed and pitch in range and an element on the left paddle. -/
def corrected (p : Parameters) : Parameters where
  wpm := Speed.clamp p.wpm
  mode := p.mode
  left := if p.left.isElement then p.left else .dit
  hz := Pitch.clamp p.hz

theorem isElement_left_corrected (p : Parameters) : p.corrected.left.isElement = true := by
  unfold corrected
  split
  · next h => exact h
  · rfl

/-- **Correcting twice changes nothing more.** -/
@[simp] theorem corrected_corrected (p : Parameters) : p.corrected.corrected = p.corrected := by
  have hw : Speed.clamp (Speed.clamp p.wpm) = Speed.clamp p.wpm :=
    if_pos (Speed.clamp_inRange p.wpm)
  have hh : Pitch.clamp (Pitch.clamp p.hz) = Pitch.clamp p.hz :=
    Pitch.clamp_of_inRange (Pitch.clamp_inRange p.hz)
  have hl := p.isElement_left_corrected
  simp only [corrected] at hl ⊢
  simp only [hw, hh, hl, if_true]

/-- The parameters of a new keyboard are as they should be. -/
@[simp] theorem corrected_standard : standard.corrected = standard := by
  decide

end Parameters

end MorseKeyboard
