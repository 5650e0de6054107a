import MorseKeyboard.Symbol

/-!
# Speeds

A speed is given in words per minute, by the word PARIS, which is fifty units long: **a unit lasts
1200 ms divided by the speed**, rounded down. Speeds run from 3 to 99; a request outside that range
falls back to 13. All lengths are whole units: one for a dit, three for a dah, one between the
elements of a letter.
-/

namespace MorseKeyboard

/-- A speed the keyboard can keep. -/
structure Speed where
  /-- Words per minute. -/
  wpm : Nat
  inRange : 3 ≤ wpm ∧ wpm ≤ 99 := by decide
  deriving DecidableEq, Repr

namespace Speed

/-- The lowest speed. -/
def lowest : Nat := 3

/-- The highest speed. -/
def highest : Nat := 99

/-- The speed in place of one out of range. -/
def fallback : Nat := 13

/-- A requested speed, if it is in range, or else the fallback. -/
def clamp (wpm : Nat) : Nat := if lowest ≤ wpm ∧ wpm ≤ highest then wpm else fallback

/-- **A clamped speed is in range.** -/
theorem clamp_inRange (wpm : Nat) : 3 ≤ clamp wpm ∧ clamp wpm ≤ 99 := by
  unfold clamp
  split
  · next h => exact h
  · decide

/-- The speed that a request asks for, or the fallback. -/
def ofWpm (wpm : Nat) : Speed := ⟨clamp wpm, clamp_inRange wpm⟩

/-- The speed of a new keyboard. -/
def standard : Speed := ⟨20, by decide⟩

/-- The length of a dit in milliseconds: one unit. -/
def dit (s : Speed) : Nat := 1200 / s.wpm

/-- The length of a dah in milliseconds: three units. -/
def dah (s : Speed) : Nat := 3 * s.dit

/-- The length of a symbol with the unit of silence after it. For a space it is the silence that
ends a letter, as long as a dit with its own. -/
def period (s : Speed) : Symbol → Nat
  | .dah => 4 * s.dit
  | .dit | .space => 2 * s.dit

/-- The fastest unit has twelve milliseconds. -/
theorem twelve_le_dit (s : Speed) : 12 ≤ s.dit :=
  (Nat.le_div_iff_mul_le (by have := s.inRange; omega)).mpr (by have := s.inRange; omega)

/-- The slowest unit has 400 milliseconds. -/
theorem dit_le (s : Speed) : s.dit ≤ 400 := by
  rw [dit]
  exact Nat.le_trans (Nat.div_le_div_left s.inRange.1 (by decide)) (by decide)

end Speed

end MorseKeyboard
