import MorseKeyboard.Settings.Store

/-!
# Repeated messages

A message may be repeated every so many minutes. The repeater counts the minutes down, slot by slot.
A countdown at zero has not begun: it begins at the full interval with the next minute, and so does
one that is longer than an interval shortened meanwhile. **A slot is due when its countdown runs
out**, if it has a message to play; either way the countdown begins again.
-/

namespace MorseKeyboard

/-- The milliseconds after which the countdowns move on. -/
def minuteMillis : UInt16 := 60000

/-- The countdowns, in minutes; zero for a slot whose countdown has not begun. -/
structure Repeater where
  remaining : Vector Nat Settings.messageSlots := Vector.replicate Settings.messageSlots 0
  deriving DecidableEq, Repr

namespace Repeater

/-- A repeater in which no countdown has begun. -/
def fresh : Repeater := {}

/-- The minutes left for a slot; zero for one that does not exist. -/
def minutesLeft (r : Repeater) (slot : Nat) : Nat := r.remaining[slot]?.getD 0

/-- Begin the countdown of a slot afresh with the next minute. -/
def restart (r : Repeater) (slot : Nat) : Repeater :=
  { remaining := r.remaining.setIfInBounds slot 0 }

/-- The countdown from which a minute is taken, given the interval. -/
def current (remaining interval : Nat) : Nat :=
  if remaining = 0 ∨ interval < remaining then interval else remaining

/-- A countdown after a minute, and whether it has run out. -/
def countDown (remaining interval : Nat) : Bool × Nat :=
  if interval = 0 then (false, 0)
  else if current remaining interval = 1 then (true, interval)
  else (false, current remaining interval - 1)

/-- Whether a slot falls due with the next minute. -/
def isDue (r : Repeater) (s : Settings) (slot : Nat) : Bool :=
  (countDown (r.minutesLeft slot) (s.interval slot)).1 && !(s.message slot).isEmpty

/-- Let a minute pass: the slots due, in increasing order, and the repeater. -/
def passMinute (r : Repeater) (s : Settings) : List Nat × Repeater :=
  ((List.range Settings.messageSlots).filter (r.isDue s),
    { remaining := r.remaining.mapIdx fun slot left => (countDown left (s.interval slot)).2 })

end Repeater

end MorseKeyboard
