/-!
# Tickers

Something has to say once a millisecond that a millisecond has passed: a hardware timer, or the main
loop of a program. This is a *ticker*. The scheduler claims it, starts it when the first job is
registered and stops it when the last one is gone.
-/

namespace MorseKeyboard

/-- A source of one tick per millisecond. -/
class Ticker (τ : Type) where
  /-- Claim the ticker; there is no result if another user owns it. One that does not say
  otherwise is always free. -/
  claim : τ → Option τ := some
  /-- Begin to deliver ticks. -/
  start : τ → τ
  /-- Deliver no more ticks. -/
  stop : τ → τ

/-- A ticker that leaves no trace of being started and stopped. -/
instance : Ticker Unit where
  start := id
  stop := id

/-- A ticker driven by its owner, who asks whether it runs and passes the ticks on. It counts how
often it was started and stopped. -/
structure PolledTicker where
  /-- Whether ticks are to be delivered. -/
  isRunning : Bool := false
  /-- Whether another user owns it. -/
  isOwned : Bool := false
  /-- How often it was started. -/
  startCount : UInt32 := 0
  /-- How often it was stopped. -/
  stopCount : UInt32 := 0
  deriving DecidableEq, Repr

namespace PolledTicker

/-- A ticker nobody owns. -/
def free : PolledTicker := {}

/-- A ticker that another user owns, and keeps. -/
def owned : PolledTicker := { isOwned := true }

instance : Ticker PolledTicker where
  claim b := if b.isOwned then none else some b
  start b := { b with isRunning := true, startCount := b.startCount + 1 }
  stop b := { b with isRunning := false, stopCount := b.stopCount + 1 }

end PolledTicker

end MorseKeyboard
