import MorseKeyboard.Refusal
import MorseKeyboard.Scheduler.Slot
import MorseKeyboard.Scheduler.Ticker

/-!
# The scheduler

A millisecond clock of 16 bits and at most one periodic job per slot. A job registered at time `t`
with period `p` is due at `t + p`, `t + 2 * p` and so on: each time it is due its next time moves on
by the period, so **lateness never adds up**. All times are taken modulo 65536, as the clock wraps;
a period fits into 16 bits, so the distance to the next time is never in doubt.

The ticker runs exactly while a job is registered.
-/

namespace MorseKeyboard

/-- A periodic job. -/
structure Job where
  /-- The period in milliseconds. -/
  period : UInt16
  /-- The value of the clock at which the job is due next. -/
  due : UInt16
  deriving DecidableEq, Repr

namespace Job

/-- Whether a job is due at a clock value. -/
def isDue (j : Job) (now : UInt16) : Bool := j.due == now

/-- The job after a clock value has been reached. -/
def pass (j : Job) (now : UInt16) : Job :=
  if j.isDue now then { j with due := j.due + j.period } else j

end Job

/-- The signed distance from one clock value to a later one; right for distances below 2^15. -/
def clockDistance (later earlier : UInt16) : Int16 := (later - earlier).toInt16

/-- A clock, its ticker and the registered jobs. -/
structure Scheduler (τ : Type) where
  ticker : τ
  /-- The clock in milliseconds. -/
  now : UInt16 := 0
  jobs : PerSlot (Option Job) := PerSlot.ofFn fun _ => none
  deriving DecidableEq, Repr

namespace Scheduler

variable {τ : Type}

/-- A scheduler at time zero with nothing registered. -/
def ofTicker (ticker : τ) : Scheduler τ := { ticker }

/-- The job in a slot, if there is one. -/
def job? (s : Scheduler τ) (slot : Slot) : Option Job := s.jobs.get slot

/-- Whether a slot holds a job. -/
def isOccupied (s : Scheduler τ) (slot : Slot) : Bool := (s.job? slot).isSome

/-- Whether any slot holds a job. -/
def isActive (s : Scheduler τ) : Bool := s.jobs.toList.any Option.isSome

/-- Advance the clock by a millisecond: the slots whose jobs are due now, and the scheduler. -/
def tick (s : Scheduler τ) : SlotSet × Scheduler τ :=
  let now := s.now + 1
  (SlotSet.ofPred fun slot => (s.job? slot).any (·.isDue now),
    { s with now, jobs := PerSlot.ofFn fun slot => (s.job? slot).map (·.pass now) })

/-- The milliseconds until the next job is due, if any is registered. -/
def timeToNext? (s : Scheduler τ) : Option Nat :=
  (s.jobs.toList.filterMap fun job => job.map fun j => (j.due - s.now).toNat).min?

variable [Ticker τ]

/-- Claim the ticker. -/
def claim (s : Scheduler τ) : Except Refusal (Scheduler τ) :=
  match Ticker.claim s.ticker with
  | some ticker => .ok { s with ticker }
  | none => .error .tickerInUse

/-- Put a job into a slot, in place of the one it held. A period of zero counts as one. -/
def register (s : Scheduler τ) (slot : Slot) (period : UInt16) : Scheduler τ :=
  let period := max period 1
  { s with
    jobs := s.jobs.set slot (some { period, due := s.now + period })
    ticker := if s.isActive then s.ticker else Ticker.start s.ticker }

/-- Take the job out of a slot. -/
def unregister (s : Scheduler τ) (slot : Slot) : Scheduler τ :=
  if s.isOccupied slot then
    let s := { s with jobs := s.jobs.set slot none }
    if s.isActive then s else { s with ticker := Ticker.stop s.ticker }
  else s

end Scheduler

end MorseKeyboard
