/-!
# Timing faults

Code sent with broken timing is worse than code not sent at all, so the keyboard records whenever
its clock could not be trusted. The latest fault is packed into one 32-bit word, so that what
happened and how badly are always read together: bit 31 says whether the fault still stands, the
seven bits below hold its value, the lowest 24 bits a detail, which **stops at its greatest value**
instead of wrapping.

Two counters say how many faults were raised and how many of them were acknowledged. They tell
whether anything was raised since, however many faults it was.
-/

namespace MorseKeyboard

/-- Why the timing is suspect. -/
inductive Fault where
  /-- Nothing was recorded yet. -/
  | none
  /-- The ticker was claimed already; nothing is scheduled. -/
  | tickerInUse
  /-- Several ticks were made up for at once; the detail says how many were late. -/
  | tickOverrun
  deriving DecidableEq, Repr

namespace Fault

/-- All faults, in the order of their values. -/
def all : List Fault := [none, tickerInUse, tickOverrun]

/-- The value by which a fault is stored. -/
def value : Fault → UInt32
  | none => 0
  | tickerInUse => 1
  | tickOverrun => 2

/-- The fault with a stored value; an unknown value counts as none. -/
def ofValue (v : UInt32) : Fault := (all.find? fun f => f.value == v).getD none

/-- The name of a fault. -/
def name : Fault → String
  | none => "NONE"
  | tickerInUse => "TIME_BASE_IN_USE"
  | tickOverrun => "TICK_OVERRUN"

theorem ofValue_value (f : Fault) : ofValue f.value = f := by
  cases f <;> rfl

end Fault

/-- The latest fault and the counters. -/
structure FaultRegister where
  /-- The latest fault, packed. -/
  word : UInt32 := 0
  /-- How many faults were ever raised. -/
  raised : UInt32 := 0
  /-- How many had been raised when they were last acknowledged. -/
  seen : UInt32 := 0
  deriving DecidableEq, Repr

namespace FaultRegister

/-- No fault yet. -/
def fresh : FaultRegister := {}

/-- The bit of a fault that stands. -/
def standingBit : UInt32 := 0x80000000

/-- The bits of the value, moved to the right end. -/
def valueMask : UInt32 := 0x7F

/-- The greatest detail that can be kept, which is also the mask of the detail. -/
def detailMax : UInt32 := 0xFFFFFF

/-- A fault that stands, as a word. -/
def pack (fault : Fault) (detail : UInt32) : UInt32 :=
  standingBit ||| (fault.value <<< 24) ||| min detail detailMax

/-- Raise a fault. It takes the place of the one before it. -/
def raise (r : FaultRegister) (fault : Fault) (detail : UInt32) : FaultRegister :=
  { r with word := pack fault detail, raised := r.raised + 1 }

/-- Whether the latest fault still stands. -/
def isStanding (r : FaultRegister) : Bool := r.word &&& standingBit != 0

/-- The latest fault, whether it stands or not. -/
def fault (r : FaultRegister) : Fault := .ofValue ((r.word >>> 24) &&& valueMask)

/-- The detail of the latest fault, whether it stands or not. -/
def detail (r : FaultRegister) : UInt32 := r.word &&& detailMax

/-- Let the latest fault stand no longer. It can still be read. -/
def clear (r : FaultRegister) : FaultRegister := { r with word := r.word &&& ~~~standingBit }

/-- Acknowledge all faults: whether there were any since the last time, and the register. -/
def acknowledge (r : FaultRegister) : Bool × FaultRegister :=
  (r.seen != r.raised, { r with seen := r.raised })

end FaultRegister

/-- What a register tells at one time. -/
structure FaultReport where
  /-- Whether the latest fault still stands. -/
  standing : Bool
  fault : Fault
  detail : UInt32
  /-- How many faults were ever raised. -/
  raised : UInt32
  deriving DecidableEq, Repr

/-- All that a register tells, from one reading of the word. -/
def FaultRegister.report (r : FaultRegister) : FaultReport where
  standing := r.isStanding
  fault := r.fault
  detail := r.detail
  raised := r.raised

end MorseKeyboard
