/-!
# Levels of the log

A record has one of five levels. The log keeps the records up to a most verbose level, so **an error
always passes** (`MorseKeyboard.Log.Level.passes_error`), and everything does if that level is the
most verbose of all.
-/

namespace MorseKeyboard.Log

/-- How grave a record is, from the gravest on. -/
inductive Level where
  | error
  | warn
  | info
  | debug
  | trace
  deriving DecidableEq, Repr

namespace Level

/-- All levels, the gravest first. -/
def all : List Level := [error, warn, info, debug, trace]

/-- How verbose a level is: zero for the gravest. -/
def verbosity : Level → Nat
  | error => 0
  | warn => 1
  | info => 2
  | debug => 3
  | trace => 4

/-- The name of a level in a log line. -/
def label : Level → String
  | error => "ERROR"
  | warn => "WARN"
  | info => "INFO"
  | debug => "DEBUG"
  | trace => "TRACE"

/-- Whether a record of this level is kept when the most verbose level kept is `most`. -/
def passes (level most : Level) : Bool := level.verbosity ≤ most.verbosity

theorem passes_error (most : Level) : error.passes most = true := by
  cases most <;> rfl

theorem passes_trace (level : Level) : level.passes trace = true := by
  cases level <;> rfl

end Level

end MorseKeyboard.Log
