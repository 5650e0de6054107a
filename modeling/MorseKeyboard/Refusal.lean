/-!
# Refusals

The three reasons for which the keyboard refuses what it is asked to do. Each has a code, by which
the manual lists it, and a message.
-/

namespace MorseKeyboard

/-- Why a request was refused. -/
inductive Refusal where
  /-- The ticker is owned by another user. -/
  | tickerInUse
  /-- There is no message slot with this number. -/
  | slotOutOfRange
  /-- There is no preset with this number. -/
  | presetOutOfRange
  deriving DecidableEq, Repr

namespace Refusal

/-- All refusals, in the order of their codes. -/
def all : List Refusal := [tickerInUse, slotOutOfRange, presetOutOfRange]

/-- The code of a refusal. -/
def code : Refusal → String
  | tickerInUse => "K01"
  | slotOutOfRange => "K02"
  | presetOutOfRange => "K03"

/-- What a refusal says. -/
def message : Refusal → String
  | tickerInUse => "time base in use"
  | slotOutOfRange => "memory slot out of range"
  | presetOutOfRange => "preset out of range"

/-- A refusal as it is shown to the operator. -/
def text (r : Refusal) : String := r.code ++ ": " ++ r.message

end Refusal

end MorseKeyboard
