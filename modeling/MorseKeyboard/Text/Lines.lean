/-!
# Lines of text

A text is split into lines at its newlines. The newline belongs to the line it ends and is taken
off, together with one carriage return right before it. What follows the last newline is a line only
if it is not empty.

The same rule serves characters and bytes, so the functions here are about lists.
-/

namespace MorseKeyboard.Text

variable {α : Type} [DecidableEq α]

/-- The parts of a list between the occurrences of a separator: the first part and the others. -/
def parts (separator : α) : List α → List α × List (List α)
  | [] => ([], [])
  | a :: as =>
    let (first, others) := parts separator as
    if a = separator then ([], first :: others) else (a :: first, others)

/-- A line without one carriage return at its end. -/
def dropReturn (carriage : α) (line : List α) : List α :=
  if line.getLast? = some carriage then line.dropLast else line

/-- The lines of a list, given its newline and its carriage return. -/
def linesOf (newline carriage : α) (as : List α) : List (List α) :=
  let (first, others) := parts newline as
  let ended := (first :: others).dropLast.map (dropReturn carriage)
  match others.getLast?.getD first with
  | [] => ended
  | last => ended ++ [last]

/-- The lines of a text. -/
def lines (s : String) : List String := (linesOf '\n' '\r' s.toList).map String.ofList

/-- Either side of the first occurrence of a separator; nothing if it does not occur. -/
def splitFirst? (separator : α) : List α → Option (List α × List α)
  | [] => none
  | a :: as =>
    if a = separator then some ([], as)
    else (splitFirst? separator as).map fun (before, after) => (a :: before, after)

end MorseKeyboard.Text
