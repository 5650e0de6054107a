/-!
# Reading numbers

A number is typed as decimal digits, at least one, with a plus sign before them or not. Leading
zeros do not matter. **A number above the limit of its quantity is no number**, and neither is
anything with a blank, a minus sign or a letter in it.
-/

namespace MorseKeyboard.Text

/-- The value of a decimal digit; the digits are those of ASCII. -/
def digit? (c : Char) : Option Nat := if c.isDigit then some (c.toNat - '0'.toNat) else none

/-- The value of some digits after others whose value is known. -/
def digits? (value : Nat) : List Char → Option Nat
  | [] => some value
  | c :: cs =>
    match digit? c with
    | some d => digits? (10 * value + d) cs
    | none => none

/-- The number with at least one digit. -/
def unsigned? : List Char → Option Nat
  | [] => none
  | cs => digits? 0 cs

/-- The number that some characters stand for, if it is at most `limit`. -/
def number? (limit : Nat) (cs : List Char) : Option Nat :=
  (match cs with
    | '+' :: rest => unsigned? rest
    | _ => unsigned? cs).filter (· ≤ limit)

end MorseKeyboard.Text
