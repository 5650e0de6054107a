import MorseKeyboard.Symbol

/-!
# Paddles and modes

The operator keys with two paddles. What reaches the keyer are edges, the moments at which a contact
closes or opens. How a squeeze, both paddles held at once, is keyed depends on the mode.
-/

namespace MorseKeyboard

/-- A paddle contact. -/
inductive Paddle where
  | left
  | right
  deriving DecidableEq, Repr

namespace Paddle

/-- The name of a paddle. -/
def name : Paddle → String
  | left => "left"
  | right => "right"

/-- The paddle on the other side. -/
def other : Paddle → Paddle
  | left => right
  | right => left

end Paddle

/-- A contact that closes or opens. -/
inductive Edge where
  | press (paddle : Paddle)
  | release (paddle : Paddle)
  deriving DecidableEq, Repr

namespace Edge

/-- The paddle whose contact it is. -/
def paddle : Edge → Paddle
  | press p | release p => p

/-- The words for an edge, as pieces of a message. -/
def words : Edge → List String
  | press p => [p.name, " press"]
  | release p => [p.name, " release"]

/-- An edge in words. -/
def text (e : Edge) : String := String.join e.words

end Edge

/-- The keying modes. In the iambic modes a squeeze alternates between the elements; in the others
the paddle pressed last repeats. -/
inductive Mode where
  | straight
  | ultimatic
  | bug
  | paddle
  | iambicA
  | iambicB
  deriving DecidableEq, Repr

namespace Mode

/-- All modes, in the order of their stored values. -/
def all : List Mode := [straight, ultimatic, bug, paddle, iambicA, iambicB]

/-- The value by which a mode is stored. -/
def value : Mode → Nat
  | straight => 0x01
  | ultimatic => 0x02
  | bug => 0x05
  | paddle => 0x06
  | iambicA => 0x11
  | iambicB => 0x12

/-- The mode with a stored value. -/
def ofValue? (v : Nat) : Option Mode := all.find? fun m => m.value == v

/-- Whether a squeeze alternates. -/
def isIambic : Mode → Bool
  | iambicA | iambicB => true
  | _ => false

/-- The name of a mode. -/
def name : Mode → String
  | straight => "straight"
  | ultimatic => "ultimatic"
  | bug => "bug"
  | paddle => "paddle"
  | iambicA => "iambic-a"
  | iambicB => "iambic-b"

/-- The mode with a name. -/
def ofName? (name : String) : Option Mode := all.find? fun m => m.name == name

theorem ofValue?_value (m : Mode) : ofValue? m.value = some m := by
  cases m <;> rfl

theorem ofName?_name (m : Mode) : ofName? m.name = some m := by
  cases m <;> decide

end Mode

end MorseKeyboard
