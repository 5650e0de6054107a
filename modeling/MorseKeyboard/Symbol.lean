/-!
# Symbols

Everything this keyboard keys, plays and decodes is a run over three symbols: the two elements, dit
and dah, and the space that ends a letter. Two spaces with no element between them stand for the
blank between words.

Three of the keyer's counters are kept one per symbol; `MorseKeyboard.PerSymbol` is such a triple,
read with `MorseKeyboard.PerSymbol.get` and changed with `MorseKeyboard.PerSymbol.set`.
-/

namespace MorseKeyboard

/-- One keyed element, or the boundary of a letter. -/
inductive Symbol where
  | dit
  | dah
  | space
  deriving DecidableEq, Repr

namespace Symbol

instance : Inhabited Symbol := ⟨space⟩

/-- All three symbols, in the order of their indices. -/
def all : List Symbol := [dit, dah, space]

/-- The place of a symbol in a table with one row per symbol. -/
def index : Symbol → Nat
  | dit => 0
  | dah => 1
  | space => 2

/-- The element the other paddle keys. A space has no opposite and is its own. -/
def opposite : Symbol → Symbol
  | dit => dah
  | dah => dit
  | space => space

/-- Whether a symbol closes the key, as dits and dahs do. -/
def isElement : Symbol → Bool
  | dit | dah => true
  | space => false

/-- The name of a symbol in messages to the operator. -/
def name : Symbol → String
  | dit => "DIT"
  | dah => "DAH"
  | space => "SPACE"

@[simp] theorem opposite_opposite (s : Symbol) : s.opposite.opposite = s := by
  cases s <;> rfl

@[simp] theorem isElement_opposite (s : Symbol) : s.opposite.isElement = s.isElement := by
  cases s <;> rfl

theorem isElement_iff_ne_space {s : Symbol} : s.isElement = true ↔ s ≠ space := by
  cases s <;> simp [isElement]

/-- **The two elements differ**, so no element is its own opposite. -/
theorem opposite_ne_self {s : Symbol} (h : s.isElement = true) : s.opposite ≠ s := by
  cases s <;> simp_all [isElement, opposite]

end Symbol

/-! ### One value per symbol -/

/-- A table with one row per symbol. -/
structure PerSymbol (α : Type) where
  dit : α
  dah : α
  space : α
  deriving DecidableEq, Repr

namespace PerSymbol

variable {α : Type}

/-- The same value in every row. -/
def const (a : α) : PerSymbol α := ⟨a, a, a⟩

/-- The row of a symbol. -/
def get (t : PerSymbol α) : Symbol → α
  | .dit => t.dit
  | .dah => t.dah
  | .space => t.space

/-- The table with the row of one symbol replaced. -/
def set (t : PerSymbol α) (s : Symbol) (a : α) : PerSymbol α :=
  match s with
  | .dit => { t with dit := a }
  | .dah => { t with dah := a }
  | .space => { t with space := a }

@[simp] theorem get_const (a : α) (s : Symbol) : (const a).get s = a := by
  cases s <;> rfl

@[simp] theorem get_set_self (t : PerSymbol α) (s : Symbol) (a : α) : (t.set s a).get s = a := by
  cases s <;> rfl

theorem get_set_of_ne {s r : Symbol} (h : s ≠ r) (t : PerSymbol α) (a : α) :
    (t.set s a).get r = t.get r := by
  cases s <;> cases r <;> simp_all [get, set]

/-- Reading a row after a write, in one equation. -/
theorem get_set (t : PerSymbol α) (s r : Symbol) (a : α) :
    (t.set s a).get r = if s = r then a else t.get r := by
  split
  · next h => subst h; exact get_set_self t s a
  · next h => exact get_set_of_ne h t a

end PerSymbol

end MorseKeyboard
