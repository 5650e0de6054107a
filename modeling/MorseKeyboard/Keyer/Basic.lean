import MorseKeyboard.Keyer.Paddle
import MorseKeyboard.Keyer.Speed

/-!
# The keyer

The keyer turns paddle edges and milliseconds into symbols. Its state says which paddles are held;
an edge that the state makes impossible, a press of a paddle that is down or a release of one that
is up, is refused (`MorseKeyboard.Keyer.edge?`).

Rhythm is kept by counters, one per symbol, of the milliseconds since that symbol was last keyed. A
symbol is due when its counter has reached its period, so a press sets the counter of its symbol
there, and the next tick keys it.

* **One paddle held**: its symbol is keyed, and again after each period.
* **Both held**: the paddle that came second is keyed at once. In the iambic modes the two elements
  then alternate; in the others the second paddle repeats. The element to come is kept as *pending*.
* **Back to none**: a letter space is owed, and keyed once the keyer has been idle for its period.
  In mode iambic B the pending element of a squeeze, if it was not keyed yet, is keyed at once.
-/

namespace MorseKeyboard

namespace Keyer

/-- Which paddles are held. -/
inductive State where
  | idle
  | leftHeld
  | rightHeld
  | bothHeld
  deriving DecidableEq, Repr

namespace State

/-- All states. -/
def all : List State := [idle, leftHeld, rightHeld, bothHeld]

/-- The name of a state. -/
def name : State → String
  | idle => "idle"
  | leftHeld => "left-held"
  | rightHeld => "right-held"
  | bothHeld => "both-held"

/-- The state in which one paddle is held. -/
def holding : Paddle → State
  | .left => leftHeld
  | .right => rightHeld

end State

end Keyer

/-- The keying state machine. -/
structure Keyer where
  state : Keyer.State := .idle
  mode : Mode := .bug
  speed : Speed := Speed.standard
  /-- The symbol of the left paddle; the right one keys its opposite. -/
  left : Symbol := .dit
  /-- The milliseconds since each symbol was last keyed. -/
  elapsed : PerSymbol Nat := PerSymbol.const 0
  /-- The element of a squeeze that comes next. -/
  pending : Option Symbol := none
  /-- Whether the letter just keyed still lacks its space. -/
  spaceOwed : Bool := false
  deriving DecidableEq, Repr

namespace Keyer

/-- A keyer nobody has touched. -/
def fresh : Keyer := {}

/-- Change the mode, from the next element on. -/
def withMode (k : Keyer) (mode : Mode) : Keyer := { k with mode }

/-- Change the speed. -/
def withSpeed (k : Keyer) (speed : Speed) : Keyer := { k with speed }

/-- Assign an element to the left paddle. A space cannot be assigned. -/
def withLeft (k : Keyer) (s : Symbol) : Keyer := if s.isElement then { k with left := s } else k

/-- The symbol of a paddle. -/
def symbolOf (k : Keyer) : Paddle → Symbol
  | .left => k.left
  | .right => k.left.opposite

/-! ### Counters -/

/-- The value at which a counter stops. -/
def counterMax : Nat := 65535

/-- A counter one millisecond later. -/
def countUp (n : Nat) : Nat := min (n + 1) counterMax

/-- Whether a symbol's counter has reached its period. -/
def isDue (k : Keyer) (s : Symbol) : Bool := k.speed.period s ≤ k.elapsed.get s

/-- Set a counter. -/
def setElapsed (k : Keyer) (s : Symbol) (n : Nat) : Keyer :=
  { k with elapsed := k.elapsed.set s n }

/-- Let a millisecond pass on one counter. -/
def age (k : Keyer) (s : Symbol) : Keyer := k.setElapsed s (countUp (k.elapsed.get s))

/-- Make a symbol due at the next tick. -/
def makeDue (k : Keyer) (s : Symbol) : Keyer := k.setElapsed s (k.speed.period s)

/-! ### Milliseconds -/

/-- A millisecond with no paddle held. -/
def idleTick (k : Keyer) : Option Symbol × Keyer :=
  if !k.spaceOwed then (none, k)
  else if k.isDue .space then (some .space, { k with spaceOwed := false }.setElapsed .space 0)
  else (none, k.setElapsed .space (k.elapsed.space + 1))

/-- A millisecond with the paddle of one symbol held. -/
def heldTick (k : Keyer) (s : Symbol) : Option Symbol × Keyer :=
  if k.isDue s then (some s, ({ k with pending := none }.setElapsed s 0).age s)
  else (none, k.age s)

/-- A millisecond with both paddles held. -/
def squeezeTick (k : Keyer) : Option Symbol × Keyer :=
  let current := k.pending.getD k.left
  if k.isDue current then
    let next := if k.mode.isIambic then current.opposite else current
    (some current, ({ k with pending := some next }.setElapsed next 0).age next)
  else (none, { k with pending := some current }.age current)

/-- Let a millisecond pass: the symbol keyed in it, if any, and the keyer. -/
def tick (k : Keyer) : Option Symbol × Keyer :=
  match k.state with
  | .idle => k.idleTick
  | .leftHeld => k.heldTick (k.symbolOf .left)
  | .rightHeld => k.heldTick (k.symbolOf .right)
  | .bothHeld => k.squeezeTick

/-! ### Edges -/

/-- The first paddle goes down. -/
def pressFirst (k : Keyer) (p : Paddle) : Keyer :=
  { k with state := State.holding p }.makeDue (k.symbolOf p)

/-- The second paddle goes down. -/
def pressSecond (k : Keyer) (p : Paddle) : Keyer :=
  { k with state := .bothHeld, pending := some (k.symbolOf p) }.makeDue (k.symbolOf p)

/-- The only paddle held goes up; in mode iambic B an element still pending is keyed. -/
def releaseLast (k : Keyer) : Option Symbol × Keyer :=
  (if k.mode = .iambicB then k.pending else none,
    { k with state := .idle, pending := none, spaceOwed := true }.setElapsed .space 0)

/-- One of two paddles goes up: the other one is due again one period of a dit later. -/
def releaseOne (k : Keyer) (p : Paddle) : Keyer :=
  let s := k.symbolOf p.other
  { k with state := State.holding p.other }.setElapsed s (k.speed.period s - k.speed.period .dit)

/-- Apply an edge: the symbol it keys, if any, and the keyer. An edge that is impossible in the
present state has no result. -/
def edge? (k : Keyer) (e : Edge) : Option (Option Symbol × Keyer) :=
  match k.state, e with
  | .idle, .press p => some (none, k.pressFirst p)
  | .leftHeld, .press .right => some (none, k.pressSecond .right)
  | .rightHeld, .press .left => some (none, k.pressSecond .left)
  | .leftHeld, .release .left => some k.releaseLast
  | .rightHeld, .release .right => some k.releaseLast
  | .bothHeld, .release p => some (none, k.releaseOne p)
  | _, _ => none

end Keyer

end MorseKeyboard
