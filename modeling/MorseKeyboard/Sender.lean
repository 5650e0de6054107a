import MorseKeyboard.Decoder
import MorseKeyboard.Queues
import MorseKeyboard.Signal

/-!
# The sender

The sender keys everything, whether it was typed or paddled. It takes characters off their queue and
expands them into symbols, takes symbols off theirs, closes the key for one unit or three, and lets
the decoder listen to every symbol it takes up.

It is called once per unit; each call is one step of a small state machine.

| state | lasts | next |
|---|---|---|
| send-bit | one unit | bit-sp, dah, char-sp or hyper |
| dah, dah2 | one unit each | dah2, bit-sp |
| bit-sp | one unit | send-bit, with the key up |
| char-sp | one unit | hyper |
| word-sp, word-sp2, word-sp3 | one unit each | the next one, hyper |
| hyper | one millisecond | idle, polled every millisecond |
| idle | one millisecond | send-bit or word-sp, if there is something to send |

Two transitions take no time of their own: from idle to send-bit, when there is a symbol to send,
and from send-bit to hyper, when there is none. So a call is a `MorseKeyboard.Sender.Turn` of
steps, and **no turn has more than two**.
-/

namespace MorseKeyboard

namespace Sender

/-- The states of the sender. -/
inductive State where
  | hyper
  | idle
  | sendBit
  | dah
  | dah2
  | bitSp
  | charSp
  | wordSp
  | wordSp2
  | wordSp3
  deriving DecidableEq, Repr

namespace State

/-- All states. -/
def all : List State :=
  [hyper, idle, sendBit, dah, dah2, bitSp, charSp, wordSp, wordSp2, wordSp3]

/-- The name of a state. -/
def name : State → String
  | hyper => "hyper"
  | idle => "idle"
  | sendBit => "send-bit"
  | dah => "dah"
  | dah2 => "dah2"
  | bitSp => "bit-sp"
  | charSp => "char-sp"
  | wordSp => "word-sp"
  | wordSp2 => "word-sp2"
  | wordSp3 => "word-sp3"

/-- Whether the key is down. -/
def isDown : State → Bool
  | dah | dah2 | bitSp => true
  | _ => false

end State

/-- How often the sender wants to be called from now on. -/
inductive Rate where
  /-- Once per unit. -/
  | normal
  /-- Once per millisecond. -/
  | hyper
  deriving DecidableEq, Repr

namespace Rate

/-- The name of a rate. -/
def name : Rate → String
  | normal => "normal"
  | hyper => "hyper"

end Rate

end Sender

/-- The output state machine and the decoder that listens to it. -/
structure Sender where
  state : Sender.State := .idle
  decoder : Decoder := .fresh
  deriving DecidableEq, Repr

namespace Sender

/-- A sender with nothing to do. -/
def fresh : Sender := {}

/-- Forget the letter being decoded. -/
def forgetLetter (s : Sender) : Sender := { s with decoder := .fresh }

/-! ### Turns -/

/-- A call of the sender under way: the queues it works on and what came of it so far. -/
structure Turn where
  sender : Sender
  chars : CharRing
  symbols : SymbolRing
  /-- The rate asked for, if it is to change. -/
  rate : Option Rate := none
  /-- What the output did. -/
  signals : List Signal := []
  /-- The text that the decoder completed. -/
  bytes : List UInt8 := []
  deriving DecidableEq, Repr

/-- What a step leads to: the end of the turn, or another step of it. -/
inductive Progress where
  | done (t : Turn)
  | again (t : Turn)
  deriving DecidableEq, Repr

namespace Turn

/-- The turn with the sender in another state. -/
def goTo (t : Turn) (state : State) : Turn := { t with sender := { t.sender with state } }

/-- The state after a symbol was taken up. -/
def stateAfter : Symbol → State
  | .dit => .bitSp
  | .dah => .dah
  | .space => .charSp

/-- What the output does when a symbol is taken up. -/
def signalsOf (s : Symbol) : List Signal :=
  if s.isElement then [.symbol s, .keyDown] else [.symbol s]

/-- Nothing is being sent: see whether there is something to send. -/
def stepIdle (t : Turn) : Progress :=
  if !t.symbols.isEmpty then .again ({ t with rate := some .normal }.goTo .sendBit)
  else match t.chars.pop? with
    | none => .done t
    | some (byte, chars) =>
      let t := { t with chars }
      if byte = 0x20 then
        .done ({ t with symbols := t.symbols.push .space, rate := some .normal }.goTo .wordSp)
      else match Code.elements? byte with
        | none => .done t
        | some run =>
          .again ({ t with
            symbols := (t.symbols.pushAll run).push .space
            rate := some .normal }.goTo .sendBit)

/-- Take up the next symbol. -/
def stepSymbol (t : Turn) : Progress :=
  match t.symbols.pop? with
  | none => .again (t.goTo .hyper)
  | some (s, symbols) =>
    let (bytes, decoder) := t.sender.decoder.hear s
    .done { t with
      sender := { state := stateAfter s, decoder }
      symbols
      signals := t.signals ++ signalsOf s
      bytes := t.bytes ++ bytes }

/-- One step of the state machine. -/
def step (t : Turn) : Progress :=
  match t.sender.state with
  | .hyper => .done ({ t with rate := some .hyper }.goTo .idle)
  | .idle => t.stepIdle
  | .sendBit => t.stepSymbol
  | .dah => .done (t.goTo .dah2)
  | .dah2 => .done (t.goTo .bitSp)
  | .bitSp => .done ({ t with signals := t.signals ++ [Signal.keyUp] }.goTo .sendBit)
  | .charSp | .wordSp3 => .done (t.goTo .hyper)
  | .wordSp => .done (t.goTo .wordSp2)
  | .wordSp2 => .done (t.goTo .wordSp3)

/-- Take up to so many steps, until one ends the turn. -/
def settle : Nat → Turn → Turn
  | 0, t => t
  | k + 1, t =>
    match t.step with
    | .done t => t
    | .again t => settle k t

end Turn

/-- The most steps of a turn. -/
def stepsPerTurn : Nat := 2

/-- One call of the sender. -/
def advance (s : Sender) (chars : CharRing) (symbols : SymbolRing) : Turn :=
  Turn.settle stepsPerTurn { sender := s, chars, symbols }

end Sender

end MorseKeyboard
