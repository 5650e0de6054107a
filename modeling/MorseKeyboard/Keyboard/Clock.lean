import MorseKeyboard.Keyboard.Basic

/-!
# The clock of the keyboard

Once a millisecond the keyboard applies the paddle edges that were queued, lets the scheduler
advance, and runs the jobs of its own that are due, in slot order: the keyer, the output, the
repeated messages. **Slots that are not its own are handed back** to whoever drives the clock.

A driver that fell behind runs several milliseconds at once with `MorseKeyboard.Keyboard.makeUp`.
That is the same as running them one by one, except that a fault is recorded.
-/

namespace MorseKeyboard.Keyboard

variable {τ : Type} [Ticker τ]

/-! ### The jobs of the keyboard -/

/-- Apply an edge at the present time. -/
def paddle (kb : Keyboard τ) (e : Edge) : Keyboard τ :=
  let (keyer, symbols, log) := kb.keyer.edgeOnto e kb.scheduler.now kb.queues.symbols kb.log
  { kb with keyer, log, queues := { kb.queues with symbols } }

/-- Apply the edges that were queued. -/
def applyEdges (kb : Keyboard τ) : Keyboard τ :=
  let (edges, paddles) := kb.queues.paddles.drain
  edges.foldl paddle { kb with queues := { kb.queues with paddles } }

/-- Let a millisecond pass for the keyer. -/
def tickKeyer (kb : Keyboard τ) : Keyboard τ :=
  let (keyer, symbols) := kb.keyer.tickOnto kb.queues.symbols
  { kb with keyer, queues := { kb.queues with symbols } }

/-- Schedule the output at the rate that it asks for. -/
def setRate (kb : Keyboard τ) : Option Sender.Rate → Keyboard τ
  | none => kb
  | some .normal => { kb with scheduler := kb.scheduler.register .output kb.unit }
  | some .hyper => { kb with scheduler := kb.scheduler.register .output 1 }

/-- Let the output take its next turn. -/
def playTurn (kb : Keyboard τ) : Keyboard τ :=
  let turn := kb.sender.advance kb.queues.chars kb.queues.symbols
  let queues := { kb.queues with chars := turn.chars, symbols := turn.symbols }
  let kb := { kb with sender := turn.sender, queues }.emitAll turn.signals
  (turn.bytes.foldl deliver kb).setRate turn.rate

/-- Queue a stored message. -/
def playSlot (kb : Keyboard τ) (slot : Nat) : Keyboard τ := kb.send (kb.settings.message slot)

/-- Log that a message is repeated, and queue it. -/
def repeatSlot (kb : Keyboard τ) (slot : Nat) : Keyboard τ :=
  (kb.info ["memory: repeating slot ", slot.repr]).playSlot slot

/-- Let a minute pass for the repeated messages. What falls due in command mode is skipped, so that
it never reaches the menu. -/
def repeatMessages (kb : Keyboard τ) : Keyboard τ :=
  let (due, repeater) := kb.repeater.passMinute kb.settings
  let kb := { kb with repeater }
  if !kb.inCommandMode then due.foldl repeatSlot kb
  else if due.isEmpty then kb
  else kb.info ["memory: ", due.length.repr, " repeat(s) skipped"]

/-! ### Milliseconds -/

/-- Whether a slot belongs to the keyboard itself. -/
def isOwn : Slot → Bool
  | .keyer | .output | .minute => true
  | _ => false

/-- Run the job in a slot, if it belongs to the keyboard. -/
def dispatch (kb : Keyboard τ) : Slot → Keyboard τ
  | .keyer => kb.tickKeyer
  | .output => kb.playTurn
  | .minute => kb.repeatMessages
  | _ => kb

/-- Let the scheduler advance and publish its clock to the log. -/
def advanceClock (kb : Keyboard τ) : SlotSet × Keyboard τ :=
  let (due, scheduler) := kb.scheduler.tick
  (due, { kb with scheduler, log := { kb.log with clock := scheduler.now } })

/-- Run one millisecond: the due slots that are not the keyboard's own, and the keyboard. -/
def tick (kb : Keyboard τ) : SlotSet × Keyboard τ :=
  let (due, kb) := kb.applyEdges.advanceClock
  (.ofPred fun slot => due.contains slot && !isOwn slot, due.toList.foldl dispatch kb)

/-- Run so many milliseconds: the slots handed back in any of them, added to those given, and the
keyboard. -/
def ticksInto (kb : Keyboard τ) (fired : SlotSet) : Nat → SlotSet × Keyboard τ
  | 0 => (fired, kb)
  | n + 1 =>
    let (rest, kb) := kb.tick
    kb.ticksInto (fired.union rest) n

/-- Run so many elapsed milliseconds at once. More than one means that the driver fell behind, which
is a fault. -/
def makeUp (kb : Keyboard τ) (n : UInt32) : SlotSet × Keyboard τ :=
  let kb :=
    if 1 < n then
      { kb with faults := kb.faults.raise .tickOverrun (n - 1) }.warn
        ["tick: ", (n - 1).toNat.repr, " ticks behind"]
    else kb
  kb.ticksInto .empty n.toNat

end MorseKeyboard.Keyboard
