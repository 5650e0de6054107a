import MorseKeyboard.Proofs.Sender.Call

/-!
# A sender at its desk

A sender works between two queues, and what it does is spread over its calls. A
`MorseKeyboard.Sender.Desk` holds the three together and keeps a record: what the output did in each
call, where the decoder was reset between the calls, and the text that was typed. The desk is worked
by acts (`MorseKeyboard.Sender.Desk.Act`): bytes and symbols are queued, the queues are cleared, the
letter being decoded is forgotten, and the sender is called. A history of the sender is a list of
acts, in any order.
-/

namespace MorseKeyboard.Sender

/-- An entry in the record of a desk. -/
inductive Desk.Entry where
  /-- The sender was called, and the output did this. -/
  | call (signals : List Signal)
  /-- The decoder was reset. -/
  | reset
  deriving DecidableEq, Repr

/-- A sender, its two queues, and what became of its calls. -/
structure Desk where
  sender : Sender := .fresh
  chars : CharRing := .empty
  symbols : SymbolRing := .empty
  /-- What happened so far. -/
  record : List Desk.Entry := []
  /-- The text that the decoder completed so far. -/
  text : List UInt8 := []

namespace Desk

/-- Something done at a desk. -/
inductive Act where
  /-- A byte is queued. -/
  | queueByte (byte : UInt8)
  /-- A symbol is queued. -/
  | queueSymbol (s : Symbol)
  /-- The bytes that wait are discarded. -/
  | clearBytes
  /-- The symbols that wait are discarded. -/
  | clearSymbols
  /-- The letter being decoded is forgotten. -/
  | forget
  /-- The sender is called. -/
  | call
  deriving DecidableEq, Repr

/-- A desk at which nothing has happened yet: the sender may be in any state, but its decoder is
between two letters. -/
def between (state : State) (chars : CharRing) (symbols : SymbolRing) : Desk where
  sender := { state, decoder := .fresh }
  chars := chars
  symbols := symbols

/-- The desk after a call that took a given turn. -/
def take (d : Desk) (t : Turn) : Desk where
  sender := t.sender
  chars := t.chars
  symbols := t.symbols
  record := d.record ++ [.call t.signals]
  text := d.text ++ t.bytes

/-- Call the sender. -/
def call (d : Desk) : Desk := d.take (d.sender.advance d.chars d.symbols)

/-- Do something at the desk. -/
def act (d : Desk) : Act → Desk
  | .queueByte byte => { d with chars := d.chars.push byte }
  | .queueSymbol s => { d with symbols := d.symbols.push s }
  | .clearBytes => { d with chars := d.chars.clear }
  | .clearSymbols => { d with symbols := d.symbols.clear }
  | .forget => { d with sender := d.sender.forgetLetter, record := d.record ++ [.reset] }
  | .call => d.call

/-- Do one thing after another. -/
def perform (d : Desk) (acts : List Act) : Desk := acts.foldl act d

/-- Call the sender so many times. -/
def calls (d : Desk) : Nat → Desk
  | 0 => d
  | n + 1 => (d.calls n).call

/-- A call takes a turn that is on the list of all that a call can do. -/
theorem exists_call (d : Desk) : ∃ t, Call d.sender d.chars d.symbols t ∧ d.call = d.take t :=
  ⟨_, call_advance d.sender d.chars d.symbols, rfl⟩

theorem calls_add (d : Desk) (m n : Nat) : d.calls (m + n) = (d.calls m).calls n := by
  induction n with
  | zero => rfl
  | succ n ih => exact congrArg call ih

/-- **What every call keeps, a history of calls keeps.** -/
theorem calls_induction {P : Desk → Prop} (step : ∀ d, P d → P d.call) {d : Desk} (h : P d)
    (n : Nat) : P (d.calls n) := by
  induction n with
  | zero => exact h
  | succ n ih => exact step _ ih

/-- **What every act keeps, a history of acts keeps.** -/
theorem perform_induction {P : Desk → Prop} (step : ∀ d a, P d → P (d.act a)) {d : Desk} (h : P d)
    (acts : List Act) : P (d.perform acts) := by
  induction acts generalizing d with
  | nil => exact h
  | cons a acts ih => exact ih (step d a h)

end Desk

end MorseKeyboard.Sender
