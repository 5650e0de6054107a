import MorseKeyboard.Keyboard.Request
import MorseKeyboard.Proofs.Scheduler.Waiting
import MorseKeyboard.Proofs.Sender.Call

/-!
# A millisecond of the keyboard

In a millisecond the keyboard applies the edges that wait, advances its clock and runs those of its
jobs that are due. Only one of the jobs, the turn of the output, takes symbols up, moves the key and
delivers text. So a millisecond is told in three parts: what comes before the turn, the turn if it
is due, and what comes after it (`MorseKeyboard.Keyboard.snd_tick`).

The turn is a call of the sender (`MorseKeyboard.Keyboard.exists_playTurn`), of which everything is
known that `MorseKeyboard.Sender.Call` lists, and after it **the output waits for the period that
the turn asked for** (`MorseKeyboard.Keyboard.waits_setRate`): a unit, a millisecond, or the period
it had.
-/

namespace MorseKeyboard

/-- The queues after some decoded bytes went to a destination. -/
def Queues.receive (q : Queues) (target : Target) (bytes : List UInt8) : Queues :=
  match target with
  | .keystrokes => { q with keystrokes := q.keystrokes.pushAll bytes }
  | .menu => { q with menu := q.menu.pushAll bytes }

namespace Keyboard

variable {τ : Type}

/-! ### The turn of the output -/

/-- The keyboard after a turn of the output, when it is still to be scheduled. -/
def played (kb : Keyboard τ) (t : Sender.Turn) : Keyboard τ :=
  { kb with
    sender := t.sender
    queues :=
      ({ kb.queues with chars := t.chars, symbols := t.symbols } : Queues).receive kb.target t.bytes
    outbox := (kb.outbox.appendList t.signals).appendList (t.bytes.map (.delivered kb.target)) }

theorem deliver_eq (kb : Keyboard τ) (byte : UInt8) :
    kb.deliver byte =
      { kb with
        queues := kb.queues.receive kb.target [byte]
        outbox := kb.outbox.push (.delivered kb.target byte) } := by
  cases htarget : kb.target <;> simp only [deliver, htarget] <;> rfl

theorem receive_cons (q : Queues) (target : Target) (byte : UInt8) (bytes : List UInt8) :
    q.receive target (byte :: bytes) = (q.receive target [byte]).receive target bytes := by
  cases target <;> rfl

theorem receive_nil (q : Queues) (target : Target) : q.receive target [] = q := by
  cases target <;> rfl

/-- Delivering bytes one by one puts them into the queue of their destination and on record. -/
theorem foldl_deliver (kb : Keyboard τ) (bytes : List UInt8) :
    bytes.foldl deliver kb =
      { kb with
        queues := kb.queues.receive kb.target bytes
        outbox := kb.outbox.appendList (bytes.map (.delivered kb.target)) } := by
  induction bytes generalizing kb with
  | nil =>
    rw [receive_nil]
    rfl
  | cons byte bytes ih =>
    rw [List.foldl_cons, ih, deliver_eq, receive_cons kb.queues kb.target byte bytes]
    rfl

/-- The words of the clock for a unit. -/
theorem toNat_unit (kb : Keyboard τ) : kb.unit.toNat = kb.speed.dit := by
  have hle := kb.speed.dit_le
  rw [unit, Nat.toUInt16_eq, UInt16.toNat_ofNat', Nat.mod_eq_of_lt (by omega)]

theorem unit_pos (kb : Keyboard τ) : 0 < kb.unit.toNat := by
  have hge := kb.speed.twelve_le_dit
  rw [toNat_unit]
  omega

section

variable [Ticker τ]

/-- **The turn of the output is a call of the sender.** -/
theorem exists_playTurn (kb : Keyboard τ) :
    ∃ t, Sender.Call kb.sender kb.queues.chars kb.queues.symbols t ∧
      kb.playTurn = (kb.played t).setRate t.rate := by
  refine ⟨_, Sender.call_advance kb.sender kb.queues.chars kb.queues.symbols, ?_⟩
  rw [playTurn, foldl_deliver]
  rfl

/-- Scheduling the output anew changes the scheduler only. -/
theorem setRate_eq (kb : Keyboard τ) (rate : Option Sender.Rate) :
    kb.setRate rate = { kb with scheduler := (kb.setRate rate).scheduler } := by
  rcases rate with _ | _ | _ <;> rfl

/-- **After its turn the output waits for the period that the turn asked for.** -/
theorem waits_setRate {kb : Keyboard τ} {period : Nat}
    (h : kb.scheduler.Waits .output period period) (rate : Option Sender.Rate) :
    (kb.setRate rate).scheduler.Waits .output (Sender.periodAfter kb.speed.dit period rate)
      (Sender.periodAfter kb.speed.dit period rate) := by
  rcases rate with _ | _ | _
  -- no change of rate: the turn was due, so the wait is the period again already
  · exact h
  · show (kb.scheduler.register .output kb.unit).Waits .output kb.speed.dit kb.speed.dit
    rw [← toNat_unit]
    exact Scheduler.waits_register kb.scheduler .output kb.unit_pos
  · exact Scheduler.waits_register kb.scheduler .output (by decide)

/-- Scheduling the output anew leaves the other slots alone. -/
theorem waits_setRate_of_ne {kb : Keyboard τ} {slot : Slot} {wait period : Nat}
    (h : kb.scheduler.Waits slot wait period) (hne : Slot.output ≠ slot)
    (rate : Option Sender.Rate) : (kb.setRate rate).scheduler.Waits slot wait period := by
  rcases rate with _ | _ | _
  · exact h
  · exact h.register_of_ne hne _
  · exact h.register_of_ne hne _

/-! ### The parts of a millisecond -/

omit [Ticker τ] in
/-- An edge is a matter of the keyer: the clock goes on. -/
@[simp] theorem scheduler_paddle (kb : Keyboard τ) (e : Edge) :
    (kb.paddle e).scheduler = kb.scheduler := rfl

omit [Ticker τ] in
theorem scheduler_foldl_paddle (kb : Keyboard τ) (edges : List Edge) :
    (edges.foldl paddle kb).scheduler = kb.scheduler := by
  induction edges generalizing kb with
  | nil => rfl
  | cons e edges ih => rw [List.foldl_cons, ih, scheduler_paddle]

omit [Ticker τ] in
@[simp] theorem scheduler_applyEdges (kb : Keyboard τ) :
    kb.applyEdges.scheduler = kb.scheduler := by
  rw [applyEdges, scheduler_foldl_paddle]

/-- What comes before the turn of the output: the edges, the clock, and the keyer. -/
def beforeTurn (kb : Keyboard τ) : Keyboard τ :=
  let due := kb.scheduler.tick.1
  let kb := kb.applyEdges.advanceClock.2
  if due.contains .keyer then kb.tickKeyer else kb

/-- A millisecond until the turn of the output, if it is due, is over. -/
def throughTurn (kb : Keyboard τ) : Keyboard τ :=
  if kb.scheduler.tick.1.contains .output then kb.beforeTurn.playTurn else kb.beforeTurn

/-- What comes after the turn of the output: the repeated messages, if a minute has passed. -/
def afterTurn (kb : Keyboard τ) (due : SlotSet) : Keyboard τ :=
  if due.contains .minute then kb.repeatMessages else kb

/-- Running the due jobs one after another runs those of the keyboard, in slot order. -/
theorem foldl_dispatch (due : SlotSet) (kb : Keyboard τ) :
    due.toList.foldl dispatch kb =
      (let kb := if due.contains .keyer then kb.tickKeyer else kb
       let kb := if due.contains .output then kb.playTurn else kb
       kb.afterTurn due) := by
  rw [SlotSet.toList, List.foldl_filter]
  simp only [Slot.all, List.foldl_cons, List.foldl_nil, dispatch, ite_self, afterTurn]

/-- **A millisecond is what comes before the turn of the output, the turn if it is due, and what
comes after it.** -/
theorem snd_tick (kb : Keyboard τ) :
    kb.tick.2 = kb.throughTurn.afterTurn kb.scheduler.tick.1 := by
  have hdue : kb.applyEdges.advanceClock.1 = kb.scheduler.tick.1 := by
    rw [advanceClock, scheduler_applyEdges]
  show kb.applyEdges.advanceClock.1.toList.foldl dispatch kb.applyEdges.advanceClock.2 = _
  rw [foldl_dispatch, hdue]
  rfl

/-- The slots handed back are those that are due and not the keyboard's own. -/
theorem contains_fst_tick (kb : Keyboard τ) (slot : Slot) :
    kb.tick.1.contains slot = (kb.scheduler.tick.1.contains slot && !isOwn slot) := by
  rw [tick, SlotSet.contains_ofPred, advanceClock, scheduler_applyEdges]

end

end Keyboard

end MorseKeyboard
