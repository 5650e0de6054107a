import MorseKeyboard.Proofs.Keyboard.Routing

/-!
# What happens around a keyboard

A keyboard is not alone with its operator. Its queues, its fault register and its logbook are shared
with interrupts and with other parts of the program, and they may be changed by others between any
two acts of the keyboard. An *event* is an act, or such a change by others
(`MorseKeyboard.Keyboard.Event`).

What a keyboard signals in the course of some events is told apart from its outbox
(`MorseKeyboard.Keyboard.signals`), which may be emptied at any time: **an event signals what it
adds to the outbox** (`MorseKeyboard.Keyboard.newSignals_of_outbox`).
-/

namespace MorseKeyboard.Keyboard

variable {τ : Type}

/-- Something that happens to a keyboard or to what it shares with others. -/
inductive Event (τ : Type) where
  /-- An act. -/
  | act (a : Act τ)
  /-- Others leave the queues, the fault register and the logbook like this. -/
  | share (queues : Queues) (faults : FaultRegister) (log : Logbook)

namespace Event

/-- Whether somebody else takes charge of the scheduler, the keyboard's own slots included. -/
def isReschedule : Event τ → Bool
  | act (.reschedule _) => true
  | _ => false

/-- Whether somebody else schedules anything at all. -/
def isScheduling : Event τ → Bool
  | act (.reschedule _) | act (.operate (.register _ _)) | act (.operate (.unregister _)) => true
  | _ => false

/-- Others leave the queues in order, if they change them. -/
def InOrder : Event τ → Prop
  | share queues _ _ => queues.WellFormed
  | _ => True

/-- Whether the owner of the settings changes them without a request to the keyboard. -/
def changesSettings : Event τ → Bool
  | act (.operate (.changeSettings _)) => true
  | _ => false

end Event

variable [Ticker τ]

/-- What becomes of a keyboard in an event. -/
def undergo (kb : Keyboard τ) : Event τ → Keyboard τ
  | .act a => kb.act a
  | .share queues faults log => { kb with queues, faults, log }

/-- What becomes of a keyboard in one event after another. -/
def after (kb : Keyboard τ) (events : List (Event τ)) : Keyboard τ := events.foldl undergo kb

theorem after_concat (kb : Keyboard τ) (events : List (Event τ)) (e : Event τ) :
    kb.after (events ++ [e]) = (kb.after events).undergo e := List.foldl_append

/-- **The queues stay in order**, as far as others leave them so. -/
theorem wellFormed_after {kb : Keyboard τ} (h : kb.queues.WellFormed) {events : List (Event τ)}
    (hshared : ∀ e ∈ events, e.InOrder) : (kb.after events).queues.WellFormed := by
  induction events generalizing kb with
  | nil => exact h
  | cons e events ih =>
    obtain ⟨he, hrest⟩ := List.forall_mem_cons.mp hshared
    refine ih ?_ hrest
    cases e with
    | act a => exact wellFormed_act h a
    | share queues faults log => exact he

/-- The signals of an event: those that are new in the outbox. -/
def newSignals (kb : Keyboard τ) (e : Event τ) : List Signal :=
  (kb.undergo e).outbox.toList.drop kb.outbox.size

/-- The signals of one event after another. -/
def signals (kb : Keyboard τ) : List (Event τ) → List Signal
  | [] => []
  | e :: events => kb.newSignals e ++ (kb.undergo e).signals events

/-- The signals of the last event come last. -/
theorem signals_concat (kb : Keyboard τ) (events : List (Event τ)) (e : Event τ) :
    kb.signals (events ++ [e]) = kb.signals events ++ (kb.after events).newSignals e := by
  induction events generalizing kb with
  | nil => exact List.append_nil _
  | cons first events ih =>
    rw [List.cons_append, signals, ih, signals, List.append_assoc]
    rfl

theorem newSignals_of_outbox {kb : Keyboard τ} {e : Event τ} {signals : List Signal}
    (h : (kb.undergo e).outbox.toList = kb.outbox.toList ++ signals) :
    kb.newSignals e = signals := by
  rw [newSignals, h, ← Array.length_toList, List.drop_left]

/-- Taking the signals out adds nothing to the outbox. -/
theorem newSignals_takeSignals (kb : Keyboard τ) :
    kb.newSignals (.act (.operate .takeSignals)) = [] := List.drop_nil

end MorseKeyboard.Keyboard
