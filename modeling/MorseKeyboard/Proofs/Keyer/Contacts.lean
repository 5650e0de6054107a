import Mathlib.Data.Finset.Basic
import MorseKeyboard.Proofs.Keyer.Acts
import MorseKeyboard.Proofs.Log.Lines

/-!
# What the state says of the contacts

A contact that closes adds its paddle to the paddles that are held, and one that opens takes it away
(`MorseKeyboard.Edge.move`). The keyer does not keep that set. It keeps one of four states, each of
which stands for a set of its own (`MorseKeyboard.Keyer.State.paddles`), and it tells by its state
which edges are impossible: **they are the edges that would leave the set as it is**
(`MorseKeyboard.Keyer.edge?_eq_none_iff`).

So the refusal of an edge is never the beginning of an error. The state moves as the set does,
whether the edge is possible or not (`MorseKeyboard.Keyer.paddles_step_edge`), and the set after
everything that was done to a keyer is the one that the edges by themselves make
(`MorseKeyboard.Keyer.contacts_after`). A contact that bounces costs a warning in the log and
nothing else.
-/

namespace MorseKeyboard

open Log

theorem Paddle.ne_other (p : Paddle) : p ≠ p.other := by
  cases p <;> decide

/-- The paddles that are held after an edge. -/
def Edge.move (held : Finset Paddle) : Edge → Finset Paddle
  | .press p => insert p held
  | .release p => held.erase p

namespace Keyer

/-! ### The paddles of a state -/

namespace State

/-- The paddles that are held in a state. -/
def paddles : State → Finset Paddle
  | idle => ∅
  | leftHeld => {.left}
  | rightHeld => {.right}
  | bothHeld => {.left, .right}

/-- **A state is told by its paddles.** -/
theorem paddles_injective : Function.Injective paddles := by
  rintro (_ | _ | _ | _) (_ | _ | _ | _) h
  all_goals first
    | rfl
    | exact absurd h (by decide)

theorem paddles_holding (p : Paddle) : (holding p).paddles = {p} := by
  cases p <;> rfl

theorem paddles_bothHeld (p : Paddle) : bothHeld.paddles = {p, p.other} := by
  cases p <;> decide

end State

/-! ### Edges -/

/-- **An edge is impossible just if it moves nothing.** -/
theorem edge?_eq_none_iff (k : Keyer) (e : Edge) :
    k.edge? e = none ↔ e.move k.state.paddles = k.state.paddles := by
  rcases hs : k.state with _ | _ | _ | _ <;> rcases e with (_ | _) | (_ | _)
  all_goals
    simp only [edge?, hs, reduceCtorEq, false_iff, true_iff]
    decide

/-- **An edge moves the state as it moves the paddles.** -/
theorem paddles_step_edge (k : Keyer) (e : Edge) :
    (k.step (.edge e)).2.state.paddles = e.move k.state.paddles := by
  have hr := k.response_step (.edge e)
  generalize k.step (.edge e) = r at hr ⊢
  cases hr with
  | @pressFirst p hs =>
    rw [hs]
    exact State.paddles_holding p
  | @pressSecond p hs =>
    rw [hs, State.paddles_holding]
    exact State.paddles_bothHeld p
  | @releaseLast p hs =>
    rw [hs, State.paddles_holding]
    exact (Finset.erase_singleton p).symm
  | @releaseOne p hs =>
    rw [hs, State.paddles_bothHeld p, Edge.move,
      Finset.erase_insert (Finset.notMem_singleton.mpr p.ne_other)]
    exact State.paddles_holding p.other
  | refuse he => exact ((k.edge?_eq_none_iff e).mp he).symm

/-! ### Histories -/

/-- The paddles that are held after an act. -/
def Act.move (held : Finset Paddle) : Act → Finset Paddle
  | .give (.edge e) => e.move held
  | .give .tick | .setMode _ | .setSpeed _ | .setLeft _ => held

/-- The paddles that are held after some acts, if none was held before. -/
def heldAfter (acts : List Act) : Finset Paddle := acts.foldl Act.move ∅

/-- **Every act moves the state as it moves the paddles**: only an edge does. -/
theorem paddles_act (k : Keyer) (a : Act) :
    (k.act a).2.state.paddles = a.move k.state.paddles := by
  cases a with
  | give i =>
    cases i with
    | edge e => exact k.paddles_step_edge e
    | tick => exact congrArg State.paddles k.state_tick
  | setMode | setSpeed => rfl
  | setLeft s =>
    rw [act, withLeft]
    split <;> rfl

theorem paddles_perform (k : Keyer) (acts : List Act) :
    (k.perform acts).state.paddles = acts.foldl Act.move k.state.paddles := by
  induction acts generalizing k with
  | nil => rfl
  | cons a acts ih =>
    rw [List.foldl_cons, ← paddles_act]
    exact ih (k.act a).2

/-! ### The warning -/

/-- The warning about an impossible edge, as it is logged at a given time. -/
def warning (k : Keyer) (e : Edge) (now : UInt16) : Entry where
  time := now
  level := .warn
  message := Text.bytes ("keyer: " ++ e.text ++ " in " ++ k.state.name)

theorem join_complaint (k : Keyer) (e : Edge) :
    String.join (k.complaint e) = "keyer: " ++ e.text ++ " in " ++ k.state.name := by
  rw [complaint, Edge.text]
  simp only [String.join_append, String.join_cons, String.join_nil, String.append_empty,
    String.append_assoc, List.cons_append, List.nil_append]

/-- The longest warning has room in a message. -/
theorem length_complaint_le (k : Keyer) (e : Edge) :
    (Text.bytes (String.join (k.complaint e))).length ≤ Message.capacity := by
  rcases hs : k.state with _ | _ | _ | _ <;> rcases e with (_ | _) | (_ | _)
  all_goals
    rw [complaint, hs]
    decide

/-- **The warning is logged whole.** -/
theorem ofPieces_complaint (k : Keyer) (e : Edge) (now : UInt16) :
    Entry.ofPieces now .warn (k.complaint e) = k.warning e now := by
  rw [Entry.ofPieces, Message.bytes_ofPieces (k.length_complaint_le e), join_complaint, warning]

/-- **The contacts are told by the state, and an edge that moves none of them is inert.** A keyer
that nobody has touched is given edges, possible or not, and milliseconds, and its parameters are
changed. Its state is the one of the paddles that are held, which are told by the edges alone: each
press adds a paddle and each release takes one away. An edge that leaves these paddles as they are
leaves the keyer and the queue of symbols as they were, and of the logbook it touches the interrupt
stream only: there is one warning more, if warnings pass the filter and a slot is free. An edge that
moves a contact logs nothing. -/
theorem contacts_after (acts : List Act) (e : Edge) (now : UInt16) (symbols : SymbolRing)
    (log : Logbook) :
    let k := fresh.perform acts
    let held := heldAfter acts
    (∀ s, k.state = s ↔ s.paddles = held) ∧
    (e.move held = held → ∃ interrupt,
      k.edgeOnto e now symbols log = (k, symbols, { log with interrupt }) ∧
      log.interrupt.Gains interrupt log.most (k.warning e now)) ∧
    (e.move held ≠ held → (k.edgeOnto e now symbols log).2.2 = log) := by
  intro k held
  have hheld : k.state.paddles = held := paddles_perform fresh acts
  have himpossible : k.edge? e = none ↔ e.move held = held := hheld ▸ k.edge?_eq_none_iff e
  refine ⟨?_, ?_, ?_⟩
  · intro s
    rw [← hheld, State.paddles_injective.eq_iff, eq_comm]
  · intro hsame
    rw [edgeOnto, himpossible.mpr hsame]
    refine ⟨_, rfl, ?_⟩
    rw [← ofPieces_complaint]
    exact Stream.gains_note (by decide) (by decide)
  · intro hmoves
    obtain ⟨r, hr⟩ := Option.ne_none_iff_exists'.mp (mt himpossible.mp hmoves)
    rw [edgeOnto, hr]

/-- The left contact bounces while it closes: the second press changes nothing, and is told in the
log. When the contact opens nothing is logged. -/
theorem contacts_after_bounce :
    let acts : List Act := [.give (.edge (.press .left)), .give .tick]
    let k := fresh.perform acts
    k.state = .leftHeld ∧
    (∃ interrupt,
      k.edgeOnto (.press .left) 7 .empty .empty = (k, .empty, { Logbook.empty with interrupt }) ∧
      interrupt.contents = [⟨7, .warn, Text.bytes "keyer: left press in left-held"⟩] ∧
      interrupt.rejected = 0) ∧
    (k.edgeOnto (.release .left) 8 .empty .empty).2.2 = .empty := by
  intro acts k
  obtain ⟨hstate, hinert, -⟩ := contacts_after acts (.press .left) 7 .empty .empty
  obtain ⟨-, -, hmoves⟩ := contacts_after acts (.release .left) 8 .empty .empty
  obtain ⟨interrupt, honto, hgains⟩ := hinert (by decide)
  refine ⟨(hstate .leftHeld).mpr (by decide), ⟨interrupt, honto, ?_, ?_⟩, hmoves (by decide)⟩
  · rw [hgains.contents_eq]
    decide
  · rw [hgains.rejected_eq]
    rfl

end Keyer

end MorseKeyboard
