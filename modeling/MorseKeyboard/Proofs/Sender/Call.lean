import MorseKeyboard.Proofs.Decoding
import MorseKeyboard.Ring.Lemmas
import MorseKeyboard.Sender

/-!
# What a call of the sender can do

A call of the sender runs its state machine until it rests, which takes one step or two. Seen from
outside there are eight things that a call can do, and `MorseKeyboard.Sender.Call` lists them: wait
for something to send, swallow a byte without a code, begin a blank, expand a byte and take up its
first symbol, take up a symbol that was waiting, settle down because nothing is left, let go of the
key, or just let the time of its state pass. **Every call does one of them**
(`MorseKeyboard.Sender.call_advance`), so what holds of all calls is proved by going through the
list, and the steps inside a call are not looked at again.
-/

namespace MorseKeyboard

/-- The units for which an element closes the key. -/
def Symbol.units : Symbol → Nat
  | .dah => 3
  | .dit | .space => 1

/-! ### Rings after a push -/

namespace Ring

variable {α : Type} {n : Nat}

/-- A ring that was just pushed to has something to pop. -/
theorem exists_pop?_push (r : Ring α n) (a : α) : ∃ x rest, (r.push a).pop? = some (x, rest) := by
  have hpos : 0 < (r.push a).count := by
    rcases eq_or_ne r.count n with h | h
    -- a full ring stays full, and it has a slot to read
    · have hread := r.read.isLt
      rw [push_of_full h]
      change 0 < r.count
      omega
    · rw [push, if_neg h]
      exact Nat.succ_pos _
  exact ⟨_, _, pop?_of_pos hpos⟩

/-- With room for all of them, pushing values one after another appends them. -/
theorem toList_pushAll_of_length_le {r : Ring α n} (h : r.WellFormed) {as : List α}
    (hlen : r.toList.length + as.length ≤ n) : (r.pushAll as).toList = r.toList ++ as := by
  rw [toList_pushAll h, newest_of_length_le]
  rwa [List.length_append]

theorem pushAll_append_singleton (r : Ring α n) (as : List α) (a : α) :
    r.pushAll (as ++ [a]) = (r.pushAll as).push a := by
  rw [pushAll, List.foldl_append, List.foldl_cons, List.foldl_nil, pushAll]

theorem isEmpty_of_pop?_eq_none {r : Ring α n} (h : r.pop? = none) : r.isEmpty = true :=
  isEmpty_iff.mpr (pop?_eq_none_iff.mp h)

theorem isEmpty_of_pop?_eq_some {r s : Ring α n} {a : α} (h : r.pop? = some (a, s)) :
    r.isEmpty = false := by
  rw [Bool.eq_false_iff]
  intro hc
  rw [pop?_eq_none_iff.mpr (isEmpty_iff.mp hc)] at h
  cases h

/-- A popped ring has one value less. -/
theorem count_of_pop? {r s : Ring α n} {a : α} (h : r.pop? = some (a, s)) :
    r.count = s.count + 1 := by
  rw [← length_toList, ← length_toList, toList_of_pop? h, List.length_cons]

end Ring

namespace Sender

/-! ### The list of calls -/

/-- The state that follows one in which the sender only lets time pass. -/
def State.successor? : State → Option State
  | dah => some dah2
  | dah2 => some bitSp
  | charSp | wordSp3 => some hyper
  | wordSp => some wordSp2
  | wordSp2 => some wordSp3
  | _ => none

/-- The period of the output after a call, given the length of a unit and the period before. -/
def periodAfter (dit period : Nat) : Option Rate → Nat
  | none => period
  | some .normal => dit
  | some .hyper => 1

/-- A call in which the sender takes up `x`: the decoder hears it, the output plays it. -/
def taking (s : Sender) (chars : CharRing) (x : Symbol) (symbols : SymbolRing)
    (rate : Option Rate) : Turn where
  sender := { state := Turn.stateAfter x, decoder := (s.decoder.hear x).2 }
  chars := chars
  symbols := symbols
  rate := rate
  signals := Turn.signalsOf x
  bytes := (s.decoder.hear x).1

/-- **Everything that a call of the sender can do.** -/
inductive Call (s : Sender) (chars : CharRing) (symbols : SymbolRing) : Turn → Prop
  /-- Nothing is queued, and the sender goes on waiting. -/
  | wait (hs : s.state = .idle) (hq : symbols.pop? = none) (hc : chars.pop? = none) :
      Call s chars symbols { sender := s, chars, symbols }
  /-- A byte without a code is swallowed. -/
  | swallow {byte : UInt8} {rest : CharRing} (hs : s.state = .idle) (hq : symbols.pop? = none)
      (hc : chars.pop? = some (byte, rest)) (he : Code.elements? byte = none) :
      Call s chars symbols { sender := s, chars := rest, symbols }
  /-- A blank queues its space and lasts three units before that is taken up. -/
  | blank {rest : CharRing} (hs : s.state = .idle) (hq : symbols.pop? = none)
      (hc : chars.pop? = some (0x20, rest)) :
      Call s chars symbols
        { sender := { s with state := .wordSp }, chars := rest, symbols := symbols.push .space,
          rate := some .normal }
  /-- A byte is expanded, and the first symbol of it is taken up. -/
  | expand {byte : UInt8} {run : List Symbol} {chars' : CharRing} {x : Symbol} {rest : SymbolRing}
      (hs : s.state = .idle) (hq : symbols.pop? = none) (hc : chars.pop? = some (byte, chars'))
      (hb : byte ≠ 0x20) (he : Code.elements? byte = some run)
      (hx : ((symbols.pushAll run).push .space).pop? = some (x, rest)) :
      Call s chars symbols (s.taking chars' x rest (some .normal))
  /-- A symbol that was waiting is taken up by a sender that was idle. -/
  | wake {x : Symbol} {rest : SymbolRing} (hs : s.state = .idle)
      (hx : symbols.pop? = some (x, rest)) :
      Call s chars symbols (s.taking chars x rest (some .normal))
  /-- The next symbol is taken up. -/
  | next {x : Symbol} {rest : SymbolRing} (hs : s.state = .sendBit)
      (hx : symbols.pop? = some (x, rest)) :
      Call s chars symbols (s.taking chars x rest none)
  /-- Nothing is left to send, and the sender goes idle. -/
  | settle (hs : s.state = .hyper ∨ s.state = .sendBit ∧ symbols.pop? = none) :
      Call s chars symbols
        { sender := { s with state := .idle }, chars, symbols, rate := some .hyper }
  /-- The key goes up. -/
  | release (hs : s.state = .bitSp) :
      Call s chars symbols
        { sender := { s with state := .sendBit }, chars, symbols, signals := [.keyUp] }
  /-- The time of the state passes. -/
  | pass {state : State} (hs : s.state.successor? = some state) :
      Call s chars symbols { sender := { s with state }, chars, symbols }

/-- What a call does by itself goes to the output device, so it delivers nothing. -/
theorem Call.all_isOutput {s : Sender} {chars : CharRing} {symbols : SymbolRing} {t : Turn}
    (h : Call s chars symbols t) : t.signals.all Signal.isOutput = true := by
  cases h with
  | @expand _ _ _ x | @wake x | @next x => cases x <;> rfl
  | _ => rfl

/-- A call leaves its queues in order. -/
theorem Call.wellFormed {s : Sender} {chars : CharRing} {symbols : SymbolRing} {t : Turn}
    (h : Call s chars symbols t) (hchars : chars.WellFormed) (hsymbols : symbols.WellFormed) :
    t.chars.WellFormed ∧ t.symbols.WellFormed := by
  cases h with
  | wait | settle | release | pass => exact ⟨hchars, hsymbols⟩
  | swallow hs hq hc he => exact ⟨hchars.of_pop? hc, hsymbols⟩
  | blank hs hq hc => exact ⟨hchars.of_pop? hc, hsymbols.push _⟩
  | expand hs hq hc hb he hx =>
    exact ⟨hchars.of_pop? hc, ((hsymbols.pushAll _).push _).of_pop? hx⟩
  | wake hs hx | next hs hx => exact ⟨hchars, hsymbols.of_pop? hx⟩

/-! ### What a byte leaves in the queue -/

/-- **An expanded byte fits into an empty queue**, so the queue then holds what is played for it. -/
theorem toList_expanded {symbols : SymbolRing} (h : symbols.WellFormed)
    (hq : symbols.pop? = none) {byte : UInt8} {run : List Symbol}
    (he : Code.elements? byte = some run) :
    ((symbols.pushAll run).push .space).toList = Code.played byte := by
  have hempty : symbols.toList = [] := Ring.pop?_eq_none_iff.mp hq
  have hlen := (Code.elements?_bounds he).1
  rw [← Ring.pushAll_append_singleton, Ring.toList_pushAll_of_length_le h, hempty, Code.played, he,
    List.nil_append]
  rw [hempty, List.length_append, List.length_nil, List.length_singleton]
  omega

theorem toList_blank {symbols : SymbolRing} (h : symbols.WellFormed) (hq : symbols.pop? = none) :
    (symbols.push .space).toList = Code.played 0x20 := by
  have hblank : Code.elements? 0x20 = some [] := rfl
  exact toList_expanded h hq hblank

/-! ### Every call is on the list -/

namespace Turn

theorem settle_of_done {k : Nat} {t t' : Turn} (h : t.step = .done t') : settle (k + 1) t = t' := by
  rw [settle, h]

theorem settle_of_again {k : Nat} {t t' : Turn} (h : t.step = .again t') :
    settle (k + 1) t = settle k t' := by
  rw [settle, h]

/-- In a state that only lets time pass, a step does that. -/
theorem step_of_successor? {t : Turn} {state : State}
    (h : t.sender.state.successor? = some state) : t.step = .done (t.goTo state) := by
  rw [step]
  cases hs : t.sender.state <;> rw [hs] at h <;> cases h <;> rfl

end Turn

variable {s : Sender} {chars : CharRing} {symbols : SymbolRing}

/-- A call of an idle sender that finds a symbol. -/
theorem advance_idle_of_symbol (hs : s.state = .idle) {x : Symbol} {rest : SymbolRing}
    (hx : symbols.pop? = some (x, rest)) :
    s.advance chars symbols = s.taking chars x rest (some .normal) := by
  obtain ⟨state, decoder⟩ := s
  obtain rfl : state = .idle := hs
  have hstep : Turn.step { sender := ⟨.idle, decoder⟩, chars, symbols } =
      .again { sender := ⟨.sendBit, decoder⟩, chars, symbols, rate := some .normal } := by
    simp [Turn.step, Turn.stepIdle, Ring.isEmpty_of_pop?_eq_some hx, Turn.goTo]
  rw [advance, stepsPerTurn, Turn.settle_of_again hstep]
  exact Turn.settle_of_done (by simp [Turn.step, Turn.stepSymbol, hx, taking])

/-- A call of an idle sender that finds no symbol but a byte with a code. -/
theorem advance_idle_of_byte (hs : s.state = .idle) (hq : symbols.pop? = none) {byte : UInt8}
    {chars' : CharRing} (hc : chars.pop? = some (byte, chars')) (hb : byte ≠ 0x20)
    {run : List Symbol} (he : Code.elements? byte = some run) {x : Symbol} {rest : SymbolRing}
    (hx : ((symbols.pushAll run).push .space).pop? = some (x, rest)) :
    s.advance chars symbols = s.taking chars' x rest (some .normal) := by
  obtain ⟨state, decoder⟩ := s
  obtain rfl : state = .idle := hs
  have hstep : Turn.step { sender := ⟨.idle, decoder⟩, chars, symbols } =
      .again { sender := ⟨.sendBit, decoder⟩, chars := chars',
               symbols := (symbols.pushAll run).push .space, rate := some .normal } := by
    simp [Turn.step, Turn.stepIdle, Ring.isEmpty_of_pop?_eq_none hq, hc, hb, he, Turn.goTo]
  rw [advance, stepsPerTurn, Turn.settle_of_again hstep]
  exact Turn.settle_of_done (by simp [Turn.step, Turn.stepSymbol, hx, taking])

/-- A call of an idle sender. -/
theorem call_advance_idle (hs : s.state = .idle) :
    Call s chars symbols (s.advance chars symbols) := by
  rcases hq : symbols.pop? with _ | ⟨x, rest⟩
  swap
  -- symbols come before characters
  · rw [advance_idle_of_symbol hs hq]
    exact .wake hs hq
  have hempty := Ring.isEmpty_of_pop?_eq_none hq
  rcases hc : chars.pop? with _ | ⟨byte, chars'⟩
  · have hstep : Turn.step { sender := s, chars, symbols } =
        .done { sender := s, chars, symbols } := by
      simp [Turn.step, Turn.stepIdle, hs, hempty, hc]
    rw [advance, stepsPerTurn, Turn.settle_of_done hstep]
    exact .wait hs hq hc
  rcases eq_or_ne byte 0x20 with rfl | hb
  · have hstep : Turn.step { sender := s, chars, symbols } =
        .done { sender := { s with state := .wordSp }, chars := chars',
                symbols := symbols.push .space, rate := some .normal } := by
      simp [Turn.step, Turn.stepIdle, hs, hempty, hc, Turn.goTo]
    rw [advance, stepsPerTurn, Turn.settle_of_done hstep]
    exact .blank hs hq hc
  rcases he : Code.elements? byte with _ | run
  · have hstep : Turn.step { sender := s, chars, symbols } =
        .done { sender := s, chars := chars', symbols } := by
      simp [Turn.step, Turn.stepIdle, hs, hempty, hc, hb, he]
    rw [advance, stepsPerTurn, Turn.settle_of_done hstep]
    exact .swallow hs hq hc he
  · obtain ⟨x, rest, hx⟩ := Ring.exists_pop?_push (symbols.pushAll run) .space
    rw [advance_idle_of_byte hs hq hc hb he hx]
    exact .expand hs hq hc hb he hx

/-- A call of a sender that is about to take up a symbol. -/
theorem call_advance_sendBit (hs : s.state = .sendBit) :
    Call s chars symbols (s.advance chars symbols) := by
  rcases hx : symbols.pop? with _ | ⟨x, rest⟩
  -- nothing came in time: the sender passes through `hyper` within the call
  · have hstep : Turn.step { sender := s, chars, symbols } =
        .again { sender := { s with state := .hyper }, chars, symbols } := by
      simp [Turn.step, Turn.stepSymbol, hs, hx, Turn.goTo]
    have hlast : Turn.step { sender := { s with state := .hyper }, chars, symbols } =
        .done { sender := { s with state := .idle }, chars, symbols, rate := some .hyper } := rfl
    rw [advance, stepsPerTurn, Turn.settle_of_again hstep, Turn.settle_of_done hlast]
    exact .settle (Or.inr ⟨hs, hx⟩)
  · have hstep : Turn.step { sender := s, chars, symbols } =
        .done (s.taking chars x rest none) := by
      simp [Turn.step, Turn.stepSymbol, hs, hx, taking]
    rw [advance, stepsPerTurn, Turn.settle_of_done hstep]
    exact .next hs hx

/-- A call of a sender that lets time pass. -/
theorem call_advance_pass {state : State} (hs : s.state.successor? = some state) :
    Call s chars symbols (s.advance chars symbols) := by
  rw [advance, stepsPerTurn, Turn.settle_of_done (Turn.step_of_successor? hs)]
  exact .pass hs

/-- **Every call does one of the things on the list.** -/
theorem call_advance (s : Sender) (chars : CharRing) (symbols : SymbolRing) :
    Call s chars symbols (s.advance chars symbols) := by
  rcases hs : s.state with _ | _ | _ | _ | _ | _ | _ | _ | _ | _
  case idle => exact call_advance_idle hs
  case sendBit => exact call_advance_sendBit hs
  case hyper =>
    have hstep : Turn.step { sender := s, chars, symbols } =
        .done { sender := { s with state := .idle }, chars, symbols, rate := some .hyper } := by
      simp [Turn.step, hs, Turn.goTo]
    rw [advance, stepsPerTurn, Turn.settle_of_done hstep]
    exact .settle (Or.inl hs)
  case bitSp =>
    have hstep : Turn.step { sender := s, chars, symbols } =
        .done { sender := { s with state := .sendBit }, chars, symbols,
                signals := [.keyUp] } := by
      simp [Turn.step, hs, Turn.goTo]
    rw [advance, stepsPerTurn, Turn.settle_of_done hstep]
    exact .release hs
  all_goals exact call_advance_pass (by rw [hs]; rfl)

end Sender

end MorseKeyboard
