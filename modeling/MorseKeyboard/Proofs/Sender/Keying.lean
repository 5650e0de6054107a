import MorseKeyboard.Proofs.Sender.Desk

/-!
# What is heard is what is typed

The sender plays symbols through the key and types what its decoder makes of them, and these two
must not come apart: whatever is queued, discarded or forgotten between its calls, and however the
calls fall, the key has to sound the symbols that the decoder heard.
`MorseKeyboard.Sender.Desk.Faithful` says so of the record of a desk, and
`MorseKeyboard.Sender.Desk.faithful_perform` says it of every history of a fresh sender.

To the key a call is one of four things, `MorseKeyboard.Sender.Effect`: it leaves the key open, it
keeps it closed, it opens it, or it takes up a symbol, which closes it if the symbol is an element.
The invariant of the history, `MorseKeyboard.Sender.Desk.Keyed`, has one part that the record does
not show: **while the key is down the state says for how many units it will be**
(`MorseKeyboard.Sender.State.unitsLeft`), so the call that opens the key is the right one for the
element that closed it.
-/

namespace MorseKeyboard

/-! ### The key -/

namespace Signal

/-- Whether the key is down after a signal. -/
def keyAfter (down : Bool) : Signal → Bool
  | keyDown => true
  | keyUp => false
  | _ => down

/-- Whether the key is down after some signals; it is up before the first of them. -/
def leavesDown (signals : List Signal) : Bool := signals.foldl keyAfter false

/-- Whether a signal belongs to the beginning of an element: its symbol, or the key going down. -/
def isOnset : Signal → Bool
  | symbol s => s.isElement
  | keyDown => true
  | _ => false

/-- The first `n` movements of a key that goes down and up by turns. -/
def alternation (n : Nat) : List Signal :=
  (List.range n).map fun i => if i % 2 = 0 then keyDown else keyUp

theorem alternation_succ (n : Nat) :
    alternation (n + 1) = alternation n ++ [if n % 2 = 0 then keyDown else keyUp] := by
  rw [alternation, List.range_succ, List.map_append, List.map_singleton, alternation]

theorem leavesDown_append (signals more : List Signal) :
    leavesDown (signals ++ more) = more.foldl keyAfter (leavesDown signals) := by
  rw [leavesDown, List.foldl_append, leavesDown]

end Signal

/-! ### What a call does to the key -/

namespace Sender

/-- The units for which the key will still be down. -/
def State.unitsLeft : State → Nat
  | dah => 3
  | dah2 => 2
  | bitSp => 1
  | _ => 0

theorem State.isDown_iff {state : State} : state.isDown = true ↔ 0 < state.unitsLeft := by
  cases state <;> decide

theorem State.isDown_eq_false_iff {state : State} :
    state.isDown = false ↔ state.unitsLeft = 0 := by
  cases state <;> decide

theorem State.unitsLeft_stateAfter {s : Symbol} (hs : s.isElement = true) :
    (Turn.stateAfter s).unitsLeft = s.units := by
  cases s with
  | dit | dah => rfl
  | space => cases hs

/-- Taking up a symbol is one entry in the record of what the output played. -/
theorem filterMap_symbol?_signalsOf (x : Symbol) :
    (Turn.signalsOf x).filterMap Signal.symbol? = [x] := by
  cases x <;> rfl

/-- **What a call does to the key.** -/
inductive Effect (s : Sender) (t : Turn) : Prop
  /-- The key is up and stays up. -/
  | rest (hs : s.state.unitsLeft = 0) (ht : t.sender.state.unitsLeft = 0)
      (hsignals : t.signals = []) (hheard : (t.bytes, t.sender.decoder) = ([], s.decoder))
  /-- The key is down and stays down. -/
  | hold (hs : s.state.unitsLeft = t.sender.state.unitsLeft + 1)
      (ht : 0 < t.sender.state.unitsLeft)
      (hsignals : t.signals = []) (hheard : (t.bytes, t.sender.decoder) = ([], s.decoder))
  /-- The key goes up. -/
  | lift (hs : s.state.unitsLeft = 1) (ht : t.sender.state.unitsLeft = 0)
      (hsignals : t.signals = [.keyUp]) (hheard : (t.bytes, t.sender.decoder) = ([], s.decoder))
  /-- A symbol is taken up. -/
  | strike {x : Symbol} (hs : s.state.unitsLeft = 0) (ht : t.sender.state = Turn.stateAfter x)
      (hsignals : t.signals = Turn.signalsOf x)
      (hheard : (t.bytes, t.sender.decoder) = s.decoder.hear x)

/-- **Every call does one of these things to the key.** -/
theorem Call.effect {s : Sender} {chars : CharRing} {symbols : SymbolRing} {t : Turn}
    (h : Call s chars symbols t) : Effect s t := by
  cases h with
  | wait hs | swallow hs => exact .rest (by rw [hs]; rfl) (by rw [hs]; rfl) rfl rfl
  | blank hs => exact .rest (by rw [hs]; rfl) rfl rfl rfl
  | expand hs | wake hs | next hs => exact .strike (by rw [hs]; rfl) rfl rfl rfl
  | settle hs =>
    refine .rest ?_ rfl rfl rfl
    rcases hs with hs | ⟨hs, -⟩ <;> rw [hs] <;> rfl
  | release hs => exact .lift (by rw [hs]; rfl) rfl rfl rfl
  -- of the states in which time passes, only the two in the middle of a dah hold the key down
  | pass hs =>
    rcases hstate : s.state with _ | _ | _ | _ | _ | _ | _ | _ | _ | _ <;> rw [hstate] at hs <;>
      cases hs
    · exact .hold (by rw [hstate]; rfl) (Nat.succ_pos _) rfl rfl
    · exact .hold (by rw [hstate]; rfl) (Nat.succ_pos _) rfl rfl
    all_goals exact .rest (by rw [hstate]; rfl) rfl rfl rfl

namespace Effect

variable {s : Sender} {t : Turn}

/-- The decoder hears the symbols that the output plays. -/
theorem hearAll (h : Effect s t) :
    s.decoder.hearAll (t.signals.filterMap Signal.symbol?) = (t.bytes, t.sender.decoder) := by
  cases h with
  | rest _ _ hsignals hheard | hold _ _ hsignals hheard | lift _ _ hsignals hheard =>
    rw [hsignals, hheard]
    rfl
  | @strike x hs ht hsignals hheard =>
    rw [hsignals, hheard, filterMap_symbol?_signalsOf, Decoder.hearAll_cons]
    simp

/-- Whether the key is down after the call. -/
theorem foldl_keyAfter (h : Effect s t) :
    t.signals.foldl Signal.keyAfter s.state.isDown = t.sender.state.isDown := by
  cases h with
  | rest hs ht hsignals =>
    rw [hsignals, State.isDown_eq_false_iff.mpr hs, State.isDown_eq_false_iff.mpr ht]
    rfl
  | hold hs ht hsignals =>
    rw [hsignals, State.isDown_iff.mpr ht, State.isDown_iff.mpr (by omega)]
    rfl
  | lift hs ht hsignals =>
    rw [hsignals, State.isDown_eq_false_iff.mpr ht]
    rfl
  | @strike x hs ht hsignals =>
    rw [hsignals, ht, State.isDown_eq_false_iff.mpr hs]
    cases x <;> rfl

/-- The movements of the key in the call: none, or the one that changes what it was. -/
theorem filter_isKeying (h : Effect s t) :
    (t.signals.filter Signal.isKeying = [] ∧ t.sender.state.isDown = s.state.isDown) ∨
      (t.signals.filter Signal.isKeying = [if s.state.isDown then .keyUp else .keyDown] ∧
        t.sender.state.isDown = !s.state.isDown) := by
  cases h with
  | rest hs ht hsignals =>
    rw [hsignals, State.isDown_eq_false_iff.mpr hs, State.isDown_eq_false_iff.mpr ht]
    exact Or.inl ⟨rfl, rfl⟩
  | hold hs ht hsignals =>
    rw [hsignals, State.isDown_iff.mpr ht, State.isDown_iff.mpr (by omega)]
    exact Or.inl ⟨rfl, rfl⟩
  | lift hs ht hsignals =>
    rw [hsignals, State.isDown_eq_false_iff.mpr ht, State.isDown_iff.mpr (by omega)]
    exact Or.inr ⟨rfl, rfl⟩
  | @strike x hs ht hsignals =>
    rw [hsignals, ht, State.isDown_eq_false_iff.mpr hs]
    cases x with
    | space => exact Or.inl ⟨rfl, rfl⟩
    | dit | dah => exact Or.inr ⟨rfl, rfl⟩

/-- The key goes down once for the element that is taken up, if one is. -/
theorem filter_isOnset (h : Effect s t) :
    t.signals.filter Signal.isOnset =
      ((t.signals.filterMap Signal.symbol?).filter Symbol.isElement).flatMap
        fun s => [.symbol s, .keyDown] := by
  cases h with
  | rest _ _ hsignals | hold _ _ hsignals | lift _ _ hsignals =>
    rw [hsignals]
    rfl
  | @strike x _ _ hsignals =>
    rw [hsignals]
    cases x <;> rfl

/-- A symbol is the first thing that happens in a call, and only if the key was up before. -/
theorem of_signals_eq (h : Effect s t) {before : List Signal} {x : Symbol} {after : List Signal}
    (heq : t.signals = before ++ .symbol x :: after) : before = [] ∧ s.state.isDown = false := by
  cases h with
  | rest _ _ hsignals | hold _ _ hsignals | lift _ _ hsignals =>
    rw [hsignals] at heq
    cases before <;> simp at heq
  | @strike y hs _ hsignals =>
    refine ⟨?_, State.isDown_eq_false_iff.mpr hs⟩
    rw [hsignals] at heq
    cases y <;> rcases before with _ | ⟨a, _ | ⟨b, before⟩⟩ <;>
      simp_all [Turn.signalsOf, Symbol.isElement]

/-- A call in which the key goes down takes up an element. -/
theorem of_keyDown_mem (h : Effect s t) (hdown : .keyDown ∈ t.signals) :
    ∃ x : Symbol, x.isElement = true ∧ t.signals = [.symbol x, .keyDown] ∧
      t.sender.state.unitsLeft = x.units := by
  cases h with
  | rest _ _ hsignals | hold _ _ hsignals | lift _ _ hsignals =>
    rw [hsignals] at hdown
    simp at hdown
  | @strike x _ ht hsignals =>
    rw [hsignals] at hdown
    have hx : x.isElement = true := by
      cases x with
      | dit | dah => rfl
      | space => simp [Turn.signalsOf, Symbol.isElement] at hdown
    refine ⟨x, hx, ?_, by rw [ht, State.unitsLeft_stateAfter hx]⟩
    rw [hsignals, Turn.signalsOf, if_pos hx]

/-- A call of a sender that holds the key down: the key stays down, or goes up with the last
unit. -/
theorem of_unitsLeft_pos (h : Effect s t) (hs : 0 < s.state.unitsLeft) :
    (t.signals = [] ∧ s.state.unitsLeft = t.sender.state.unitsLeft + 1 ∧
        0 < t.sender.state.unitsLeft) ∨
      (t.signals = [.keyUp] ∧ s.state.unitsLeft = 1) := by
  cases h with
  | rest hs' | strike hs' => omega
  | hold hs' ht hsignals => exact Or.inl ⟨hsignals, hs', ht⟩
  | lift hs' _ hsignals => exact Or.inr ⟨hsignals, hs'⟩

end Effect

end Sender

/-! ### Reading a record -/

/-- Listen to the symbols of a record, starting afresh wherever the decoder was reset. -/
def Decoder.replay (d : Decoder) : List Sender.Desk.Entry → List UInt8 × Decoder
  | [] => ([], d)
  | .reset :: record => fresh.replay record
  | .call signals :: record =>
    let (bytes, d) := d.hearAll (signals.filterMap Signal.symbol?)
    let (more, d) := d.replay record
    (bytes ++ more, d)

theorem Decoder.replay_append (d : Decoder) (record more : List Sender.Desk.Entry) :
    d.replay (record ++ more) =
      ((d.replay record).1 ++ ((d.replay record).2.replay more).1,
        ((d.replay record).2.replay more).2) := by
  induction record generalizing d with
  | nil => rfl
  | cons entry record ih =>
    cases entry with
    | reset => exact ih fresh
    | call signals => simp only [List.cons_append, replay, ih, List.append_assoc]

namespace Sender.Desk

/-- What the output did in a call; nothing for a reset. -/
def Entry.signals? : Entry → Option (List Signal)
  | call signals => some signals
  | reset => none

/-- What the output did, call by call. -/
def turns (d : Desk) : List (List Signal) := d.record.filterMap Entry.signals?

/-- What the output did, one thing after another. -/
def trace (d : Desk) : List Signal := d.turns.flatten

/-- The dits and dahs that were taken up. -/
def elements (d : Desk) : List Symbol := (d.trace.filterMap Signal.symbol?).filter Symbol.isElement

/-- The key went down in call `i` for the element `s`: in the calls that follow it stays down for as
many units as the element has, and it goes up in the last of them. -/
structure Stroke (turns : List (List Signal)) (i : Nat) (s : Symbol) : Prop where
  down : turns[i]? = some [.symbol s, .keyDown]
  element : s.isElement = true
  held : ∀ j, 0 < j → j < s.units → i + j < turns.length → turns[i + j]? = some []
  up : i + s.units < turns.length → turns[i + s.units]? = some [.keyUp]

/-- **The record of a desk shows the text that was typed.** -/
structure Faithful (d : Desk) : Prop where
  /-- What was typed is what a decoder makes of the symbols played, with the resets at the same
  places. -/
  typed : d.text = (Decoder.fresh.replay d.record).1
  /-- The key goes down and up by turns, and down first. -/
  byTurns : ∃ n, d.trace.filter Signal.isKeying = Signal.alternation n
  /-- The key goes down once for each dit or dah, right after it was taken up. -/
  paired : d.trace.filter Signal.isOnset = d.elements.flatMap fun s => [.symbol s, .keyDown]
  /-- Wherever the key goes down it does so for an element, and for as long as that lasts. -/
  struck : ∀ i signals, d.turns[i]? = some signals → .keyDown ∈ signals →
    ∃ s, Stroke d.turns i s
  /-- No symbol is taken up while the key is down. -/
  silent : ∀ before s after, d.trace = before ++ .symbol s :: after →
    Signal.leavesDown before = false
  /-- The state says whether the key is down. -/
  down_eq : Signal.leavesDown d.trace = d.sender.state.isDown

/-! ### The invariant of a history -/

/-- **The invariant of every history**: the record is faithful, the decoder is where the record has
left it, the key has moved an odd number of times if it is down, and an element that is not over yet
is so by as many units as the state has left. -/
structure Keyed (d : Desk) : Prop where
  faithful : d.Faithful
  heard : Decoder.fresh.replay d.record = (d.text, d.sender.decoder)
  parity : ∃ n, d.trace.filter Signal.isKeying = Signal.alternation n ∧
    (n % 2 = 1 ↔ d.sender.state.isDown = true)
  unitsLeft : ∀ i s, Stroke d.turns i s → d.turns.length ≤ i + s.units →
    d.sender.state.unitsLeft + d.turns.length = i + s.units + 1

variable {d : Desk} {t : Turn}

@[simp] theorem turns_take (d : Desk) (t : Turn) : (d.take t).turns = d.turns ++ [t.signals] := by
  simp [turns, take, Entry.signals?]

@[simp] theorem trace_take (d : Desk) (t : Turn) : (d.take t).trace = d.trace ++ t.signals := by
  simp [trace]

theorem elements_take (d : Desk) (t : Turn) :
    (d.take t).elements =
      d.elements ++ (t.signals.filterMap Signal.symbol?).filter Symbol.isElement := by
  rw [elements, trace_take, List.filterMap_append, List.filter_append, elements]

/-! ### What a call keeps -/

theorem heard_take (h : Effect d.sender t)
    (hd : Decoder.fresh.replay d.record = (d.text, d.sender.decoder)) :
    Decoder.fresh.replay (d.take t).record = ((d.take t).text, (d.take t).sender.decoder) := by
  have hcall : d.sender.decoder.replay [.call t.signals] = (t.bytes, t.sender.decoder) := by
    rw [Decoder.replay, h.hearAll]
    simp [Decoder.replay]
  rw [take, Decoder.replay_append, hd, hcall]

theorem parity_take (h : Effect d.sender t)
    (hd : ∃ n, d.trace.filter Signal.isKeying = Signal.alternation n ∧
      (n % 2 = 1 ↔ d.sender.state.isDown = true)) :
    ∃ n, (d.take t).trace.filter Signal.isKeying = Signal.alternation n ∧
      (n % 2 = 1 ↔ (d.take t).sender.state.isDown = true) := by
  obtain ⟨n, hn, hdown⟩ := hd
  rw [trace_take, List.filter_append, hn]
  rcases h.filter_isKeying with ⟨hkeying, hstate⟩ | ⟨hkeying, hstate⟩
  -- no movement, and the key is what it was
  · refine ⟨n, by rw [hkeying, List.append_nil], ?_⟩
    rw [take, hstate]
    exact hdown
  -- one movement, the one that the parity asks for
  · refine ⟨n + 1, ?_, ?_⟩
    · rw [hkeying, Signal.alternation_succ]
      rcases Nat.mod_two_eq_zero_or_one n with hmod | hmod
      · have hup : d.sender.state.isDown = false := by
          rw [Bool.eq_false_iff, Ne, ← hdown, hmod]
          exact Nat.zero_ne_one
        rw [hup, hmod]
        rfl
      · rw [hdown.mp hmod, hmod]
        rfl
    · rw [take, hstate, Bool.not_eq_true', ← Bool.not_eq_true, ← hdown]
      omega

theorem silent_take (h : Effect d.sender t) (hd : d.Faithful) :
    ∀ before s after, (d.take t).trace = before ++ .symbol s :: after →
      Signal.leavesDown before = false := by
  intro before s after heq
  rw [trace_take] at heq
  rcases List.append_eq_append_iff.mp heq with ⟨middle, rfl, hsignals⟩ | ⟨middle, htrace, hrest⟩
  -- the symbol is one that the call has taken up
  · obtain ⟨rfl, hup⟩ := h.of_signals_eq hsignals
    rw [List.append_nil, hd.down_eq, hup]
  · rcases middle with _ | ⟨a, middle⟩
    -- so it is if nothing of the trace before the call comes after `before`
    · have hsignals : t.signals = [] ++ .symbol s :: after := hrest.symm
      obtain ⟨-, hup⟩ := h.of_signals_eq hsignals
      rw [← hup, ← hd.down_eq, htrace, List.append_nil]
    -- otherwise it was there before the call
    · obtain ⟨rfl, -⟩ := List.cons.inj hrest
      exact hd.silent before s middle htrace

/-! ### How long the key is down -/

theorem getElem?_turns_take_of_lt {i : Nat} (hi : i < d.turns.length) :
    (d.take t).turns[i]? = d.turns[i]? := by
  rw [turns_take, List.getElem?_append_left hi]

theorem getElem?_turns_take_length : (d.take t).turns[d.turns.length]? = some t.signals := by
  rw [turns_take, List.getElem?_concat_length]

theorem length_turns_take : (d.take t).turns.length = d.turns.length + 1 := by
  rw [turns_take, List.length_append, List.length_singleton]

theorem Stroke.lt_length {turns : List (List Signal)} {i : Nat} {s : Symbol}
    (h : Stroke turns i s) : i < turns.length :=
  (List.getElem?_eq_some_iff.mp h.down).1

theorem Stroke.units_pos {turns : List (List Signal)} {i : Nat} {s : Symbol}
    (_ : Stroke turns i s) : 0 < s.units := by
  cases s <;> decide

/-- **A call goes on with a stroke as it must.** If the element is over, the call has nothing to do
with it; if it is not, the state says how much is left of it. -/
theorem Stroke.take {i : Nat} {s : Symbol} (hs : Stroke d.turns i s) (h : Effect d.sender t)
    (hleft : d.turns.length ≤ i + s.units →
      d.sender.state.unitsLeft + d.turns.length = i + s.units + 1) :
    Stroke (d.take t).turns i s ∧ ((d.take t).turns.length ≤ i + s.units →
      (d.take t).sender.state.unitsLeft + (d.take t).turns.length = i + s.units + 1) := by
  have hdown : (d.take t).turns[i]? = some [.symbol s, .keyDown] := by
    rw [getElem?_turns_take_of_lt hs.lt_length, hs.down]
  have hpos := hs.units_pos
  rcases Nat.lt_or_ge (i + s.units) d.turns.length with hover | hlasts
  -- the element was over before the call, which adds a turn behind all of its turns
  · refine ⟨⟨hdown, hs.element, ?_, ?_⟩, ?_⟩
    · intro j h0 hj _
      rw [getElem?_turns_take_of_lt (by omega), hs.held j h0 hj (by omega)]
    · intro _
      rw [getElem?_turns_take_of_lt hover, hs.up hover]
    · intro hc
      rw [length_turns_take] at hc
      omega
  · have hunits := hleft hlasts
    rcases h.of_unitsLeft_pos (by omega) with ⟨hsignals, hstate, hstay⟩ | ⟨hsignals, hlast⟩
    -- the call is one of those in which the key stays down
    · refine ⟨⟨hdown, hs.element, ?_, ?_⟩, ?_⟩
      · intro j h0 hj hlt
        rw [length_turns_take] at hlt
        rcases Nat.lt_or_eq_of_le (Nat.le_of_lt_succ hlt) with hlt | heq
        · rw [getElem?_turns_take_of_lt hlt, hs.held j h0 hj hlt]
        · rw [heq, getElem?_turns_take_length, hsignals]
      · intro hc
        rw [length_turns_take] at hc
        omega
      · intro _
        rw [length_turns_take]
        change t.sender.state.unitsLeft + (d.turns.length + 1) = i + s.units + 1
        omega
    -- the call is the last one of the element
    · have hlength : i + s.units = d.turns.length := by omega
      refine ⟨⟨hdown, hs.element, ?_, ?_⟩, ?_⟩
      · intro j h0 hj _
        rw [getElem?_turns_take_of_lt (by omega), hs.held j h0 hj (by omega)]
      · intro _
        rw [hlength, getElem?_turns_take_length, hsignals]
      · intro hc
        rw [length_turns_take] at hc
        omega

/-- A stroke begins with a call in which the key goes down. -/
theorem stroke_take_length {s : Symbol} (hs : s.isElement = true)
    (hsignals : t.signals = [.symbol s, .keyDown]) :
    Stroke (d.take t).turns d.turns.length s := by
  have hlength := length_turns_take (d := d) (t := t)
  refine ⟨by rw [getElem?_turns_take_length, hsignals], hs, ?_, ?_⟩
  · intro j h0 _ hlt
    omega
  · intro hlt
    have hpos : 0 < s.units := by cases s <;> decide
    omega

/-- **A call keeps the invariant.** -/
theorem Keyed.take (hd : d.Keyed) (h : Effect d.sender t) : (d.take t).Keyed := by
  have hparity := parity_take h hd.parity
  have hheard := heard_take h hd.heard
  -- wherever the key goes down a stroke begins, and the state counts the units of the last one
  have hstrokes : ∀ i signals, (d.take t).turns[i]? = some signals → .keyDown ∈ signals →
      ∃ s, Stroke (d.take t).turns i s ∧ ((d.take t).turns.length ≤ i + s.units →
        (d.take t).sender.state.unitsLeft + (d.take t).turns.length = i + s.units + 1) := by
    intro i signals hi hmem
    have hlt := (List.getElem?_eq_some_iff.mp hi).1
    rw [length_turns_take] at hlt
    rcases Nat.lt_or_eq_of_le (Nat.le_of_lt_succ hlt) with hlt | rfl
    · rw [getElem?_turns_take_of_lt hlt] at hi
      obtain ⟨s, hs⟩ := hd.faithful.struck i signals hi hmem
      exact ⟨s, hs.take h (hd.unitsLeft i s hs)⟩
    · rw [getElem?_turns_take_length] at hi
      obtain rfl := Option.some.inj hi
      obtain ⟨s, hs, hsignals, hunits⟩ := h.of_keyDown_mem hmem
      refine ⟨s, stroke_take_length hs hsignals, ?_⟩
      intro _
      rw [length_turns_take, Desk.take, hunits]
      omega
  have hfaithful : (d.take t).Faithful :=
    { typed := by rw [hheard]
      byTurns := by
        obtain ⟨n, hn, -⟩ := hparity
        exact ⟨n, hn⟩
      paired := by
        rw [trace_take, List.filter_append, hd.faithful.paired, h.filter_isOnset, elements_take,
          List.flatMap_append]
      struck := by
        intro i signals hi hmem
        obtain ⟨s, hs, -⟩ := hstrokes i signals hi hmem
        exact ⟨s, hs⟩
      silent := silent_take h hd.faithful
      down_eq := by
        rw [trace_take, Signal.leavesDown_append, hd.faithful.down_eq, h.foldl_keyAfter]
        rfl }
  refine ⟨hfaithful, hheard, hparity, ?_⟩
  -- a stroke is for the symbol of its first call, so it is the one of `hstrokes`
  intro i s hs
  obtain ⟨s', hs', hleft⟩ := hstrokes i _ hs.down (by simp)
  obtain rfl : s' = s := by simpa using hs'.down.symm.trans hs.down
  exact hleft

/-! ### What the other acts keep -/

/-- Only the sender, the record and the text matter. -/
theorem Keyed.congr {e : Desk} (hd : d.Keyed) (hsender : e.sender = d.sender)
    (hrecord : e.record = d.record) (htext : e.text = d.text) : e.Keyed := by
  obtain ⟨sender, chars, symbols, record, text⟩ := e
  subst hsender hrecord htext
  exact ⟨⟨hd.faithful.typed, hd.faithful.byTurns, hd.faithful.paired, hd.faithful.struck,
    hd.faithful.silent, hd.faithful.down_eq⟩, hd.heard, hd.parity, hd.unitsLeft⟩

/-- Forgetting a letter adds a reset to the record and leaves the key alone. -/
theorem Keyed.forget (hd : d.Keyed) : (d.act .forget).Keyed := by
  have hturns : (d.act .forget).turns = d.turns := by simp [act, turns, Entry.signals?]
  have htrace : (d.act .forget).trace = d.trace := by rw [trace, hturns, trace]
  have helements : (d.act .forget).elements = d.elements := by rw [elements, htrace, elements]
  have hheard : Decoder.fresh.replay (d.act .forget).record =
      ((d.act .forget).text, (d.act .forget).sender.decoder) := by
    rw [act, Decoder.replay_append, hd.heard]
    simp [Decoder.replay, forgetLetter]
  have hfaithful : (d.act .forget).Faithful :=
    { typed := by rw [hheard]
      byTurns := by rw [htrace]; exact hd.faithful.byTurns
      paired := by rw [htrace, helements]; exact hd.faithful.paired
      struck := by rw [hturns]; exact hd.faithful.struck
      silent := by rw [htrace]; exact hd.faithful.silent
      down_eq := by rw [htrace]; exact hd.faithful.down_eq }
  refine ⟨hfaithful, hheard, ?_, ?_⟩
  · rw [htrace]
    exact hd.parity
  · rw [hturns]
    exact hd.unitsLeft

theorem Keyed.act (hd : d.Keyed) (a : Act) : (d.act a).Keyed := by
  cases a with
  -- the queues are not part of the invariant
  | queueByte | queueSymbol | clearBytes | clearSymbols => exact hd.congr rfl rfl rfl
  | forget => exact hd.forget
  | call =>
    obtain ⟨t, ht, hcall⟩ := d.exists_call
    rw [Desk.act, hcall]
    exact hd.take ht.effect

/-- A desk at which nothing has happened. -/
theorem keyed_fresh (chars : CharRing) (symbols : SymbolRing) :
    Keyed { chars := chars, symbols := symbols } := by
  have hparity : 0 % 2 = 1 ↔ State.idle.isDown = true :=
    iff_of_false Nat.zero_ne_one Bool.false_ne_true
  refine ⟨⟨rfl, ⟨0, rfl⟩, rfl, ?_, ?_, rfl⟩, rfl, ⟨0, rfl, hparity⟩, ?_⟩
  · intro i signals hi
    simp [turns] at hi
  · intro before s after h
    simp [trace, turns] at h
  · intro i s hs
    simpa [turns] using hs.lt_length

/-- **What is heard is what is typed**: the record of a fresh sender is faithful after every
history, whatever its queues held in the beginning. -/
theorem faithful_perform (chars : CharRing) (symbols : SymbolRing) (acts : List Act) :
    (perform { chars := chars, symbols := symbols } acts).Faithful :=
  (perform_induction (P := Keyed) (fun _ a h => h.act a) (keyed_fresh chars symbols) acts).faithful

end Sender.Desk

end MorseKeyboard
