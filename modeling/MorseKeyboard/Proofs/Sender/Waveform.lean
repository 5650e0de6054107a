import MorseKeyboard.Proofs.Sender.Call

/-!
# When the key will move

A text to be sent is a *score* (`MorseKeyboard.Sender.score`): its elements in order, each with the
milliseconds for which the key is up before it. Within a letter that is a unit, before a letter
three units and a millisecond, and every blank in between adds six units and two milliseconds. From
a score one reads off when the key goes down and up (`MorseKeyboard.Sender.strokes`).

The sender knows nothing of this. It is called once per unit, or once per millisecond while it is
idle, and it asks for a rate now and then. What joins the two is the *forecast*
(`MorseKeyboard.Sender.State.forecast`), the movements still to come if the sender is in a state,
has these symbols and bytes in its queues and is called next at a given time. **A call makes the
movements that were forecast for it and leaves the forecast of the others as it was**
(`MorseKeyboard.Sender.Call.forecast_eq`), if the next call comes after the period that the rate
asks for.
-/

namespace MorseKeyboard

/-! ### Bytes without elements -/

namespace Code

/-- Of the bytes with a code, only the blank has no elements. -/
theorem elements?_ne_nil {byte : UInt8} {run : List Symbol} (h : elements? byte = some run)
    (hb : byte ≠ 0x20) : run ≠ [] := by
  rintro rfl
  obtain ⟨p, hp, hrun⟩ := Option.map_eq_some_iff.mp h
  have hge : 2 ≤ p := by
    by_cases hdollar : byte = 0x24
    · rw [hdollar] at hp
      rw [← Option.some.inj hp]
      decide
    · exact (letter?_bounds (letter?_of_pattern? hp hb hdollar)).1
  have hlog : 1 ≤ p.log2 := (Nat.le_log2 (by omega)).mpr hge
  rw [← Pattern.length_elements, hrun] at hlog
  exact absurd hlog (by decide)

end Code

namespace Sender

/-! ### Scores -/

/-- **The score of a text**: its elements, each with the silence before it, in milliseconds. The
silence before the first one is given. -/
def score (dit : Nat) : Nat → List UInt8 → List (Nat × Symbol)
  | _, [] => []
  | silence, byte :: bytes =>
    match Code.elements? byte with
    | none => score dit silence bytes
    | some [] => score dit (silence + (6 * dit + 2)) bytes
    | some (s :: run) =>
      (silence, s) :: run.map (fun s => (dit, s)) ++ score dit (3 * dit + 1) bytes

/-- **The movements of the key for a score**, each with its time; the key went up last at `time`. -/
def strokes (dit : Nat) : Nat → List (Nat × Symbol) → List (Nat × Signal)
  | _, [] => []
  | time, (silence, s) :: rest =>
    (time + silence, .keyDown) :: (time + silence + s.units * dit, .keyUp) ::
      strokes dit (time + silence + s.units * dit) rest

variable {dit : Nat}

/-- **The score of a text has the elements of its bytes in order.** -/
theorem map_snd_score (silence : Nat) (bytes : List UInt8) :
    (score dit silence bytes).map Prod.snd =
      bytes.flatMap fun byte => (Code.elements? byte).getD [] := by
  induction bytes generalizing silence with
  | nil => rfl
  | cons byte bytes ih =>
    rw [score, List.flatMap_cons]
    rcases Code.elements? byte with _ | _ | ⟨s, run⟩
    · exact ih silence
    · exact ih _
    · dsimp only
      rw [List.map_append, ih, List.map_cons, List.map_map]
      exact congrArg (s :: · ++ _) (List.map_id run)

/-- A longer silence in the beginning is a later beginning. -/
theorem strokes_score_add (time silence more : Nat) (bytes : List UInt8) :
    strokes dit time (score dit (silence + more) bytes) =
      strokes dit (time + more) (score dit silence bytes) := by
  induction bytes generalizing silence with
  | nil => rfl
  | cons byte bytes ih =>
    rw [score, score]
    -- a byte without a code, a blank, a letter: only the letter uses up the silence
    rcases Code.elements? byte with _ | _ | ⟨s, run⟩
    · exact ih silence
    · have hsum : silence + more + (6 * dit + 2) = silence + (6 * dit + 2) + more := by omega
      dsimp only
      rw [hsum, ih]
    · have hsum : time + (silence + more) = time + more + silence := by omega
      dsimp only
      rw [List.cons_append, List.cons_append, strokes, strokes, hsum]

theorem le_of_mem_strokes {time : Nat} {notes : List (Nat × Symbol)} {m : Nat × Signal}
    (h : m ∈ strokes dit time notes) : time ≤ m.1 := by
  induction notes generalizing time with
  | nil => cases h
  | cons note notes ih =>
    obtain ⟨silence, s⟩ := note
    rw [strokes, List.mem_cons, List.mem_cons] at h
    rcases h with rfl | rfl | h
    · exact Nat.le_add_right _ _
    · show time ≤ time + silence + s.units * dit
      omega
    · have := ih h
      omega

/-! ### Forecasts -/

/-- The movements to come if the sender takes up the next of some symbols at `time`, and turns to
the bytes when it has none. -/
def forecastSymbols (dit : Nat) (bytes : List UInt8) : Nat → List Symbol → List (Nat × Signal)
  | time, [] => strokes dit (time + 1) (score dit 0 bytes)
  | time, [.space] => strokes dit (time + 2 * dit + 1) (score dit 0 bytes)
  | time, .space :: s :: rest => forecastSymbols dit bytes (time + 2 * dit + 1) (s :: rest)
  | time, s :: rest =>
    (time, .keyDown) :: (time + s.units * dit, .keyUp) ::
      forecastSymbols dit bytes (time + s.units * dit + dit) rest

/-- The movements to come if the sender is idle at `time`. -/
def forecastIdle (dit : Nat) (bytes : List UInt8) (time : Nat) : List Symbol → List (Nat × Signal)
  | [] => strokes dit time (score dit 0 bytes)
  | s :: rest => forecastSymbols dit bytes time (s :: rest)

/-- **The movements to come** if the sender is in a state and is called next at `time`. -/
def State.forecast (dit : Nat) (bytes : List UInt8) (symbols : List Symbol) (time : Nat) :
    State → List (Nat × Signal)
  | idle => forecastIdle dit bytes time symbols
  | hyper => forecastIdle dit bytes (time + 1) symbols
  | sendBit => forecastSymbols dit bytes time symbols
  | bitSp => (time, .keyUp) :: forecastSymbols dit bytes (time + dit) symbols
  | dah2 => (time + dit, .keyUp) :: forecastSymbols dit bytes (time + 2 * dit) symbols
  | dah => (time + 2 * dit, .keyUp) :: forecastSymbols dit bytes (time + 3 * dit) symbols
  | charSp | wordSp3 => forecastIdle dit bytes (time + dit + 1) symbols
  | wordSp2 => forecastIdle dit bytes (time + 2 * dit + 1) symbols
  | wordSp => forecastIdle dit bytes (time + 3 * dit + 1) symbols

/-- The movements of the key among some signals, all at one time. -/
def movementsAt (time : Nat) (signals : List Signal) : List (Nat × Signal) :=
  (signals.filter Signal.isKeying).map fun signal => (time, signal)

theorem forecastSymbols_space (bytes : List UInt8) (time : Nat) (rest : List Symbol) :
    forecastSymbols dit bytes time (.space :: rest) =
      forecastIdle dit bytes (time + 2 * dit + 1) rest := by
  cases rest <;> rfl

theorem forecastSymbols_element {s : Symbol} (hs : s.isElement = true) (bytes : List UInt8)
    (time : Nat) (rest : List Symbol) :
    forecastSymbols dit bytes time (s :: rest) =
      (time, .keyDown) :: (time + s.units * dit, .keyUp) ::
        forecastSymbols dit bytes (time + s.units * dit + dit) rest := by
  cases s with
  | dit | dah => cases rest <;> rfl
  | space => cases hs

/-- **Taking up a symbol** makes its movements, and the next call comes a unit later. -/
theorem forecastSymbols_cons (bytes : List UInt8) (time : Nat) (s : Symbol) (rest : List Symbol) :
    forecastSymbols dit bytes time (s :: rest) =
      movementsAt time (Turn.signalsOf s) ++
        (Turn.stateAfter s).forecast dit bytes rest (time + dit) := by
  cases s with
  | dit =>
    have hunits : time + Symbol.dit.units * dit = time + dit := by
      rw [Symbol.units, Nat.one_mul]
    rw [forecastSymbols_element rfl, hunits]
    rfl
  | dah =>
    have hup : time + Symbol.dah.units * dit = time + dit + 2 * dit := by
      rw [Symbol.units]
      omega
    have hnext : time + dit + 2 * dit + dit = time + dit + 3 * dit := by omega
    rw [forecastSymbols_element rfl, hup, hnext]
    rfl
  | space =>
    have htime : time + 2 * dit + 1 = time + dit + dit + 1 := by omega
    rw [forecastSymbols_space, htime]
    rfl

/-! ### What is forecast for a byte -/

/-- The rest of a letter, its first element being over: the key went up last at `time`. -/
theorem forecastSymbols_letter {run : List Symbol} (h : ∀ s ∈ run, s.isElement = true)
    (bytes : List UInt8) (time : Nat) :
    forecastSymbols dit bytes (time + dit) (run ++ [.space]) =
      strokes dit time (run.map (fun s => (dit, s)) ++ score dit (3 * dit + 1) bytes) := by
  induction run generalizing time with
  -- the space that ends the letter is heard a unit later, and leads to the next byte
  | nil =>
    have htime : time + dit + 2 * dit + 1 = time + (3 * dit + 1) := by omega
    have hsilence : 3 * dit + 1 = 0 + (3 * dit + 1) := (Nat.zero_add _).symm
    rw [List.nil_append, forecastSymbols_space, forecastIdle, htime, ← strokes_score_add,
      ← hsilence]
    rfl
  | cons s run ih =>
    have hs : s.isElement = true := h s List.mem_cons_self
    have hrun : ∀ r ∈ run, r.isElement = true := fun r hr => h r (List.mem_cons_of_mem s hr)
    rw [List.cons_append, forecastSymbols_element hs, List.map_cons, List.cons_append, strokes,
      ih hrun]

/-- A letter is played from its first call on. -/
theorem strokes_score_letter {byte : UInt8} {run : List Symbol} (h : Code.elements? byte = some run)
    (hne : run ≠ []) (bytes : List UInt8) (time : Nat) :
    strokes dit time (score dit 0 (byte :: bytes)) =
      forecastSymbols dit bytes time (run ++ [.space]) := by
  obtain ⟨s, rest, rfl⟩ := List.exists_cons_of_ne_nil hne
  have helements := (Code.elements?_bounds h).2
  have hs : s.isElement = true := helements s List.mem_cons_self
  rw [score, h]
  dsimp only
  rw [List.cons_append, List.cons_append, strokes, forecastSymbols_element hs,
    forecastSymbols_letter fun r hr => helements r (List.mem_cons_of_mem s hr), Nat.add_zero]

/-- A blank begins with a space that is not taken up before three more units have passed. -/
theorem strokes_score_blank (bytes : List UInt8) (time : Nat) :
    strokes dit time (score dit 0 (0x20 :: bytes)) =
      State.wordSp.forecast dit bytes [.space] (time + dit) := by
  have hblank : Code.elements? 0x20 = some [] := rfl
  have htime : time + dit + 3 * dit + 1 + 2 * dit + 1 = time + (6 * dit + 2) := by omega
  rw [score, hblank]
  dsimp only
  rw [strokes_score_add, State.forecast, forecastIdle, forecastSymbols_space, forecastIdle, htime]

/-! ### Calls keep the forecast -/

/-- Letting time pass is waiting for the next call. -/
theorem State.forecast_successor? {state next : State} (h : state.successor? = some next)
    (bytes : List UInt8) (symbols : List Symbol) (time : Nat) :
    state.forecast dit bytes symbols time = next.forecast dit bytes symbols (time + dit) := by
  have htwo : time + 2 * dit = time + dit + dit := by omega
  have hthree : time + 3 * dit = time + dit + 2 * dit := by omega
  cases state with
  | dah | dah2 | wordSp | wordSp2 =>
    cases h
    simp only [State.forecast, htwo, hthree]
  | charSp | wordSp3 =>
    cases h
    rfl
  | idle | hyper | sendBit | bitSp => cases h

/-- A sender that sends a text and is not disturbed: all that waits can be played, and it is called
once per unit unless it is idle. -/
structure InStep (dit period : Nat) (state : State) (chars : CharRing) (symbols : SymbolRing) :
    Prop where
  wellFormed : symbols.WellFormed
  coded : ∀ byte ∈ chars.toList, (Code.elements? byte).isSome = true
  period_eq : state ≠ .idle → period = dit

variable {s : Sender} {chars : CharRing} {symbols : SymbolRing} {t : Turn} {period : Nat}

/-- Taking up the first symbol of a queue. -/
theorem forecast_taking {x : Symbol} {rest : SymbolRing} (hx : symbols.pop? = some (x, rest))
    (chars : CharRing) (rate : Option Rate) (time : Nat) :
    forecastSymbols dit chars.toList time symbols.toList =
      movementsAt time (s.taking chars x rest rate).signals ++
        (s.taking chars x rest rate).sender.state.forecast dit chars.toList rest.toList
          (time + dit) := by
  rw [Ring.toList_of_pop? hx, forecastSymbols_cons]
  rfl

/-- **A call makes the movements that were forecast for it, and the others stay forecast.** -/
theorem Call.forecast_eq (h : Call s chars symbols t) (hs : InStep dit period s.state chars symbols)
    (time : Nat) :
    s.state.forecast dit chars.toList symbols.toList time =
      movementsAt time t.signals ++
        t.sender.state.forecast dit t.chars.toList t.symbols.toList
          (time + periodAfter dit period t.rate) := by
  cases h with
  | wait hidle hq hc =>
    rw [hidle, Ring.pop?_eq_none_iff.mp hq, Ring.pop?_eq_none_iff.mp hc]
    rfl
  -- in step nothing is swallowed
  | @swallow byte rest hidle hq hc he =>
    have hcoded := hs.coded byte (by rw [Ring.toList_of_pop? hc]; exact List.mem_cons_self)
    rw [he] at hcoded
    cases hcoded
  | blank hidle hq hc =>
    rw [hidle, Ring.pop?_eq_none_iff.mp hq, Ring.toList_of_pop? hc,
      toList_blank hs.wellFormed hq]
    exact strokes_score_blank _ time
  | @expand byte run chars' x rest hidle hq hc hb he hx =>
    have hqueued : ((symbols.pushAll run).push .space).toList = run ++ [.space] := by
      rw [toList_expanded hs.wellFormed hq he, Code.played, he]
    rw [hidle, Ring.pop?_eq_none_iff.mp hq, Ring.toList_of_pop? hc]
    show strokes dit time (score dit 0 (byte :: chars'.toList)) = _
    rw [strokes_score_letter he (Code.elements?_ne_nil he hb), ← hqueued]
    exact forecast_taking hx chars' (some .normal) time
  -- with symbols in the queue an idle sender is as good as one about to take up a symbol
  | wake hidle hx =>
    rw [hidle, State.forecast, Ring.toList_of_pop? hx, forecastIdle, ← Ring.toList_of_pop? hx]
    exact forecast_taking hx chars (some .normal) time
  | next hsend hx =>
    have hperiod : period = dit := hs.period_eq (by rw [hsend]; decide)
    rw [hsend, hperiod]
    exact forecast_taking hx chars none time
  -- idle, the sender is called again after a millisecond
  | settle hstate =>
    rcases hstate with hhyper | ⟨hsend, hq⟩
    · rw [hhyper]
      rfl
    · rw [hsend, Ring.pop?_eq_none_iff.mp hq]
      rfl
  | release hbit =>
    have hperiod : period = dit := hs.period_eq (by rw [hbit]; decide)
    rw [hbit, hperiod]
    rfl
  | pass hpass =>
    have hperiod : period = dit := by
      apply hs.period_eq
      intro hidle
      rw [hidle] at hpass
      cases hpass
    rw [hperiod]
    exact State.forecast_successor? hpass _ _ time

/-- **A sender in step stays in step**, whatever it does in a call. -/
theorem Call.inStep (h : Call s chars symbols t) (hs : InStep dit period s.state chars symbols) :
    InStep dit (periodAfter dit period t.rate) t.sender.state t.chars t.symbols := by
  have hcoded : ∀ {byte : UInt8} {rest : CharRing}, chars.pop? = some (byte, rest) →
      ∀ b ∈ rest.toList, (Code.elements? b).isSome = true := by
    intro byte rest hc b hb
    exact hs.coded b (by rw [Ring.toList_of_pop? hc]; exact List.mem_cons_of_mem byte hb)
  cases h with
  | wait => exact hs
  | swallow hidle hq hc => exact ⟨hs.wellFormed, hcoded hc, hs.period_eq⟩
  | blank hidle hq hc => exact ⟨hs.wellFormed.push _, hcoded hc, fun _ => rfl⟩
  | expand hidle hq hc hb he hx =>
    exact ⟨((hs.wellFormed.pushAll _).push _).of_pop? hx, hcoded hc, fun _ => rfl⟩
  | wake hidle hx => exact ⟨hs.wellFormed.of_pop? hx, hs.coded, fun _ => rfl⟩
  | next hsend hx =>
    have hperiod : period = dit := hs.period_eq (by rw [hsend]; decide)
    exact ⟨hs.wellFormed.of_pop? hx, hs.coded, fun _ => hperiod⟩
  | settle => exact ⟨hs.wellFormed, hs.coded, fun hc => absurd rfl hc⟩
  | release hbit =>
    have hperiod : period = dit := hs.period_eq (by rw [hbit]; decide)
    exact ⟨hs.wellFormed, hs.coded, fun _ => hperiod⟩
  | pass hpass =>
    have hperiod : period = dit := by
      apply hs.period_eq
      intro hidle
      rw [hidle] at hpass
      cases hpass
    exact ⟨hs.wellFormed, hs.coded, fun _ => hperiod⟩

/-! ### No movement comes early -/

theorem le_of_mem_forecastSymbols {bytes : List UInt8} {symbols : List Symbol} {time : Nat}
    {m : Nat × Signal} (h : m ∈ forecastSymbols dit bytes time symbols) : time ≤ m.1 := by
  induction symbols generalizing time with
  | nil =>
    have := le_of_mem_strokes h
    omega
  | cons s rest ih =>
    rcases Bool.eq_false_or_eq_true s.isElement with hs | hs
    · rw [forecastSymbols_element hs, List.mem_cons, List.mem_cons] at h
      rcases h with rfl | rfl | h
      · exact Nat.le_refl _
      · exact Nat.le_add_right _ _
      · have := ih h
        omega
    · obtain rfl : s = .space := by cases s <;> first | rfl | cases hs
      rw [forecastSymbols_space] at h
      rcases rest with _ | ⟨s, rest⟩
      · have := le_of_mem_strokes h
        omega
      · have := ih h
        omega

theorem le_of_mem_forecastIdle {bytes : List UInt8} {symbols : List Symbol} {time : Nat}
    {m : Nat × Signal} (h : m ∈ forecastIdle dit bytes time symbols) : time ≤ m.1 := by
  cases symbols with
  | nil => exact le_of_mem_strokes h
  | cons s rest => exact le_of_mem_forecastSymbols h

/-- **Nothing is forecast for a time before the next call.** -/
theorem State.le_of_mem_forecast {state : State} {bytes : List UInt8} {symbols : List Symbol}
    {time : Nat} {m : Nat × Signal} (h : m ∈ state.forecast dit bytes symbols time) :
    time ≤ m.1 := by
  cases state with
  | idle => exact le_of_mem_forecastIdle h
  | sendBit => exact le_of_mem_forecastSymbols h
  | hyper | charSp | wordSp | wordSp2 | wordSp3 =>
    have := le_of_mem_forecastIdle h
    omega
  | dah | dah2 | bitSp =>
    rcases List.mem_cons.mp h with rfl | h
    · simp
    · have := le_of_mem_forecastSymbols h
      omega

end Sender

end MorseKeyboard
