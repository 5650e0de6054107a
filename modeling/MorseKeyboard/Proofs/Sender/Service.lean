import MorseKeyboard.Proofs.Sender.Waveform

/-!
# Symbols that come one by one

A sender to which no byte is given plays the symbols of its queue, each as soon as it is free for
it. When it is free for one more symbol can be told from its state, its queue and the time of its
next call (`MorseKeyboard.Sender.State.freeAt`), and **a call does not change this time**, unless it
lies in the past (`MorseKeyboard.Sender.Call.freeAt_eq`). What is forecast for a symbol that joins
the queue is its stroke at this time, whatever state the sender is in
(`MorseKeyboard.Sender.State.forecast_append`).

So symbols that come one by one are *served* in their order
(`MorseKeyboard.Sender.services`): each is taken up when it comes or when the one before it is over,
whichever is later.
-/

namespace MorseKeyboard

/-! ### Strokes -/

namespace Symbol

/-- The milliseconds for which the sender is busy with a symbol: with an element and the unit of
silence after it, or with a space until it asks for symbols again. -/
def duration (dit : Nat) : Symbol → Nat
  | .dit => 2 * dit
  | .dah => 4 * dit
  | .space => 2 * dit + 1

/-- The movements of the key for a symbol that is taken up at `time`. -/
def stroke (dit time : Nat) (s : Symbol) : List (Nat × Signal) :=
  if s.isElement then [(time, .keyDown), (time + s.units * dit, .keyUp)] else []

theorem duration_of_isElement {s : Symbol} (hs : s.isElement = true) (dit : Nat) :
    s.duration dit = s.units * dit + dit := by
  cases s with
  | dit | dah =>
    simp only [duration, units]
    omega
  | space => cases hs

theorem le_duration (s : Symbol) (dit : Nat) : 2 * dit ≤ s.duration dit := by
  cases s <;> simp only [duration] <;> omega

theorem le_of_mem_stroke {dit time : Nat} {s : Symbol} {m : Nat × Signal}
    (h : m ∈ s.stroke dit time) : time ≤ m.1 := by
  rw [stroke] at h
  split at h
  · rw [List.mem_cons, List.mem_singleton] at h
    rcases h with rfl | rfl
    · exact Nat.le_refl _
    · exact Nat.le_add_right _ _
  · cases h

end Symbol

namespace Sender

variable {dit : Nat}

/-- The milliseconds for which the sender is busy with some symbols. -/
def load (dit : Nat) : List Symbol → Nat
  | [] => 0
  | s :: symbols => s.duration dit + load dit symbols

theorem load_append (symbols more : List Symbol) :
    load dit (symbols ++ more) = load dit symbols + load dit more := by
  induction symbols with
  | nil => exact (Nat.zero_add _).symm
  | cons s symbols ih => rw [List.cons_append, load, ih, load, Nat.add_assoc]

theorem length_le_load (symbols : List Symbol) : 2 * dit * symbols.length ≤ load dit symbols := by
  induction symbols with
  | nil => exact Nat.le_refl _
  | cons s symbols ih =>
    have hs := s.le_duration dit
    rw [load, List.length_cons, Nat.mul_succ]
    omega

/-! ### What is forecast for symbols alone -/

/-- Without bytes an idle sender is as good as one about to take up a symbol. -/
theorem forecastIdle_nil (time : Nat) (symbols : List Symbol) :
    forecastIdle dit [] time symbols = forecastSymbols dit [] time symbols := by
  cases symbols <;> rfl

theorem forecastSymbols_singleton (time : Nat) (s : Symbol) :
    forecastSymbols dit [] time [s] = s.stroke dit time := by
  cases s <;> rfl

/-- **Symbols are played one after another.** -/
theorem forecastSymbols_append (time : Nat) (symbols more : List Symbol) :
    forecastSymbols dit [] time (symbols ++ more) =
      forecastSymbols dit [] time symbols ++
        forecastSymbols dit [] (time + load dit symbols) more := by
  induction symbols generalizing time with
  | nil => rfl
  | cons s symbols ih =>
    have hload : time + load dit (s :: symbols) = time + s.duration dit + load dit symbols := by
      rw [load, Nat.add_assoc]
    rw [List.cons_append, hload]
    rcases Bool.eq_false_or_eq_true s.isElement with hs | hs
    · rw [forecastSymbols_element hs, forecastSymbols_element hs, ih, s.duration_of_isElement hs,
        List.cons_append, List.cons_append, Nat.add_assoc time]
    · obtain rfl : s = .space := by cases s <;> first | rfl | cases hs
      rw [forecastSymbols_space, forecastSymbols_space, forecastIdle_nil, forecastIdle_nil, ih]
      rfl

theorem forecastSymbols_cons_nil (time : Nat) (s : Symbol) (symbols : List Symbol) :
    forecastSymbols dit [] time (s :: symbols) =
      s.stroke dit time ++ forecastSymbols dit [] (time + s.duration dit) symbols := by
  have hload : load dit [s] = s.duration dit := Nat.add_zero _
  rw [← List.singleton_append, forecastSymbols_append, forecastSymbols_singleton, hload]

/-! ### When the sender is free -/

/-- The milliseconds from the next call of the sender to the one that takes up a symbol, if there is
one. -/
def State.lag (dit : Nat) : State → Nat
  | idle | sendBit => 0
  | hyper => 1
  | bitSp => dit
  | dah2 => 2 * dit
  | dah => 3 * dit
  | charSp | wordSp3 => dit + 1
  | wordSp2 => 2 * dit + 1
  | wordSp => 3 * dit + 1

theorem State.lag_le (state : State) (dit : Nat) : state.lag dit ≤ 3 * dit + 1 := by
  cases state <;> simp only [lag] <;> omega

/-- A state in which time passes is left for the next one after a unit. -/
theorem State.lag_successor? {state next : State} (h : state.successor? = some next) (dit : Nat) :
    dit + next.lag dit = state.lag dit := by
  cases state <;> cases h <;> simp only [lag] <;> omega

/-- Taking up a symbol takes a unit, and the rest of it is up to the state that follows. -/
theorem State.lag_stateAfter (x : Symbol) (dit : Nat) :
    dit + (Turn.stateAfter x).lag dit = x.duration dit := by
  cases x <;> simp only [Turn.stateAfter, lag, Symbol.duration] <;> omega

/-- **The time at which the sender is free for one more symbol**, if it is called next at `time`. -/
def State.freeAt (dit : Nat) (symbols : List Symbol) (time : Nat) (state : State) : Nat :=
  time + state.lag dit + load dit symbols

/-- The movements to come before the sender takes up a symbol: the key goes up if it is down. -/
def State.forecastUp (dit time : Nat) : State → List (Nat × Signal)
  | bitSp => [(time, .keyUp)]
  | dah2 => [(time + dit, .keyUp)]
  | dah => [(time + 2 * dit, .keyUp)]
  | _ => []

theorem State.forecast_nil (state : State) (symbols : List Symbol) (time : Nat) :
    state.forecast dit [] symbols time =
      state.forecastUp dit time ++ forecastSymbols dit [] (time + state.lag dit) symbols := by
  cases state <;> simp only [forecast, forecastUp, lag, forecastIdle_nil] <;> rfl

/-- **Symbols that join the queue are played when the sender is free for them.** -/
theorem State.forecast_append (state : State) (symbols more : List Symbol) (time : Nat) :
    state.forecast dit [] (symbols ++ more) time =
      state.forecast dit [] symbols time ++
        forecastSymbols dit [] (state.freeAt dit symbols time) more := by
  rw [forecast_nil, forecast_nil, forecastSymbols_append, List.append_assoc, freeAt]

theorem State.freeAt_append (state : State) (symbols more : List Symbol) (time : Nat) :
    state.freeAt dit (symbols ++ more) time =
      state.freeAt dit symbols time + load dit more := by
  rw [freeAt, load_append, freeAt, Nat.add_assoc _ (load dit symbols)]

/-! ### Calls without bytes -/

/-- When no byte waits, a call only takes up symbols that were in the queue. -/
theorem Call.of_no_byte {s : Sender} {chars : CharRing} {symbols : SymbolRing} {t : Turn}
    (h : Call s chars symbols t) (hc : chars.pop? = none) (hsymbols : symbols.WellFormed) :
    t.chars = chars ∧ t.symbols.WellFormed ∧
      symbols.toList = t.signals.filterMap Signal.symbol? ++ t.symbols.toList := by
  cases h with
  | wait | settle | release | pass => exact ⟨rfl, hsymbols, rfl⟩
  | swallow _ _ hbyte | blank _ _ hbyte | expand _ _ hbyte =>
    rw [hc] at hbyte
    cases hbyte
  | @wake x _ _ hx | @next x _ _ hx =>
    refine ⟨rfl, hsymbols.of_pop? hx, ?_⟩
    rw [Ring.toList_of_pop? hx]
    cases x <;> rfl

/-- When nothing waits, a call takes up nothing and types nothing. -/
theorem Call.of_nothing {s : Sender} {chars : CharRing} {symbols : SymbolRing} {t : Turn}
    (h : Call s chars symbols t) (hq : symbols.pop? = none) (hc : chars.pop? = none) :
    t.chars = chars ∧ t.symbols = symbols ∧ t.bytes = [] := by
  cases h with
  | wait | settle | release | pass => exact ⟨rfl, rfl, rfl⟩
  | swallow _ _ hbyte | blank _ _ hbyte | expand _ _ hbyte =>
    rw [hc] at hbyte
    cases hbyte
  | wake _ hx | next _ hx =>
    rw [hq] at hx
    cases hx

/-- **With a symbol in the queue, a call takes it up or comes nearer to it.** -/
theorem Call.lag_eq {s : Sender} {chars : CharRing} {symbols : SymbolRing} {t : Turn}
    {dit period : Nat} (h : Call s chars symbols t) (hq : symbols.pop? ≠ none)
    (hperiod : s.state ≠ .idle → period = dit) :
    t.signals.filterMap Signal.symbol? ≠ [] ∨
      periodAfter dit period t.rate + t.sender.state.lag dit = s.state.lag dit := by
  cases h with
  | wait _ hnone | swallow _ hnone | blank _ hnone | expand _ hnone => exact absurd hnone hq
  | @wake x | @next x =>
    left
    cases x <;> exact List.cons_ne_nil _ _
  | settle hs =>
    rcases hs with hs | ⟨-, hnone⟩
    · right
      rw [hs]
      rfl
    · exact absurd hnone hq
  | release hs =>
    right
    rw [periodAfter, hperiod (by rw [hs]; decide), hs]
    rfl
  | pass hs =>
    right
    have hne : s.state ≠ .idle := by
      intro hidle
      rw [hidle] at hs
      cases hs
    rw [periodAfter, hperiod hne]
    exact State.lag_successor? hs dit

/-- **A call does not change when the sender is free**, but in the past it is free no more. -/
theorem Call.freeAt_eq {s : Sender} {chars : CharRing} {symbols : SymbolRing} {t : Turn}
    {period : Nat} (h : Call s chars symbols t) (hc : chars.pop? = none) (hdit : 0 < dit)
    (hidle : s.state = .idle → period = 1) (hperiod : s.state ≠ .idle → period = dit)
    (time : Nat) :
    t.sender.state.freeAt dit t.symbols.toList (time + periodAfter dit period t.rate) =
      max (s.state.freeAt dit symbols.toList time) (time + 1) := by
  have htaken {x : Symbol} {rest : SymbolRing} (hx : symbols.pop? = some (x, rest))
      (hlag : s.state.lag dit = 0) :
      (Turn.stateAfter x).freeAt dit rest.toList (time + dit) =
        max (s.state.freeAt dit symbols.toList time) (time + 1) := by
    have hbusy := State.lag_stateAfter x dit
    have hlong := x.le_duration dit
    rw [Ring.toList_of_pop? hx, State.freeAt, State.freeAt, load]
    omega
  cases h with
  | wait hs hq =>
    rw [hs, hidle hs, Ring.pop?_eq_none_iff.mp hq]
    exact (Nat.max_eq_right (Nat.le_succ time)).symm
  | swallow _ _ hbyte | blank _ _ hbyte | expand _ _ hbyte =>
    rw [hc] at hbyte
    cases hbyte
  | wake hs hx => exact htaken hx (by rw [hs]; rfl)
  | next hs hx =>
    rw [hperiod (by rw [hs]; decide)]
    exact htaken hx (by rw [hs]; rfl)
  | settle hs =>
    rcases hs with hs | ⟨hs, hq⟩
    · rw [hs]
      simp only [State.freeAt, State.lag, periodAfter]
      omega
    · rw [hs, Ring.pop?_eq_none_iff.mp hq]
      exact (Nat.max_eq_right (Nat.le_succ time)).symm
  | release hs =>
    rw [hperiod (by rw [hs]; decide), hs]
    simp only [State.freeAt, State.lag, periodAfter]
    omega
  | pass hs =>
    have hne : s.state ≠ .idle := by
      intro hidle
      rw [hidle] at hs
      cases hs
    have hlag := State.lag_successor? hs dit
    rw [hperiod hne]
    simp only [State.freeAt, periodAfter]
    omega

/-- A sender that is called once per millisecond when it is idle stays so. -/
theorem Call.periodAfter_of_idle {s : Sender} {chars : CharRing} {symbols : SymbolRing} {t : Turn}
    {period : Nat} (h : Call s chars symbols t) (hidle : s.state = .idle → period = 1)
    (ht : t.sender.state = .idle) : periodAfter dit period t.rate = 1 := by
  cases h with
  | wait hs | swallow hs => exact hidle hs
  | blank | release => cases ht
  | @expand _ _ _ x | @wake x | @next x => cases x <;> cases ht
  | settle => rfl
  | pass hs => rcases hstate : s.state <;> rw [hstate] at hs <;> cases hs <;> cases ht

/-! ### First come, first served -/

/-- How a symbol is served: when it comes, and when it is taken up. -/
structure Service where
  arrival : Nat
  start : Nat
  symbol : Symbol
  deriving DecidableEq, Repr

/-- The movements of the key when a symbol is served. -/
def Service.stroke (dit : Nat) (x : Service) : List (Nat × Signal) := x.symbol.stroke dit x.start

/-- **First come, first served**: how symbols are served that come one by one, each at its time, by
a sender that is free at `free`. -/
def services (dit : Nat) : Nat → List (Nat × Symbol) → List Service
  | _, [] => []
  | free, (time, s) :: rest =>
    ⟨time, max free time, s⟩ :: services dit (max free time + s.duration dit) rest

/-- A symbol that comes before the sender is free waits until it is. -/
theorem services_keyed {free time : Nat} (h : time ≤ free) (keyed : Option Symbol)
    (rest : List (Nat × Symbol)) :
    services dit free (keyed.toList.map (time, ·) ++ rest) =
      keyed.toList.map (⟨time, free, ·⟩) ++ services dit (free + load dit keyed.toList) rest := by
  rcases keyed with _ | s
  · rfl
  · show Service.mk time (max free time) s :: services dit (max free time + s.duration dit) rest = _
    rw [Nat.max_eq_left h]
    rfl

theorem strokes_keyed (time free : Nat) (keyed : Option Symbol) :
    (keyed.toList.map (Service.mk time free)).flatMap (Service.stroke dit) =
      forecastSymbols dit [] free keyed.toList := by
  rcases keyed with _ | s
  · rfl
  · exact (List.flatMap_singleton _ _).trans (forecastSymbols_singleton free s).symm

/-- It makes no difference if the sender is free before the first symbol comes. -/
theorem services_max {free time : Nat} {arrivals : List (Nat × Symbol)}
    (h : ∀ a ∈ arrivals, time ≤ a.1) :
    services dit (max free time) arrivals = services dit free arrivals := by
  cases arrivals with
  | nil => rfl
  | cons a rest =>
    have hle : time ≤ a.1 := h a List.mem_cons_self
    rw [services, services, Nat.max_assoc, Nat.max_eq_right hle]

/-- A symbol is served when it has come. -/
theorem of_mem_services {free : Nat} {arrivals : List (Nat × Symbol)} {x : Service}
    (h : x ∈ services dit free arrivals) :
    (x.arrival, x.symbol) ∈ arrivals ∧ x.arrival ≤ x.start := by
  induction arrivals generalizing free with
  | nil => cases h
  | cons a rest ih =>
    rcases List.mem_cons.mp h with rfl | h
    · exact ⟨List.mem_cons_self, Nat.le_max_right _ _⟩
    · exact ⟨List.mem_cons_of_mem a (ih h).1, (ih h).2⟩

/-- The symbols that come until some time are served without regard to later ones. -/
theorem services_filter {free : Nat} {arrivals : List (Nat × Symbol)}
    (h : arrivals.Pairwise fun a b => a.1 ≤ b.1) (n : Nat) :
    services dit free (arrivals.filter fun a => a.1 ≤ n) =
      (services dit free arrivals).filter fun x => x.arrival ≤ n := by
  induction arrivals generalizing free with
  | nil => rfl
  | cons a rest ih =>
    obtain ⟨hfirst, hrest⟩ := List.pairwise_cons.mp h
    by_cases ha : a.1 ≤ n
    · rw [List.filter_cons, if_pos (decide_eq_true ha), services, ih hrest, services,
        List.filter_cons, if_pos (decide_eq_true ha)]
    -- all that come after a late one are late too
    · have hlate : ∀ b ∈ a :: rest, ¬decide (b.1 ≤ n) = true := by
        intro b hb
        rw [decide_eq_true_eq]
        rcases List.mem_cons.mp hb with rfl | hb
        · exact ha
        · have := hfirst b hb
          omega
      have hnone : (services dit free (a :: rest)).filter (fun x => x.arrival ≤ n) = [] :=
        List.filter_eq_nil_iff.mpr fun x hx => hlate _ (of_mem_services hx).1
      rw [List.filter_eq_nil_iff.mpr hlate, hnone]
      rfl

/-- **What the key does until some time depends on the symbols that come until then.** -/
theorem filter_strokes_services {free : Nat} {arrivals : List (Nat × Symbol)}
    (h : arrivals.Pairwise fun a b => a.1 ≤ b.1) (n : Nat) :
    ((services dit free (arrivals.filter fun a => a.1 ≤ n)).flatMap (Service.stroke dit)).filter
        (fun m => m.1 ≤ n) =
      ((services dit free arrivals).flatMap (Service.stroke dit)).filter fun m => m.1 ≤ n := by
  have hstart : ∀ x ∈ services dit free arrivals, x.arrival ≤ x.start :=
    fun x hx => (of_mem_services hx).2
  rw [services_filter h]
  generalize services dit free arrivals = list at hstart
  induction list with
  | nil => rfl
  | cons x list ih =>
    have hrest := ih fun y hy => hstart y (List.mem_cons_of_mem x hy)
    by_cases hx : x.arrival ≤ n
    · rw [List.filter_cons, if_pos (decide_eq_true hx), List.flatMap_cons, List.flatMap_cons,
        List.filter_append, List.filter_append, hrest]
    · have hlate : (x.stroke dit).filter (fun m => m.1 ≤ n) = [] := by
        refine List.filter_eq_nil_iff.mpr fun m hm => ?_
        have hstroke := Symbol.le_of_mem_stroke hm
        have hx' := hstart x List.mem_cons_self
        rw [decide_eq_true_eq]
        omega
      rw [List.filter_cons, if_neg (by rwa [decide_eq_true_eq]), List.flatMap_cons,
        List.filter_append, hlate, hrest, List.nil_append]

end Sender

end MorseKeyboard
