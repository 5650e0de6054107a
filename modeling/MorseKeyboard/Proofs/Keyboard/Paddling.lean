import MorseKeyboard.Proofs.Keyboard.ChangeOver
import MorseKeyboard.Proofs.Keyer.Rhythm

/-!
# The key line of the paddles

Between the paddles and the key there are two machines with a clock each: the keyer, which queues a
symbol now and then, and the sender, which plays the queue. In a keyboard that is given nothing but
edges and milliseconds (`MorseKeyboard.Keyboard.Attended`) the sender serves the symbols of the
keyer as they come. So **the key line of the paddles is told by the times at which the keyer keys**
(`MorseKeyboard.Keyboard.Attended.keyLine_eq`), as long as the queue has room for the symbols that
wait.
-/

namespace MorseKeyboard

/-! ### The keyer of a keyboard -/

/-- No input changes the element of the left paddle. -/
@[simp] theorem Keyer.left_step (k : Keyer) (i : Keyer.Input) : (k.step i).2.left = k.left := by
  have h := k.response_step i
  generalize k.step i = r at h ⊢
  cases h <;> rfl

namespace Keyboard

variable {τ : Type}

theorem keyer_paddle (kb : Keyboard τ) (e : Edge) :
    (kb.paddle e).keyer = (kb.keyer.step (.edge e)).2 :=
  (kb.keyer.edgeOnto_eq e kb.scheduler.now kb.queues.symbols kb.log).1

theorem symbols_paddle (kb : Keyboard τ) (e : Edge) :
    (kb.paddle e).queues.symbols = kb.queues.symbols.key (kb.keyer.step (.edge e)).1 :=
  (kb.keyer.edgeOnto_eq e kb.scheduler.now kb.queues.symbols kb.log).2

section

variable {P : Keyer → Prop}

theorem keyer_beforeTurn_induction (hstep : ∀ k i, P k → P (k.step i).2) {kb : Keyboard τ}
    (h : P kb.keyer) : P kb.beforeTurn.keyer := by
  have hedges : ∀ (edges : List Edge) (kb : Keyboard τ), P kb.keyer →
      P (edges.foldl paddle kb).keyer := by
    intro edges
    induction edges with
    | nil => exact fun _ => id
    | cons e edges ih =>
      intro kb h
      exact ih _ (keyer_paddle kb e ▸ hstep _ _ h)
  have hclock : P kb.applyEdges.advanceClock.2.keyer := hedges _ _ h
  rw [beforeTurn]
  split
  · exact hstep _ .tick hclock
  · exact hclock

theorem keyer_repeatMessages (kb : Keyboard τ) : kb.repeatMessages.keyer = kb.keyer := by
  have hslots : ∀ (slots : List Nat) (kb : Keyboard τ),
      (slots.foldl repeatSlot kb).keyer = kb.keyer := by
    intro slots
    induction slots with
    | nil => exact fun _ => rfl
    | cons slot slots ih => exact fun kb => ih _
  rw [repeatMessages]
  dsimp only
  split
  · exact hslots _ _
  · split <;> rfl

variable [Ticker τ]

theorem keyer_tick_induction (hstep : ∀ k i, P k → P (k.step i).2) {kb : Keyboard τ}
    (h : P kb.keyer) : P kb.tick.2.keyer := by
  have hbefore := keyer_beforeTurn_induction hstep h
  have hthrough : P kb.throughTurn.keyer := by
    rw [throughTurn]
    split
    · obtain ⟨t, -, hturn⟩ := kb.beforeTurn.exists_playTurn
      rw [hturn, setRate_eq]
      exact hbefore
    · exact hbefore
  rw [snd_tick, afterTurn]
  split
  · rwa [keyer_repeatMessages]
  · exact hthrough

theorem keyer_reload (kb : Keyboard τ) :
    let p := kb.settings.current.corrected
    kb.reload.keyer = ((kb.keyer.withSpeed (.ofWpm p.wpm)).withMode p.mode).withLeft p.left := by
  rw [reload, retime]
  split <;> rfl

/-- **What every input and every new setting leaves true of a keyer is true of the keyer of every
keyboard**, if it is true of a fresh one. -/
theorem Built.keyer_induction (hfresh : P .fresh) (hstep : ∀ k i, P k → P (k.step i).2)
    (hset : ∀ (k : Keyer) (speed : Speed) (mode : Mode) (left : Symbol), P k →
      P (((k.withSpeed speed).withMode mode).withLeft left))
    {kb : Keyboard τ} (h : kb.Built) : P kb.keyer := by
  have hreload {kb : Keyboard τ} (h : P kb.keyer) : P kb.reload.keyer := by
    rw [keyer_reload]
    exact hset _ _ _ _ h
  induction h with
  | ofParts => exact hreload hfresh
  | @operate kb _ op ih =>
    cases op with
    | request r =>
      have hr := handled_handle kb r
      show P (kb.handle r).2.keyer
      generalize (kb.handle r).2 = kb' at hr ⊢
      cases hr with
      | reload settings => exact hreload ih
      | edge e => exact keyer_paddle kb e ▸ hstep _ _ ih
      | start =>
        rw [Keyboard.start]
        split <;> exact ih
      | refuse | send | store | changeOver => exact ih
    | tick => exact keyer_tick_induction hstep ih
    | makeUp n =>
      exact makeUp_induction (P := fun kb => P kb.keyer) (fun _ => keyer_tick_induction hstep)
        (fun _ _ _ => id) ih n
    | register | unregister =>
      rw [Keyboard.operate]
      split <;> exact ih
    | queueEdge | changeSettings | readKeystroke | readMenu | takeSignals => exact ih

/-- **The paddles of a keyboard have the two elements**, one each. -/
theorem Built.isElement_symbolOf {kb : Keyboard τ} (h : kb.Built) (p : Paddle) :
    (kb.keyer.symbolOf p).isElement = true := by
  have hleft : kb.keyer.left.isElement = true := by
    refine h.keyer_induction (P := fun k => k.left.isElement = true) rfl ?_ ?_
    · intro k i hk
      rw [Keyer.left_step]
      exact hk
    · intro k speed mode left hk
      rw [Keyer.withLeft]
      split
      · next hleft => exact hleft
      · exact hk
  exact Keyer.isElement_symbolOf_of_left hleft p

end

/-! ### A keyboard that is given edges and milliseconds -/

/-- **A keyboard that only its paddles disturb**: no byte waits, no message is repeated, and edges
are applied as they come. The keyer has its turn every millisecond. The next turn of the output is
in `wait` milliseconds; it comes every millisecond while the sender is idle, and else once per
unit. -/
structure Attended (kb : Keyboard τ) (dit wait period : Nat) : Prop where
  paddles : kb.queues.paddles.isEmpty = true
  chars : kb.queues.chars.isEmpty = true
  symbols : kb.queues.symbols.WellFormed
  intervals : ∀ slot, kb.settings.interval slot = 0
  dit_eq : kb.speed.dit = dit
  keyer : kb.scheduler.Waits .keyer 1 1
  output : kb.scheduler.Waits .output wait period
  idle : kb.sender.state = .idle → wait = 1 ∧ period = 1
  busy : kb.sender.state ≠ .idle → period = dit

/-- The time at which the output is free for one more symbol, if its next turn is at `time`. -/
def freeAt (kb : Keyboard τ) (dit time : Nat) : Nat :=
  kb.sender.state.freeAt dit kb.queues.symbols.toList time

namespace Attended

variable {kb kb' : Keyboard τ} {dit wait period : Nat}

theorem dit_pos (h : kb.Attended dit wait period) : 0 < dit := by
  have hunit := kb.speed.twelve_le_dit
  rw [h.dit_eq] at hunit
  omega

theorem forecast_eq (h : kb.Attended dit wait period) (time : Nat) :
    kb.forecast dit time = kb.sender.state.forecast dit [] kb.queues.symbols.toList time := by
  rw [forecast, Ring.isEmpty_iff.mp h.chars]

theorem no_byte (h : kb.Attended dit wait period) : kb.queues.chars.pop? = none :=
  Ring.pop?_eq_none_iff.mpr (Ring.isEmpty_iff.mp h.chars)

/-- The sender is in step with whatever is keyed. -/
theorem inStep (h : kb.Attended dit wait period) (keyed : Option Symbol) :
    Sender.InStep dit period kb.sender.state kb.queues.chars (kb.queues.symbols.key keyed) := by
  refine ⟨SymbolRing.wellFormed_key h.symbols keyed, ?_, h.busy⟩
  intro byte hbyte
  rw [Ring.isEmpty_iff.mp h.chars] at hbyte
  cases hbyte

/-- The output is not free before its next turn, and each symbol that waits takes two units at
least. -/
theorem le_freeAt (h : kb.Attended dit wait period) (time : Nat) :
    time + 1 + 2 * dit * kb.queues.symbols.toList.length ≤ kb.freeAt dit (time + wait) := by
  have hwait := h.output.wait_pos
  have hload : 2 * dit * kb.queues.symbols.toList.length ≤
      Sender.load dit kb.queues.symbols.toList := Sender.length_le_load _
  rw [freeAt, Sender.State.freeAt]
  omega

/-- If a symbol has to wait for thirty units at most, there is room for it. -/
theorem room (h : kb.Attended dit wait period) {time : Nat}
    (hfree : kb.freeAt dit (time + wait) ≤ time + 1 + 30 * dit) :
    kb.queues.symbols.toList.length + 1 ≤ 16 := by
  have hle := h.le_freeAt time
  have hlength : 2 * dit * kb.queues.symbols.toList.length ≤ 2 * dit * 15 := by omega
  have hpos := h.dit_pos
  exact Nat.succ_le_succ (Nat.le_of_mul_le_mul_left hlength (by omega))

theorem paddle (h : kb.Attended dit wait period) (e : Edge) :
    (kb.paddle e).Attended dit wait period where
  paddles := h.paddles
  chars := h.chars
  symbols := symbols_paddle kb e ▸ SymbolRing.wellFormed_key h.symbols _
  intervals := h.intervals
  dit_eq := (aside_paddle kb e).speed.symm ▸ h.dit_eq
  keyer := h.keyer
  output := h.output
  idle := h.idle
  busy := h.busy

/-- What an edge keys is forecast for the time at which the output is free. -/
theorem forecast_paddle (h : kb.Attended dit wait period) (e : Edge)
    (hroom : kb.queues.symbols.toList.length + (kb.keyer.step (.edge e)).1.toList.length ≤ 16)
    (time : Nat) :
    let keyed := (kb.keyer.step (.edge e)).1.toList
    (kb.paddle e).forecast dit time =
        kb.forecast dit time ++ Sender.forecastSymbols dit [] (kb.freeAt dit time) keyed ∧
      (kb.paddle e).freeAt dit time = kb.freeAt dit time + Sender.load dit keyed := by
  have hsymbols : (kb.paddle e).queues.symbols.toList =
      kb.queues.symbols.toList ++ (kb.keyer.step (.edge e)).1.toList := by
    rw [symbols_paddle, SymbolRing.toList_key h.symbols hroom]
  have hsender : (kb.paddle e).sender = kb.sender := rfl
  refine ⟨?_, ?_⟩
  · rw [(h.paddle e).forecast_eq, hsymbols, hsender, Sender.State.forecast_append, h.forecast_eq]
    rfl
  · rw [freeAt, hsymbols, hsender, Sender.State.freeAt_append]
    rfl

variable [Ticker τ]

theorem repeatsDue_eq (h : kb.Attended dit wait period) : kb.repeatsDue = [] :=
  repeatsDue_ticked h.intervals 0

omit [Ticker τ] in
/-- Before the turn of the output the keyer has its own. -/
theorem beforeTurn_eq (h : kb.Attended dit wait period) :
    kb.beforeTurn = kb.advanceClock.2.tickKeyer := by
  have hdue : kb.scheduler.tick.1.contains .keyer = true :=
    h.keyer.tick.1.trans (decide_eq_true rfl)
  rw [beforeTurn_of_isEmpty h.paddles, if_pos hdue]

/-- A millisecond without a turn of the output. -/
theorem tick_of_not_due (h : kb.Attended dit wait period) (hwait : wait ≠ 1) :
    kb.tick.2.Attended dit (wait - 1) period ∧ kb.tick.2.keyer = (kb.keyer.step .tick).2 ∧
      kb.tick.2.sender = kb.sender ∧
      kb.tick.2.queues.symbols = kb.queues.symbols.key (kb.keyer.step .tick).1 ∧
      kb.nextSignals = [] := by
  obtain ⟨haside, hwaits⟩ := waits_tick_of_not_due h.output hwait
  obtain ⟨repeater, htick⟩ := exists_tick_eq h.paddles h.repeatsDue_eq
  have hdue : kb.scheduler.tick.1.contains .output = false :=
    h.output.tick.1.trans (decide_eq_false hwait)
  have hsame : kb.tick.2 = { kb.advanceClock.2.tickKeyer with repeater } := by
    rw [htick, throughTurn, hdue, h.beforeTurn_eq]
    rfl
  have hsymbols : kb.tick.2.queues.symbols = kb.queues.symbols.key (kb.keyer.step .tick).1 := by
    rw [hsame]
    rfl
  refine ⟨?_, by rw [hsame]; rfl, haside.sender, hsymbols, nextSignals_of_aside haside⟩
  exact
    { paddles := by rw [hsame]; exact h.paddles
      chars := by rw [hsame]; exact h.chars
      symbols := hsymbols ▸ SymbolRing.wellFormed_key h.symbols _
      intervals := kb.settings_tick.symm ▸ h.intervals
      dit_eq := kb.speed_tick.symm ▸ h.dit_eq
      keyer := waits_keyer_tick h.keyer
      output := hwaits
      idle := fun hidle => absurd (h.idle (haside.sender ▸ hidle)).1 hwait
      busy := fun hbusy => h.busy (haside.sender ▸ hbusy) }

/-- A millisecond with a turn of the output. -/
theorem tick_of_due (h : kb.Attended dit 1 period) :
    ∃ t, Sender.Call kb.sender kb.queues.chars
        (kb.queues.symbols.key (kb.keyer.step .tick).1) t ∧
      kb.tick.2.Attended dit (Sender.periodAfter dit period t.rate)
        (Sender.periodAfter dit period t.rate) ∧
      kb.tick.2.keyer = (kb.keyer.step .tick).2 ∧ kb.tick.2.sender = t.sender ∧
      kb.tick.2.queues.symbols = t.symbols ∧
      kb.nextSignals = t.signals ++ t.bytes.map (.delivered kb.target) := by
  obtain ⟨t, hturn, hwaits⟩ := waits_tick_of_due h.output
  obtain ⟨hpaddles, hchars, hsymbols, hkeyer⟩ := hturn.queues_tick h.paddles h.repeatsDue_eq
  rw [h.dit_eq] at hwaits
  have hcall := hturn.call
  rw [h.beforeTurn_eq] at hpaddles hkeyer hcall
  have hcall : Sender.Call kb.sender kb.queues.chars
      (kb.queues.symbols.key (kb.keyer.step .tick).1) t := hcall
  obtain ⟨hsame, hwellFormed, -⟩ :=
    hcall.of_no_byte h.no_byte (SymbolRing.wellFormed_key h.symbols _)
  refine ⟨t, hcall, ?_, hkeyer, hturn.sender, hsymbols, hturn.nextSignals⟩
  exact
    { paddles := hpaddles ▸ h.paddles
      chars := by rw [hchars, hsame]; exact h.chars
      symbols := hsymbols ▸ hwellFormed
      intervals := kb.settings_tick.symm ▸ h.intervals
      dit_eq := kb.speed_tick.symm ▸ h.dit_eq
      keyer := waits_keyer_tick h.keyer
      output := hwaits
      idle := by
        intro hidle
        have hone : Sender.periodAfter dit period t.rate = 1 :=
          hcall.periodAfter_of_idle (fun hs => (h.idle hs).2) (hturn.sender ▸ hidle)
        exact ⟨hone, hone⟩
      busy := fun hbusy => (hcall.inStep (h.inStep _)).period_eq (hturn.sender ▸ hbusy) }

/-- **A millisecond**: what is forecast, together with the symbol that the keyer keys, is done or
still forecast, and the output is free at the same time as before, or from now on. -/
theorem tick (h : kb.Attended dit wait period)
    (hroom : kb.queues.symbols.toList.length + (kb.keyer.step .tick).1.toList.length ≤ 16) :
    let keyed := (kb.keyer.step .tick).1.toList
    ∃ wait' period', kb.tick.2.Attended dit wait' period' ∧
      kb.tick.2.keyer = (kb.keyer.step .tick).2 ∧
      ∀ time,
        kb.forecast dit (time + wait) ++
            Sender.forecastSymbols dit [] (kb.freeAt dit (time + wait)) keyed =
          Sender.movementsAt (time + 1) kb.nextSignals ++
            kb.tick.2.forecast dit (time + 1 + wait') ∧
        kb.tick.2.freeAt dit (time + 1 + wait') =
          max (kb.freeAt dit (time + wait) + Sender.load dit keyed) (time + 2) := by
  intro keyed
  have hlist : (kb.queues.symbols.key (kb.keyer.step .tick).1).toList =
      kb.queues.symbols.toList ++ keyed := SymbolRing.toList_key h.symbols hroom
  rcases eq_or_ne wait 1 with rfl | hwait
  · obtain ⟨t, hcall, hnext, hkeyer, hsender, hsymbols, hsignals⟩ := h.tick_of_due
    refine ⟨_, _, hnext, hkeyer, ?_⟩
    intro time
    have hforecast := hcall.forecast_eq (h.inStep _) (time + 1)
    have hfree := hcall.freeAt_eq h.no_byte h.dit_pos (fun hs => (h.idle hs).2) h.busy (time + 1)
    have hsame := (hcall.of_no_byte h.no_byte (SymbolRing.wellFormed_key h.symbols _)).1
    rw [hlist, hsame, Ring.isEmpty_iff.mp h.chars, Sender.State.forecast_append] at hforecast
    rw [hlist, Sender.State.freeAt_append] at hfree
    rw [h.forecast_eq, hnext.forecast_eq, hsignals, Sender.movementsAt_append,
      Sender.movementsAt_delivered, List.append_nil, freeAt, freeAt, hsender, hsymbols]
    exact ⟨hforecast, hfree⟩
  · obtain ⟨hnext, hkeyer, hsender, hsymbols, hsignals⟩ := h.tick_of_not_due hwait
    refine ⟨_, _, hnext, hkeyer, ?_⟩
    intro time
    have hpos := h.output.wait_pos
    have htime : time + 1 + (wait - 1) = time + wait := by omega
    rw [h.forecast_eq, hnext.forecast_eq, hsignals, freeAt, freeAt, hsender, hsymbols, hlist, htime,
      Sender.State.forecast_append, Sender.State.freeAt_append]
    refine ⟨rfl, (Nat.max_eq_left ?_).symm⟩
    -- the next turn is two milliseconds away at least
    rw [Sender.State.freeAt]
    omega

/-- How later symbols are served can be told before a millisecond or after it. -/
theorem services_tick {wait' : Nat} {time : Nat}
    (hkeyer : kb.tick.2.keyer = (kb.keyer.step .tick).2)
    (hfree : kb.tick.2.freeAt dit (time + 1 + wait') =
      max (kb.freeAt dit (time + wait) + Sender.load dit (kb.keyer.step .tick).1.toList) (time + 2))
    (inputs : List Keyer.Input) :
    Sender.services dit (kb.tick.2.freeAt dit (time + 1 + wait'))
        (kb.tick.2.keyer.timed (time + 1) inputs) =
      Sender.services dit
        (kb.freeAt dit (time + wait) + Sender.load dit (kb.keyer.step .tick).1.toList)
        ((kb.keyer.step .tick).2.timed (time + Keyer.Input.tick.millis) inputs) := by
  rw [hfree, hkeyer]
  -- what is keyed from then on comes after this millisecond
  exact Sender.services_max fun a ha => Keyer.lt_of_mem_timed ha

end Attended

/-! ### The key line -/

variable [Ticker τ]

/-- **The key line** of a keyboard that is given edges and milliseconds, after `time` milliseconds:
the movements of the key, each with the number of its millisecond. -/
def keyLine (kb : Keyboard τ) : Nat → List Keyer.Input → List (Nat × Signal)
  | _, [] => []
  | time, .edge e :: inputs => (kb.paddle e).keyLine time inputs
  | time, .tick :: inputs =>
    Sender.movementsAt (time + 1) kb.nextSignals ++ kb.tick.2.keyLine (time + 1) inputs

/-- **The key line of the paddles.** The sender serves the symbols of the keyer as they come, if
none of them has to wait for more than thirty units. -/
theorem Attended.keyLine_eq {kb : Keyboard τ} {dit wait period : Nat}
    (h : kb.Attended dit wait period) (time : Nat) {inputs : List Keyer.Input}
    (hroom : ∀ x ∈ Sender.services dit (kb.freeAt dit (time + wait)) (kb.keyer.timed time inputs),
      x.start ≤ x.arrival + 30 * dit) :
    kb.keyLine time inputs =
      (kb.forecast dit (time + wait) ++
        (Sender.services dit (kb.freeAt dit (time + wait)) (kb.keyer.timed time inputs)).flatMap
          (Sender.Service.stroke dit)).filter fun m => m.1 ≤ time + Keyer.millis inputs := by
  induction inputs generalizing kb wait period time with
  | nil =>
    have hpos := h.output.wait_pos
    symm
    refine List.filter_eq_nil_iff.mpr fun m hm => ?_
    have hforecast := (List.mem_append.mp hm).resolve_right (by rintro ⟨⟩)
    have hle := Sender.State.le_of_mem_forecast hforecast
    have hnone : Keyer.millis [] = 0 := rfl
    rw [decide_eq_true_eq]
    omega
  | cons i inputs ih =>
    have hfree : time + 1 ≤ kb.freeAt dit (time + wait) :=
      Nat.le_trans (Nat.le_add_right _ _) (h.le_freeAt time)
    rw [Keyer.timed, Sender.services_keyed hfree] at hroom ⊢
    have hlength : kb.queues.symbols.toList.length + (kb.keyer.step i).1.toList.length ≤ 16 := by
      rcases hkeyed : (kb.keyer.step i).1 with _ | s
      · rw [Ring.length_toList]
        exact h.symbols.count_le
      · rw [hkeyed] at hroom
        exact h.room (hroom _ (List.mem_append_left _ (List.mem_singleton_self _)))
    have hrest := fun x hx => hroom x (List.mem_append_right _ hx)
    rw [List.flatMap_append, Sender.strokes_keyed, ← List.append_assoc]
    cases i with
    | edge e =>
      obtain ⟨hforecast, hnext⟩ := h.forecast_paddle e hlength (time + wait)
      have hmillis : Keyer.millis (.edge e :: inputs) = Keyer.millis inputs := Nat.zero_add _
      rw [← hnext, ← keyer_paddle] at hrest
      rw [← hforecast, ← hnext, ← keyer_paddle, hmillis]
      exact ih (h.paddle e) time hrest
    | tick =>
      obtain ⟨wait', period', hnext, hkeyer, hmoves⟩ := h.tick hlength
      obtain ⟨hforecast, hfree'⟩ := hmoves time
      have hmillis : time + Keyer.millis (.tick :: inputs) = time + 1 + Keyer.millis inputs :=
        (Nat.add_assoc time 1 _).symm
      have hlater := services_tick hkeyer hfree' inputs
      rw [← hlater] at hrest
      have hmade : ∀ m ∈ Sender.movementsAt (time + 1) kb.nextSignals,
          decide (m.1 ≤ time + 1 + Keyer.millis inputs) = true := by
        intro m hm
        obtain ⟨signal, -, rfl⟩ := List.mem_map.mp hm
        exact decide_eq_true (Nat.le_add_right _ _)
      rw [hforecast, ← hlater, hmillis, List.append_assoc, List.filter_append,
        List.filter_eq_self.mpr hmade]
      exact congrArg _ (ih hnext (time + 1) hrest)

theorem ticked_succ (kb : Keyboard τ) (n : Nat) : kb.ticked (n + 1) = kb.tick.2.ticked n := by
  induction n with
  | zero => rfl
  | succ n ih => exact congrArg (fun kb : Keyboard τ => kb.tick.2) ih

/-- With no edge the key line is that of the milliseconds. -/
theorem keyLine_replicate (kb : Keyboard τ) (time n : Nat) :
    kb.keyLine time (List.replicate n .tick) =
      (List.range n).flatMap fun i =>
        Sender.movementsAt (time + i + 1) (kb.ticked i).nextSignals := by
  induction n generalizing kb time with
  | zero => rfl
  | succ n ih =>
    have htime (i : Nat) : time + 1 + i + 1 = time + (i + 1) + 1 := by omega
    rw [List.replicate_succ, keyLine, ih, List.range_succ_eq_map, List.flatMap_cons,
      List.flatMap_map]
    simp only [htime, ← ticked_succ]
    rfl

theorem keyLine_zero_replicate (kb : Keyboard τ) (n : Nat) :
    kb.keyLine 0 (List.replicate n .tick) = kb.movements n := by
  rw [keyLine_replicate, movements]
  simp only [Nat.zero_add]

/-- **A quiet keyboard that polls every millisecond** is ready for its paddles. -/
theorem Quiet.attended {kb : Keyboard τ} (hq : kb.Quiet) (h : kb.Started)
    (hpoll : kb.scheduler.Waits .output 1 1) :
    kb.Attended kb.speed.dit 1 1 ∧ (∀ time, kb.freeAt kb.speed.dit time = time) ∧
      ∀ time, kb.forecast kb.speed.dit time = [] := by
  obtain ⟨wait, period, hclock⟩ := h.clocked
  have hattended : kb.Attended kb.speed.dit 1 1 :=
    { paddles := hq.paddles
      chars := hq.chars
      symbols := h.ready.1.wellFormed.symbols
      intervals := hq.intervals
      dit_eq := rfl
      keyer := hclock.keyer
      output := hpoll
      idle := fun _ => ⟨rfl, rfl⟩
      busy := fun hbusy => absurd hq.sender hbusy }
  refine ⟨hattended, ?_, ?_⟩
  · intro time
    rw [freeAt, hq.sender, Ring.isEmpty_iff.mp hq.symbols]
    rfl
  · intro time
    rw [hattended.forecast_eq, hq.sender, Ring.isEmpty_iff.mp hq.symbols]
    rfl

/-! ### Symbols that do not wait -/

namespace Attended

variable {kb : Keyboard τ} {dit wait period : Nat}

omit [Ticker τ] in
/-- What the empty queue holds when the tasks get their turn is what the paddles have just keyed. -/
theorem toList_key_of_empty (h : kb.Attended dit wait period)
    (hempty : kb.queues.symbols.toList = []) (keyed : Option Symbol) :
    (kb.queues.symbols.key keyed).toList = keyed.toList := by
  have hroom : kb.queues.symbols.toList.length + keyed.toList.length ≤ 16 := by
    rw [hempty]
    cases keyed <;> simp
  rw [SymbolRing.toList_key h.symbols hroom, hempty, List.nil_append]

/-- A millisecond that keys nothing leaves an empty queue empty. -/
theorem symbols_tick_of_none (h : kb.Attended dit wait period)
    (hempty : kb.queues.symbols.toList = []) (hnone : (kb.keyer.step .tick).1 = none) :
    kb.tick.2.queues.symbols.toList = [] := by
  have hlist := h.toList_key_of_empty hempty none
  rcases eq_or_ne wait 1 with rfl | hwait
  · obtain ⟨t, hcall, -, -, -, hsymbols, -⟩ := h.tick_of_due
    rw [hnone] at hcall
    have htaken := (hcall.of_no_byte h.no_byte (SymbolRing.wellFormed_key h.symbols none)).2.2
    rw [hlist] at htaken
    rw [hsymbols]
    exact (List.append_eq_nil_iff.mp htaken.symm).2
  · obtain ⟨-, -, -, hsymbols, -⟩ := h.tick_of_not_due hwait
    rw [hsymbols, hnone]
    exact hlist

/-- A symbol keyed in the millisecond of a call of the output, which has caught up with its
deadlines, is taken up in that call. -/
theorem symbols_tick_of_some (h : kb.Attended dit 1 period)
    (hempty : kb.queues.symbols.toList = []) {s : Symbol}
    (hkeyed : (kb.keyer.step .tick).1 = some s) (hlag : kb.sender.state.lag dit = 0) :
    kb.tick.2.queues.symbols.toList = [] := by
  have hlist := h.toList_key_of_empty hempty (some s)
  obtain ⟨t, hcall, hnext, -, -, hsymbols, -⟩ := h.tick_of_due
  rw [hkeyed] at hcall
  have hsome : (kb.queues.symbols.key (some s)).pop? ≠ none := by
    intro hnone
    rw [Ring.pop?_eq_none_iff.mp hnone] at hlist
    cases hlist
  rcases hcall.lag_eq hsome h.busy with hnonempty | hcloser
  · have htaken := (hcall.of_no_byte h.no_byte (SymbolRing.wellFormed_key h.symbols (some s))).2.2
    obtain ⟨x, taken, htakes⟩ := List.exists_cons_of_ne_nil hnonempty
    rw [hlist, htakes, List.cons_append] at htaken
    rw [hsymbols]
    exact (List.append_eq_nil_iff.mp (List.cons.inj htaken).2.symm).2
  -- the output is as near to the symbol as it can be
  · have := hnext.output.wait_pos
    omega

/-- **If the output is free when a symbol is keyed, it takes it up at once**, and the queue is empty
again. -/
theorem symbols_tick (h : kb.Attended dit wait period) (hempty : kb.queues.symbols.toList = [])
    {time : Nat}
    (hfree : (kb.keyer.step .tick).1 ≠ none → kb.freeAt dit (time + wait) ≤ time + 1) :
    kb.beforeTurn.queues.symbols.toList = (kb.keyer.step .tick).1.toList ∧
      kb.tick.2.queues.symbols.toList = [] := by
  have hbefore : kb.beforeTurn.queues.symbols = kb.queues.symbols.key (kb.keyer.step .tick).1 := by
    rw [h.beforeTurn_eq]
    rfl
  refine ⟨by rw [hbefore, h.toList_key_of_empty hempty], ?_⟩
  cases hkeyed : (kb.keyer.step .tick).1 with
  | none => exact h.symbols_tick_of_none hempty hkeyed
  | some s =>
    have hfree := hfree (by rw [hkeyed]; exact Option.some_ne_none s)
    have hpos := h.output.wait_pos
    rw [freeAt, Sender.State.freeAt] at hfree
    obtain rfl : wait = 1 := by omega
    exact h.symbols_tick_of_some hempty hkeyed (by omega)

/-- If no symbol has to wait, the output is free for what is keyed in the next millisecond, and no
symbol has to wait after that. -/
theorem prompt_tick (h : kb.Attended dit wait period) (hempty : kb.queues.symbols.toList = [])
    {time : Nat} {inputs : List Keyer.Input}
    (hprompt : ∀ x ∈ Sender.services dit (kb.freeAt dit (time + wait))
      (kb.keyer.timed time (.tick :: inputs)), x.start ≤ x.arrival) :
    ((kb.keyer.step .tick).1 ≠ none → kb.freeAt dit (time + wait) ≤ time + 1) ∧
      ∃ wait' period', kb.tick.2.Attended dit wait' period' ∧
        kb.tick.2.keyer = (kb.keyer.step .tick).2 ∧
        ∀ x ∈ Sender.services dit (kb.tick.2.freeAt dit (time + 1 + wait'))
          (kb.tick.2.keyer.timed (time + 1) inputs), x.start ≤ x.arrival := by
  have hfree : time + 1 ≤ kb.freeAt dit (time + wait) :=
    Nat.le_trans (Nat.le_add_right _ _) (h.le_freeAt time)
  have hroom : kb.queues.symbols.toList.length + (kb.keyer.step .tick).1.toList.length ≤ 16 := by
    rw [hempty]
    cases (kb.keyer.step .tick).1 <;> simp
  obtain ⟨wait', period', hnext, hkeyer, hmoves⟩ := h.tick hroom
  rw [Keyer.timed, Sender.services_keyed hfree] at hprompt
  refine ⟨?_, wait', period', hnext, hkeyer, ?_⟩
  · intro hsome
    obtain ⟨s, hs⟩ := Option.ne_none_iff_exists'.mp hsome
    rw [hs] at hprompt
    exact hprompt _ (List.mem_append_left _ (List.mem_singleton_self _))
  · rw [services_tick hkeyer (hmoves time).2]
    exact fun x hx => hprompt x (List.mem_append_right _ hx)

/-- **If no symbol has to wait, none is in the queue** but the one that was keyed in the millisecond
that passes. -/
theorem symbols_ticked (h : kb.Attended dit wait period) (hempty : kb.queues.symbols.toList = [])
    (time n : Nat)
    (hprompt : ∀ x ∈ Sender.services dit (kb.freeAt dit (time + wait))
      (kb.keyer.timed time (List.replicate (n + 1) .tick)), x.start ≤ x.arrival) :
    (kb.ticked n).queues.symbols.toList = [] ∧
      ∃ keyed : Option Symbol, (kb.ticked n).beforeTurn.queues.symbols.toList = keyed.toList ∧
        ∀ s ∈ keyed, ∃ t, (t, s) ∈ kb.keyer.timed time (List.replicate (n + 1) .tick) := by
  induction n generalizing kb wait period time with
  | zero =>
    obtain ⟨hfree, -⟩ := h.prompt_tick hempty hprompt
    refine ⟨hempty, _, (h.symbols_tick hempty hfree).1, ?_⟩
    intro s hs
    exact ⟨time + 1, List.mem_append_left _ (List.mem_map.mpr ⟨s, Option.mem_toList.mpr hs, rfl⟩)⟩
  | succ n ih =>
    obtain ⟨hfree, wait', period', hnext, hkeyer, hprompt'⟩ := h.prompt_tick hempty hprompt
    obtain ⟨hsymbols, keyed, hbefore, hkeyed⟩ :=
      ih hnext (h.symbols_tick hempty hfree).2 (time + 1) hprompt'
    rw [ticked_succ]
    refine ⟨hsymbols, keyed, hbefore, ?_⟩
    intro s hs
    obtain ⟨t, ht⟩ := hkeyed s hs
    exact ⟨t, List.mem_append_right _ (hkeyer ▸ ht)⟩

end Attended

end Keyboard

end MorseKeyboard
