import MorseKeyboard.Proofs.Keyboard.Clocks
import MorseKeyboard.Proofs.Sender.Keying
import MorseKeyboard.Proofs.Sender.Service

/-!
# What a change-over leaves behind

Entering or leaving command mode discards the symbols and characters that wait, and the decoder
forgets its letter. Nothing keyed or queued before should be typed after it. There is one exception:
**the space that the keyer still owes** for the last letter is not discarded, and when it is keyed,
the decoder takes it for a blank and delivers that where the text now goes
(`MorseKeyboard.Keyboard.delivers_changeOver`).

A keyboard of which no paddle is touched, no character waits and no message is repeated
(`MorseKeyboard.Keyboard.Hushed`) only plays the symbols that wait and the space that is owed
(`MorseKeyboard.Keyboard.outstanding`). From one millisecond to the next **what it has delivered and
what it will deliver are the same text** (`MorseKeyboard.Keyboard.Hushed.tick`), so the text is
known in the beginning. That the blank does come is a matter of the clocks: every millisecond
shortens the time in which it has to (`MorseKeyboard.Keyboard.Hushed.patience_tick`).
-/

namespace MorseKeyboard

/-! ### An idle keyer -/

namespace Keyer

/-- What an idle keyer has still to key: the space that it owes. -/
def owed (k : Keyer) : List Symbol := if k.spaceOwed then [.space] else []

theorem tick_eq_idleTick {k : Keyer} (hs : k.state = .idle) : k.tick = k.idleTick := by
  rw [tick, hs]

/-- **An idle keyer keys what it owes, and nothing else.** -/
theorem tick_of_idle {k : Keyer} (hs : k.state = .idle) :
    k.tick.2.state = .idle ∧ k.tick.1.toList ++ k.tick.2.owed = k.owed := by
  rw [tick_eq_idleTick hs, idleTick]
  split
  · exact ⟨hs, rfl⟩
  · next howed =>
    have hspace : k.owed = [.space] := if_pos (by simpa using howed)
    split
    · exact ⟨hs, hspace.symm⟩
    · exact ⟨hs, rfl⟩

/-- An idle keyer that owes nothing stays so. -/
theorem owed_tick_of_idle {k : Keyer} (hs : k.state = .idle) (howed : k.spaceOwed = false) :
    k.tick.2.spaceOwed = false ∧ k.tick.2.owed = [] := by
  have hrest : k.idleTick = (none, k) := by
    rw [idleTick, howed]
    rfl
  rw [tick_eq_idleTick hs, hrest, owed, howed]
  exact ⟨rfl, rfl⟩

/-- The milliseconds of the pause after a letter that are still to pass. -/
def pauseLeft (k : Keyer) : Nat := k.speed.period .space - k.elapsed.space

/-- **The pause after a letter gets shorter**, or it is over and the space is keyed. -/
theorem tick_of_spaceOwed {k : Keyer} (hs : k.state = .idle) (howed : k.spaceOwed = true) :
    k.tick.2.spaceOwed = false ∨
      k.tick.2.spaceOwed = true ∧ k.tick.2.pauseLeft + 1 = k.pauseLeft := by
  rw [tick_eq_idleTick hs, idleTick, howed, Bool.not_true, if_neg Bool.false_ne_true]
  split
  · exact Or.inl rfl
  · next hdue =>
    have hlt : k.elapsed.space < k.speed.period .space := by
      rw [isDue, decide_eq_true_eq] at hdue
      exact Nat.lt_of_not_le hdue
    refine Or.inr ⟨howed, ?_⟩
    show k.speed.period .space - (k.elapsed.space + 1) + 1 = k.speed.period .space - k.elapsed.space
    omega

end Keyer

/-- With room for it, what was keyed is appended to what waits. -/
theorem SymbolRing.toList_key {symbols : SymbolRing} (h : symbols.WellFormed)
    {keyed : Option Symbol} (hroom : symbols.toList.length + keyed.toList.length ≤ 16) :
    (symbols.key keyed).toList = symbols.toList ++ keyed.toList := by
  rcases keyed with _ | s
  · exact (List.append_nil _).symm
  · show (symbols.pushAll [s]).toList = symbols.toList ++ [s]
    exact Ring.toList_pushAll_of_length_le h hroom

/-! ### What is delivered -/

/-- Bytes that go to a destination one after another may be given together. -/
theorem Queues.receive_append (q : Queues) (target : Target) (bytes more : List UInt8) :
    q.receive target (bytes ++ more) = (q.receive target bytes).receive target more := by
  cases target <;> simp only [receive, Ring.pushAll, List.foldl_append]

/-- What a destination gets does not depend on the other queues. -/
theorem Queues.receive_congr {q q' : Queues} (hkeystrokes : q'.keystrokes = q.keystrokes)
    (hmenu : q'.menu = q.menu) (target : Target) (bytes : List UInt8) :
    (q'.receive target bytes).keystrokes = (q.receive target bytes).keystrokes ∧
      (q'.receive target bytes).menu = (q.receive target bytes).menu := by
  cases target <;> simp only [receive, hkeystrokes, hmenu, and_self]

namespace Keyboard

variable {τ : Type} [Ticker τ] {kb : Keyboard τ}

/-- What is delivered in so many milliseconds. -/
def deliveries (kb : Keyboard τ) (n : Nat) : List Signal :=
  (List.range n).flatMap fun i => (kb.ticked i).nextSignals.filter fun s => !s.isOutput

theorem deliveries_succ (kb : Keyboard τ) (n : Nat) :
    kb.deliveries (n + 1) =
      kb.deliveries n ++ (kb.ticked n).nextSignals.filter fun s => !s.isOutput := by
  rw [deliveries, List.range_succ, List.flatMap_append, List.flatMap_singleton, deliveries]

theorem deliveries_one (kb : Keyboard τ) :
    kb.deliveries 1 = kb.nextSignals.filter fun s => !s.isOutput := by
  rw [deliveries_succ]
  rfl

/-- **These bytes are delivered in `n` milliseconds**, all of them where the text now goes. The
queues of decoded text get them, and nothing else. -/
structure Delivers (kb : Keyboard τ) (n : Nat) (bytes : List UInt8) : Prop where
  signals : kb.deliveries n = bytes.map (.delivered kb.target)
  target : (kb.ticked n).target = kb.target
  keystrokes : (kb.ticked n).queues.keystrokes = (kb.queues.receive kb.target bytes).keystrokes
  menu : (kb.ticked n).queues.menu = (kb.queues.receive kb.target bytes).menu

theorem delivers_zero (kb : Keyboard τ) : kb.Delivers 0 [] :=
  ⟨rfl, rfl, by rw [receive_nil]; rfl, by rw [receive_nil]; rfl⟩

/-- One more millisecond. -/
theorem Delivers.succ {n : Nat} {bytes more : List UInt8} (h : kb.Delivers n bytes)
    (hnext : (kb.ticked n).Delivers 1 more) : kb.Delivers (n + 1) (bytes ++ more) := by
  have hqueues := Queues.receive_congr h.keystrokes h.menu kb.target more
  refine ⟨?_, hnext.target.trans h.target, ?_, ?_⟩
  · rw [deliveries_succ, ← deliveries_one, h.signals, hnext.signals, h.target, List.map_append]
  · rw [Queues.receive_append, ← hqueues.1, ← h.target]
    exact hnext.keystrokes
  · rw [Queues.receive_append, ← hqueues.2, ← h.target]
    exact hnext.menu

/-- A millisecond without a turn of the output delivers nothing. -/
theorem delivers_of_aside (h : kb.advanceClock.2.Aside kb.tick.2) : kb.Delivers 1 [] := by
  refine ⟨?_, h.target, ?_, ?_⟩
  · rw [deliveries_one, nextSignals_of_aside h]
    rfl
  · rw [receive_nil]
    exact h.keystrokes
  · rw [receive_nil]
    exact h.menu

/-- A millisecond with a turn of the output delivers what the turn has completed. -/
theorem Turns.delivers {t : Sender.Turn} (h : kb.Turns t) : kb.Delivers 1 t.bytes := by
  have hbefore := aside_beforeTurn kb
  have htarget : kb.beforeTurn.target = kb.target := hbefore.target
  let queues := { kb.beforeTurn.queues with chars := t.chars, symbols := t.symbols }
  have hkeystrokes : queues.keystrokes = kb.queues.keystrokes := hbefore.keystrokes
  have hqueues := Queues.receive_congr hkeystrokes hbefore.menu kb.target t.bytes
  refine ⟨?_, ?_, ?_, ?_⟩
  · have hsilent : (t.signals.filter fun s => !s.isOutput) = [] := by
      simpa using h.call.all_isOutput
    rw [deliveries_one, h.nextSignals, List.filter_append, hsilent]
    simp [Signal.isOutput, List.filter_map, Function.comp_def]
  · show kb.tick.2.target = kb.target
    rw [h.aside.target, setRate_eq]
    exact htarget
  · show kb.tick.2.queues.keystrokes = _
    rw [h.aside.keystrokes, setRate_eq, ← hqueues.1, ← htarget]
    rfl
  · show kb.tick.2.queues.menu = _
    rw [h.aside.menu, setRate_eq, ← hqueues.2, ← htarget]
    rfl

/-! ### A keyboard that only plays its symbols -/

/-- The messages that fall due in the next millisecond. -/
def repeatsDue (kb : Keyboard τ) : List Nat :=
  if kb.scheduler.tick.1.contains .minute then (kb.repeater.passMinute kb.settings).1 else []

theorem settings_tick (kb : Keyboard τ) : kb.tick.2.settings = kb.settings := by
  rcases hdue : kb.scheduler.tick.1.contains .output with _ | _
  · exact (aside_tick_of_not_due hdue).settings
  · obtain ⟨t, hturn⟩ := exists_turns hdue
    rw [hturn.aside.settings, setRate_eq]
    exact (aside_beforeTurn kb).settings

omit [Ticker τ] in
theorem settings_paddle (kb : Keyboard τ) (e : Edge) : (kb.paddle e).settings = kb.settings := rfl

omit [Ticker τ] in
theorem settings_changeOver (kb : Keyboard τ) (enabled : Bool) :
    (kb.changeOver enabled).settings = kb.settings := rfl

theorem settings_ticked (kb : Keyboard τ) (n : Nat) : (kb.ticked n).settings = kb.settings := by
  induction n with
  | zero => rfl
  | succ n ih => exact (settings_tick _).trans ih

/-- **No message ever falls due if none is repeated.** -/
theorem repeatsDue_ticked (h : ∀ slot, kb.settings.interval slot = 0) (n : Nat) :
    (kb.ticked n).repeatsDue = [] := by
  rw [repeatsDue, settings_ticked]
  split
  · exact Repeater.passMinute_of_interval h _
  · rfl

/-- If no message falls due, and no edge waits, a millisecond is over with the turn of the
output. -/
theorem exists_tick_eq (hpaddles : kb.queues.paddles.isEmpty = true)
    (hrepeats : kb.repeatsDue = []) :
    ∃ repeater, kb.tick.2 = { kb.throughTurn with repeater } := by
  have hbefore : kb.beforeTurn.repeater = kb.repeater ∧ kb.beforeTurn.settings = kb.settings := by
    rw [beforeTurn_of_isEmpty hpaddles]
    split <;> exact ⟨rfl, rfl⟩
  have hthrough : kb.throughTurn.repeater = kb.repeater ∧
      kb.throughTurn.settings = kb.settings := by
    rw [throughTurn]
    split
    · obtain ⟨t, -, hturn⟩ := kb.beforeTurn.exists_playTurn
      rw [hturn, setRate_eq]
      exact hbefore
    · exact hbefore
  rw [snd_tick]
  refine afterTurn_of_passMinute ?_
  intro hminute
  rw [hthrough.1, hthrough.2]
  rwa [repeatsDue, if_pos hminute] at hrepeats

/-- If no message falls due, and no edge waits, a turn of the output leaves the queues that it
worked on, and the keyer as it found it. -/
theorem Turns.queues_tick {t : Sender.Turn} (h : kb.Turns t)
    (hpaddles : kb.queues.paddles.isEmpty = true) (hrepeats : kb.repeatsDue = []) :
    kb.tick.2.queues.paddles = kb.beforeTurn.queues.paddles ∧
      kb.tick.2.queues.chars = t.chars ∧ kb.tick.2.queues.symbols = t.symbols ∧
        kb.tick.2.keyer = kb.beforeTurn.keyer := by
  obtain ⟨repeater, htick⟩ := exists_tick_eq hpaddles hrepeats
  rw [htick, h.throughTurn, setRate_eq, played]
  cases kb.beforeTurn.target <;> exact ⟨rfl, rfl, rfl, rfl⟩

/-- The symbols still to be taken up if nothing is keyed: those in the queue, and the space that the
keyer owes. -/
def outstanding (kb : Keyboard τ) : List Symbol := kb.queues.symbols.toList ++ kb.keyer.owed

/-- The text that the decoder will make of them. -/
def toCome (kb : Keyboard τ) : List UInt8 := (kb.sender.decoder.hearAll kb.outstanding).1

/-- **A keyboard that only plays its symbols**: no paddle is held, and neither edges nor characters
wait. -/
structure Hushed (kb : Keyboard τ) : Prop where
  paddles : kb.queues.paddles.isEmpty = true
  keyer : kb.keyer.state = .idle
  chars : kb.queues.chars.isEmpty = true
  symbols : kb.queues.symbols.WellFormed
  room : kb.outstanding.length ≤ 16

namespace Hushed

omit [Ticker τ] in
theorem congr {kb' : Keyboard τ} (h : kb.Hushed) (hqueues : kb'.queues = kb.queues)
    (hkeyer : kb'.keyer = kb.keyer) : kb'.Hushed ∧ kb'.outstanding = kb.outstanding := by
  have houtstanding : kb'.outstanding = kb.outstanding := by
    rw [outstanding, hqueues, hkeyer, outstanding]
  exact ⟨⟨hqueues ▸ h.paddles, hkeyer ▸ h.keyer, hqueues ▸ h.chars, hqueues ▸ h.symbols,
    houtstanding ▸ h.room⟩, houtstanding⟩

omit [Ticker τ] in
/-- The keyer moves the space that it owes to the queue. -/
theorem tickKeyer (h : kb.Hushed) :
    kb.tickKeyer.Hushed ∧ kb.tickKeyer.outstanding = kb.outstanding := by
  obtain ⟨hstate, howed⟩ := Keyer.tick_of_idle h.keyer
  have hroom := h.room
  rw [outstanding, ← howed, List.length_append, List.length_append] at hroom
  have hkey : (kb.queues.symbols.key kb.keyer.tick.1).toList =
      kb.queues.symbols.toList ++ kb.keyer.tick.1.toList :=
    SymbolRing.toList_key h.symbols (by omega)
  have houtstanding : kb.tickKeyer.outstanding = kb.outstanding := by
    show (kb.queues.symbols.key kb.keyer.tick.1).toList ++ kb.keyer.tick.2.owed = _
    rw [hkey, List.append_assoc, howed, outstanding]
  exact ⟨⟨h.paddles, hstate, h.chars, SymbolRing.wellFormed_key h.symbols _,
    houtstanding ▸ h.room⟩, houtstanding⟩

omit [Ticker τ] in
theorem beforeTurn (h : kb.Hushed) :
    kb.beforeTurn.Hushed ∧ kb.beforeTurn.outstanding = kb.outstanding := by
  have hclock : kb.advanceClock.2.Hushed ∧ kb.advanceClock.2.outstanding = kb.outstanding :=
    h.congr rfl rfl
  rw [beforeTurn_of_isEmpty h.paddles]
  split
  · exact ⟨hclock.1.tickKeyer.1, hclock.1.tickKeyer.2.trans hclock.2⟩
  · exact hclock

/-- A turn of the keyer is all that happens to the keyer. -/
theorem keyer_tick (h : kb.Hushed) (hrepeats : kb.repeatsDue = [])
    (hdue : kb.scheduler.tick.1.contains .keyer = true) :
    kb.beforeTurn.keyer = kb.keyer.tick.2 ∧ kb.tick.2.keyer = kb.keyer.tick.2 := by
  obtain ⟨repeater, htick⟩ := exists_tick_eq h.paddles hrepeats
  have hbefore : kb.beforeTurn.keyer = kb.keyer.tick.2 := by
    rw [beforeTurn_of_isEmpty h.paddles, if_pos hdue]
    rfl
  refine ⟨hbefore, ?_⟩
  rw [htick, throughTurn]
  split
  · obtain ⟨t, -, hturn⟩ := kb.beforeTurn.exists_playTurn
    rw [hturn, setRate_eq]
    exact hbefore
  · exact hbefore

/-- A millisecond without a turn of the output leaves what is outstanding. -/
theorem tick_of_not_due (h : kb.Hushed) (hrepeats : kb.repeatsDue = [])
    (hdue : kb.scheduler.tick.1.contains .output = false) :
    kb.tick.2.Hushed ∧ kb.tick.2.outstanding = kb.outstanding := by
  obtain ⟨repeater, htick⟩ := exists_tick_eq h.paddles hrepeats
  obtain ⟨hbefore, houtstanding⟩ := h.beforeTurn
  rw [htick, throughTurn, hdue, ← houtstanding]
  exact hbefore.congr rfl rfl

/-- A turn of the output takes up what is outstanding. -/
theorem tick_of_turns (h : kb.Hushed) (hrepeats : kb.repeatsDue = []) {t : Sender.Turn}
    (hturn : kb.Turns t) :
    kb.tick.2.Hushed ∧
      kb.outstanding = t.signals.filterMap Signal.symbol? ++ kb.tick.2.outstanding := by
  obtain ⟨hbefore, houtstanding⟩ := h.beforeTurn
  have hempty : kb.beforeTurn.queues.chars.pop? = none :=
    Ring.pop?_eq_none_iff.mpr (Ring.isEmpty_iff.mp hbefore.chars)
  obtain ⟨hchars, hwellFormed, htaken⟩ := hturn.call.of_no_byte hempty hbefore.symbols
  obtain ⟨hpaddles, hchars', hsymbols, hkeyer⟩ := hturn.queues_tick h.paddles hrepeats
  have hsplit : kb.outstanding =
      t.signals.filterMap Signal.symbol? ++ kb.tick.2.outstanding := by
    rw [← houtstanding, outstanding, htaken, outstanding, hsymbols, hkeyer, List.append_assoc]
  have hroom := h.room
  rw [hsplit, List.length_append] at hroom
  exact ⟨⟨hpaddles ▸ hbefore.paddles, hkeyer ▸ hbefore.keyer,
    (hchars'.trans hchars) ▸ hbefore.chars, hsymbols ▸ hwellFormed, by omega⟩, hsplit⟩

/-- Nothing new becomes outstanding. -/
theorem suffix_tick (h : kb.Hushed) (hrepeats : kb.repeatsDue = []) :
    kb.tick.2.outstanding <:+ kb.outstanding := by
  rcases hdue : kb.scheduler.tick.1.contains .output with _ | _
  · have hsame := (h.tick_of_not_due hrepeats hdue).2
    exact hsame ▸ List.suffix_refl _
  · obtain ⟨t, hturn⟩ := exists_turns hdue
    rw [(h.tick_of_turns hrepeats hturn).2]
    exact List.suffix_append _ _

/-- **A millisecond of a keyboard that only plays its symbols**: what it delivers and what it will
deliver is what it would have delivered. -/
theorem tick (h : kb.Hushed) (hrepeats : kb.repeatsDue = []) :
    ∃ bytes, kb.Delivers 1 bytes ∧ kb.tick.2.Hushed ∧ bytes ++ kb.tick.2.toCome = kb.toCome := by
  rcases hdue : kb.scheduler.tick.1.contains .output with _ | _
  · have haside := aside_tick_of_not_due hdue
    have hsender : kb.tick.2.sender = kb.sender := haside.sender
    obtain ⟨hnext, houtstanding⟩ := h.tick_of_not_due hrepeats hdue
    refine ⟨[], delivers_of_aside haside, hnext, ?_⟩
    rw [toCome, hsender, houtstanding]
    rfl
  · obtain ⟨t, hturn⟩ := exists_turns hdue
    obtain ⟨hnext, houtstanding⟩ := h.tick_of_turns hrepeats hturn
    refine ⟨t.bytes, hturn.delivers, hnext, ?_⟩
    rw [toCome, toCome, houtstanding, Decoder.hearAll_append, hturn.call.effect.hearAll,
      hturn.sender]

/-- **What has been delivered and what is to come is what was to come in the beginning.** -/
theorem ticked (h : kb.Hushed) {n : Nat} (hrepeats : ∀ i < n, (kb.ticked i).repeatsDue = []) :
    ∃ bytes, kb.Delivers n bytes ∧ (kb.ticked n).Hushed ∧
      bytes ++ (kb.ticked n).toCome = kb.toCome := by
  induction n with
  | zero => exact ⟨[], delivers_zero kb, h, rfl⟩
  | succ n ih =>
    obtain ⟨bytes, hbytes, hn, htext⟩ := ih fun i hi => hrepeats i (Nat.lt_succ_of_lt hi)
    obtain ⟨more, hmore, hsucc, hnext⟩ := hn.tick (hrepeats n (Nat.lt_succ_self n))
    refine ⟨bytes ++ more, hbytes.succ hmore, hsucc, ?_⟩
    rw [List.append_assoc]
    exact (congrArg (bytes ++ ·) hnext).trans htext

end Hushed

/-! ### How soon the last symbol is taken up -/

/-- The milliseconds in which the only symbol that is outstanding is taken up: the rest of the pause
after the letter, if the keyer owes it, and then what the sender needs to become ready for it. -/
def patience (kb : Keyboard τ) : Nat :=
  if kb.keyer.spaceOwed then kb.keyer.pauseLeft + (4 * kb.speed.dit + 2)
  else kb.untilTurn + kb.sender.state.lag kb.speed.dit

namespace Hushed

variable {wait period : Nat}

/-- **Every millisecond shortens the time in which the last symbol has to be taken up**, unless it
is taken up. -/
theorem patience_tick (h : kb.Hushed) (hrepeats : kb.repeatsDue = [])
    (hclock : kb.Clocked wait period) (hlast : kb.outstanding.length ≤ 1) :
    kb.tick.2.outstanding = [] ∨ kb.tick.2.patience + 1 ≤ kb.patience := by
  have hdue : kb.scheduler.tick.1.contains .keyer = true :=
    hclock.keyer.tick.1.trans (decide_eq_true rfl)
  obtain ⟨hbefore, hkeyer⟩ := h.keyer_tick hrepeats hdue
  have hspeed := kb.speed_tick
  rcases howed : kb.keyer.spaceOwed with _ | _
  -- the space is in the queue, and the sender comes nearer to it
  · obtain ⟨hpaid, hnone⟩ := Keyer.owed_tick_of_idle h.keyer howed
    rw [← hkeyer] at hpaid
    rw [patience, patience, hpaid, howed, hspeed, if_neg Bool.false_ne_true,
      if_neg Bool.false_ne_true, untilTurn_eq hclock.output]
    rcases eq_or_ne wait 1 with rfl | hwait
    · obtain ⟨t, hturn, hnext⟩ := hclock.tick_of_due
      obtain ⟨-, hsplit⟩ := h.tick_of_turns hrepeats hturn
      rw [untilTurn_eq hnext.output, hturn.sender]
      have hqueue : kb.beforeTurn.queues.symbols.toList = kb.outstanding := by
        rw [← h.beforeTurn.2, outstanding, hbefore, hnone, List.append_nil]
      rw [hsplit, List.length_append] at hlast
      rcases hempty : kb.beforeTurn.queues.symbols.pop? with _ | x
      -- there is nothing to take up any more
      · left
        rw [Ring.pop?_eq_none_iff.mp hempty, hsplit] at hqueue
        exact (List.append_eq_nil_iff.mp hqueue.symm).2
      · have hsome : kb.beforeTurn.queues.symbols.pop? ≠ none := by
          rw [hempty]
          exact Option.some_ne_none x
        rcases hturn.call.lag_eq hsome hclock.period_eq_dit with htaken | hlag
        · left
          have hpos := List.length_pos_of_ne_nil htaken
          exact List.eq_nil_of_length_eq_zero (by omega)
        · right
          omega
    · obtain ⟨haside, hnext⟩ := hclock.tick_of_not_due hwait
      have hsender : kb.tick.2.sender = kb.sender := haside.sender
      have hpos := hclock.output.wait_pos
      right
      rw [untilTurn_eq hnext.output, hsender]
      omega
  -- the space is still owed
  · obtain ⟨wait', period', hnext⟩ := hclock.tick
    have hle := hnext.wait_le_dit
    have hlag := kb.tick.2.sender.state.lag_le kb.speed.dit
    right
    rw [hspeed] at hle
    rw [patience, patience, howed, if_pos rfl, hspeed, hkeyer, untilTurn_eq hnext.output]
    rcases Keyer.tick_of_spaceOwed h.keyer howed with hpaid | ⟨hstill, hpause⟩
    · rw [hpaid, if_neg Bool.false_ne_true]
      omega
    · rw [hstill, if_pos rfl]
      omega

/-- As long as the last symbol has not been taken up, the time for it runs down. -/
theorem patience_ticked (h : kb.Hushed) (hclock : kb.Clocked wait period)
    (hlast : kb.outstanding.length ≤ 1) {n : Nat}
    (hrepeats : ∀ i < n, (kb.ticked i).repeatsDue = []) :
    (kb.ticked n).Hushed ∧ (∃ wait' period', (kb.ticked n).Clocked wait' period') ∧
      (kb.ticked n).outstanding.length ≤ 1 ∧
      ((kb.ticked n).outstanding = [] ∨ (kb.ticked n).patience + n ≤ kb.patience) := by
  induction n with
  | zero => exact ⟨h, ⟨wait, period, hclock⟩, hlast, Or.inr (Nat.le_refl _)⟩
  | succ n ih =>
    obtain ⟨hn, ⟨wait', period', hclockn⟩, hlastn, hleft⟩ :=
      ih fun i hi => hrepeats i (Nat.lt_succ_of_lt hi)
    have hrepeatsn := hrepeats n (Nat.lt_succ_self n)
    obtain ⟨-, -, hsucc, -⟩ := hn.tick hrepeatsn
    have hsuffix := hn.suffix_tick hrepeatsn
    refine ⟨hsucc, hclockn.tick, Nat.le_trans hsuffix.length_le hlastn, ?_⟩
    rcases hleft with hnone | hleft
    · rw [hnone] at hsuffix
      exact Or.inl (List.suffix_nil.mp hsuffix)
    · refine (hn.patience_tick hrepeatsn hclockn hlastn).imp id fun hnext => ?_
      rw [Keyboard.ticked]
      omega

/-- **The last symbol is taken up in time.** -/
theorem outstanding_ticked (h : kb.Hushed) (hclock : kb.Clocked wait period)
    (hlast : kb.outstanding.length ≤ 1) {n : Nat}
    (hrepeats : ∀ i < n, (kb.ticked i).repeatsDue = []) (hn : kb.patience ≤ n) :
    (kb.ticked n).outstanding = [] := by
  obtain ⟨-, ⟨wait', period', hclockn⟩, -, hnone | hleft⟩ := h.patience_ticked hclock hlast hrepeats
  · exact hnone
  · have hpos : 0 < (kb.ticked n).patience := by
      have hwait := hclockn.output.wait_pos
      rw [patience, untilTurn_eq hclockn.output]
      split <;> omega
    omega

end Hushed

/-! ### Changing over -/

omit [Ticker τ] in
/-- After a change-over only the space that the keyer owes is outstanding. -/
theorem hushed_changeOver (hkeyer : kb.keyer.state = .idle)
    (hpaddles : kb.queues.paddles.isEmpty = true) (enabled : Bool) :
    (kb.changeOver enabled).Hushed ∧ (kb.changeOver enabled).outstanding = kb.keyer.owed := by
  have hlength : kb.keyer.owed.length ≤ 16 := by
    rw [Keyer.owed]
    split <;> decide
  exact ⟨⟨hpaddles, hkeyer, rfl, Ring.wellFormed_clear _, hlength⟩, rfl⟩

/-- **An owed space is taken up within six units and two milliseconds** of a change-over. -/
theorem outstanding_changeOver (h : kb.Started) (hkeyer : kb.keyer.state = .idle)
    (hpaddles : kb.queues.paddles.isEmpty = true) (howed : kb.keyer.spaceOwed = true)
    (enabled : Bool) {n : Nat}
    (hrepeats : ∀ i < n, ((kb.changeOver enabled).ticked i).repeatsDue = [])
    (hn : 6 * kb.speed.dit + 2 ≤ n) : ((kb.changeOver enabled).ticked n).outstanding = [] := by
  obtain ⟨hhushed, houtstanding⟩ := hushed_changeOver hkeyer hpaddles enabled
  have hchanged : (kb.changeOver enabled).Started := h.operate (.request (.changeOver enabled))
  obtain ⟨wait, period, hclock⟩ := hchanged.clocked
  have hlast : (kb.changeOver enabled).outstanding.length ≤ 1 := by
    rw [houtstanding, Keyer.owed, if_pos howed]
    exact Nat.le_refl 1
  refine hhushed.outstanding_ticked hclock hlast hrepeats ?_
  have hpatience : (kb.changeOver enabled).patience =
      kb.keyer.pauseLeft + (4 * kb.speed.dit + 2) := if_pos howed
  have hpause : kb.keyer.pauseLeft ≤ 2 * kb.speed.dit := Nat.sub_le _ _
  omega

/-- **A change-over leaves at most a blank.** No paddle is held when the keyboard changes over, and
no edge waits. As long as nothing but time passes and no message falls due, nothing is delivered
after that, unless the keyer owes the space after a letter: then that is delivered as a blank, where
the text now goes, and if the keyboard was started it is so within six units and two milliseconds.
-/
theorem delivers_changeOver (kb : Keyboard τ) (hkeyer : kb.keyer.state = .idle)
    (hpaddles : kb.queues.paddles.isEmpty = true) (enabled : Bool) (n : Nat)
    (hrepeats : ∀ i < n, ((kb.changeOver enabled).ticked i).repeatsDue = []) :
    ∃ bytes, (kb.changeOver enabled).Delivers n bytes ∧
      (bytes = [] ∨ kb.keyer.spaceOwed = true ∧ bytes = [0x20]) ∧
      (kb.Started → kb.keyer.spaceOwed = true → 6 * kb.speed.dit + 2 ≤ n → bytes = [0x20]) := by
  obtain ⟨hhushed, houtstanding⟩ := hushed_changeOver hkeyer hpaddles enabled
  obtain ⟨bytes, hbytes, -, htext⟩ := hhushed.ticked hrepeats
  have hcome : (kb.changeOver enabled).toCome = (Decoder.fresh.hearAll kb.keyer.owed).1 := by
    rw [toCome, houtstanding]
    rfl
  refine ⟨bytes, hbytes, ?_, ?_⟩
  · rw [hcome, Keyer.owed] at htext
    rcases howed : kb.keyer.spaceOwed with _ | _
    · rw [howed] at htext
      exact Or.inl (List.append_eq_nil_iff.mp htext).1
    · rw [howed] at htext
      refine (List.append_eq_singleton_iff.mp htext).imp And.left fun hblank => ⟨rfl, hblank.1⟩
  · intro hstarted howed hn
    rw [toCome, outstanding_changeOver hstarted hkeyer hpaddles howed enabled hrepeats hn, hcome,
      Keyer.owed, if_pos howed] at htext
    exact (List.append_nil bytes).symm.trans htext

/-- A new keyboard that has been started. -/
def begun : Keyboard PolledTicker := (fresh PolledTicker.free).start.2

theorem started_begun : begun.Started :=
  .start (.ofParts PolledTicker.free Queues.wellFormed_fresh .fresh .standard .empty) rfl

theorem quiet_begun : begun.Quiet := (quiet_fresh PolledTicker.free).start rfl

/-- The left paddle has keyed a dit and is up again, so the letter lacks its space. -/
def tapped : Keyboard PolledTicker := (begun.paddle (.press .left)).tick.2.paddle (.release .left)

theorem started_tapped : tapped.Started :=
  ((started_begun.operate (.request (.edge (.press .left)))).operate .tick).operate
    (.request (.edge (.release .left)))

theorem interval_tapped (slot : Nat) : tapped.settings.interval slot = 0 := by
  rw [tapped, settings_paddle, settings_tick, settings_paddle]
  exact quiet_begun.intervals slot

theorem idle_tapped : tapped.keyer.state = .idle ∧ tapped.queues.paddles.isEmpty = true := by
  decide +kernel

theorem repeatsDue_tapped (i : Nat) : ((tapped.changeOver true).ticked i).repeatsDue = [] := by
  refine repeatsDue_ticked ?_ i
  rw [settings_changeOver]
  exact interval_tapped

/-- A text that waits is not heard of again. The letter that was tapped is discarded, and its space
comes as a blank within six units and two milliseconds, a unit being 60 ms long. -/
theorem delivers_changeOver_begun :
    (∀ n, ((begun.send "cq").changeOver true).Delivers n []) ∧
      (tapped.changeOver true).Delivers 362 [0x20] := by
  constructor
  · intro n
    have hrepeats (i : Nat) : (((begun.send "cq").changeOver true).ticked i).repeatsDue = [] := by
      refine repeatsDue_ticked ?_ i
      rw [settings_changeOver]
      exact quiet_begun.intervals
    obtain ⟨bytes, hbytes, hnone | ⟨howed, -⟩, -⟩ := delivers_changeOver (begun.send "cq")
      quiet_begun.keyer quiet_begun.paddles true n fun i _ => hrepeats i
    · rwa [hnone] at hbytes
    · rw [show (begun.send "cq").keyer.spaceOwed = false from quiet_begun.spaceOwed] at howed
      cases howed
  · have howed : tapped.keyer.spaceOwed = true := by decide +kernel
    have hlong : 6 * tapped.speed.dit + 2 ≤ 362 := by decide +kernel
    obtain ⟨bytes, hbytes, -, hblank⟩ := delivers_changeOver tapped idle_tapped.1 idle_tapped.2
      true 362 fun i _ => repeatsDue_tapped i
    rwa [hblank started_tapped howed hlong] at hbytes

/-- **Something is typed after a change-over.** The dit that was tapped is discarded, but its space
reaches the menu as a blank. -/
theorem blank_after_changeOver_tapped :
    tapped.Started ∧ tapped.keyer.state = .idle ∧ tapped.queues.paddles.isEmpty = true ∧
      (∀ i, ((tapped.changeOver true).ticked i).repeatsDue = []) ∧
      ¬∀ n, (tapped.changeOver true).deliveries n = [] := by
  refine ⟨started_tapped, idle_tapped.1, idle_tapped.2, repeatsDue_tapped, ?_⟩
  intro hnothing
  have hblank : ((tapped.changeOver true).ticked 178).nextSignals =
      [.symbol .space, .delivered .menu 0x20] := by decide +kernel
  have hafter := hnothing 179
  rw [deliveries_succ, hblank, List.append_eq_nil_iff] at hafter
  exact absurd hafter.2 (by decide)

end Keyboard

end MorseKeyboard
