import MorseKeyboard.Proofs.Keyboard.Operation
import MorseKeyboard.Proofs.Sender.Waveform

/-!
# The key line

A keyboard that is left to itself plays a text to the millisecond:
`MorseKeyboard.Keyboard.movements_send` says when the key goes down and when it goes up, for every
text that fits into the queue, at every speed, and for as long as it takes, however often the clock
wraps meanwhile.

Left to itself (`MorseKeyboard.Keyboard.Undisturbed`) means that no paddle is touched and no message
repeated, so nothing but the turns of the output happens
(`MorseKeyboard.Keyboard.Undisturbed.tick_of_due`,
`MorseKeyboard.Keyboard.Undisturbed.tick_of_not_due`). From one millisecond to the next, **what was
forecast for the key is done or still forecast** (`MorseKeyboard.Keyboard.Performing.tick`), so at
any time the movements made and those forecast are what was forecast in the beginning
(`MorseKeyboard.Keyboard.Performing.ticked`).
-/

namespace MorseKeyboard

/-! ### Movements of the key -/

namespace Sender

theorem movementsAt_append (time : Nat) (signals more : List Signal) :
    movementsAt time (signals ++ more) = movementsAt time signals ++ movementsAt time more := by
  rw [movementsAt, List.filter_append, List.map_append, movementsAt, movementsAt]

/-- What is delivered does not move the key. -/
theorem movementsAt_delivered (time : Nat) (target : Target) (bytes : List UInt8) :
    movementsAt time (bytes.map (.delivered target)) = [] := by
  induction bytes with
  | nil => rfl
  | cons byte bytes ih => exact ih

end Sender

/-- No message falls due when none is repeated. -/
theorem Repeater.passMinute_of_interval {s : Settings} (h : ∀ slot, s.interval slot = 0)
    (r : Repeater) : (r.passMinute s).1 = [] := by
  refine List.filter_eq_nil_iff.mpr fun slot _ => ?_
  rw [isDue, h slot, countDown, if_pos rfl]
  exact Bool.false_ne_true

namespace Keyboard

variable {τ : Type}

/-! ### A keyboard left to itself -/

/-- Without edges that wait there are none to apply. -/
theorem applyEdges_of_isEmpty {kb : Keyboard τ} (h : kb.queues.paddles.isEmpty = true) :
    kb.applyEdges = kb := by
  have hcount : kb.queues.paddles.count = 0 := eq_of_beq h
  rw [applyEdges, Ring.drain, hcount]
  rfl

/-- With no edge waiting only the keyer has a turn before that of the output. -/
theorem beforeTurn_of_isEmpty {kb : Keyboard τ} (h : kb.queues.paddles.isEmpty = true) :
    kb.beforeTurn = if kb.scheduler.tick.1.contains .keyer then kb.advanceClock.2.tickKeyer
      else kb.advanceClock.2 := by
  rw [beforeTurn, applyEdges_of_isEmpty h]

/-- An idle keyer that owes nothing has nothing to do. -/
theorem tickKeyer_of_rest {kb : Keyboard τ} (hkeyer : kb.keyer.state = .idle)
    (howed : kb.keyer.spaceOwed = false) : kb.tickKeyer = kb := by
  have hidle : kb.keyer.tick = (none, kb.keyer) := by
    rw [Keyer.tick, hkeyer, Keyer.idleTick, howed]
    rfl
  rw [tickKeyer, Keyer.tickOnto, hidle]
  rfl

/-- With the paddles at rest only the clock moves before the turn of the output. -/
theorem beforeTurn_of_rest {kb : Keyboard τ} (hpaddles : kb.queues.paddles.isEmpty = true)
    (hkeyer : kb.keyer.state = .idle) (howed : kb.keyer.spaceOwed = false) :
    kb.beforeTurn = kb.advanceClock.2 := by
  have hrest : kb.advanceClock.2.tickKeyer = kb.advanceClock.2 := tickKeyer_of_rest hkeyer howed
  rw [beforeTurn_of_isEmpty hpaddles, hrest, ite_self]

/-- If no message falls due, what comes after the turn of the output changes nothing but the
countdowns. -/
theorem afterTurn_of_passMinute {kb : Keyboard τ} {due : SlotSet}
    (h : due.contains .minute = true → (kb.repeater.passMinute kb.settings).1 = []) :
    ∃ repeater, kb.afterTurn due = { kb with repeater } := by
  rw [afterTurn]
  split
  · next hminute =>
    have hnone := h hminute
    rcases hpass : kb.repeater.passMinute kb.settings with ⟨slots, repeater⟩
    obtain rfl : slots = [] := by rwa [hpass] at hnone
    refine ⟨repeater, ?_⟩
    rw [repeatMessages, hpass]
    dsimp only
    split <;> rfl
  · exact ⟨kb.repeater, rfl⟩

/-- A keyboard that nothing disturbs: the paddles are at rest, and no message is repeated. -/
structure Undisturbed (kb : Keyboard τ) : Prop where
  paddles : kb.queues.paddles.isEmpty = true
  keyer : kb.keyer.state = .idle
  spaceOwed : kb.keyer.spaceOwed = false
  intervals : ∀ slot, kb.settings.interval slot = 0

/-- **A quiet keyboard**: it is undisturbed, nothing waits in its queues, and neither the output nor
the decoder is in the middle of anything. -/
structure Quiet (kb : Keyboard τ) : Prop extends kb.Undisturbed where
  symbols : kb.queues.symbols.isEmpty = true
  chars : kb.queues.chars.isEmpty = true
  keystrokes : kb.queues.keystrokes.isEmpty = true
  menu : kb.queues.menu.isEmpty = true
  sender : kb.sender.state = .idle
  decoder : kb.sender.decoder.isIdle = true

namespace Undisturbed

variable {kb : Keyboard τ}

/-- What comes after the turn of the output changes nothing but the countdowns. -/
theorem afterTurn (h : kb.Undisturbed) (due : SlotSet) :
    ∃ repeater, kb.afterTurn due = { kb with repeater } :=
  afterTurn_of_passMinute fun _ => Repeater.passMinute_of_interval h.intervals kb.repeater

theorem congr {kb' : Keyboard τ} (h : kb.Undisturbed)
    (hpaddles : kb'.queues.paddles = kb.queues.paddles) (hkeyer : kb'.keyer = kb.keyer)
    (hsettings : kb'.settings = kb.settings) : kb'.Undisturbed :=
  ⟨hpaddles ▸ h.paddles, hkeyer ▸ h.keyer, hkeyer ▸ h.spaceOwed, hsettings ▸ h.intervals⟩

theorem advanceClock (h : kb.Undisturbed) : kb.advanceClock.2.Undisturbed :=
  h.congr rfl rfl rfl

theorem played (h : kb.Undisturbed) (t : Sender.Turn) : (kb.played t).Undisturbed := by
  refine h.congr ?_ rfl rfl
  rw [Keyboard.played]
  cases kb.target <;> rfl

/-- Before the turn of the output only the clock moves. -/
theorem beforeTurn (h : kb.Undisturbed) : kb.beforeTurn = kb.advanceClock.2 :=
  beforeTurn_of_rest h.paddles h.keyer h.spaceOwed

variable [Ticker τ] {wait period : Nat}

/-- **A millisecond without a turn of the output** changes nothing but clocks. -/
theorem tick_of_not_due (h : kb.Undisturbed) (hwaits : kb.scheduler.Waits .output wait period)
    (hwait : wait ≠ 1) :
    ∃ scheduler repeater log, kb.tick.2 = { kb with scheduler, repeater, log } ∧
      scheduler.Waits .output (wait - 1) period := by
  obtain ⟨hdue, hclock⟩ := hwaits.tick
  rw [decide_eq_false hwait] at hdue
  rw [Scheduler.waitAfter, if_neg hwait] at hclock
  obtain ⟨repeater, hafter⟩ := h.advanceClock.afterTurn kb.scheduler.tick.1
  refine ⟨kb.scheduler.tick.2, repeater, kb.advanceClock.2.log, ?_, hclock⟩
  rw [snd_tick, throughTurn, hdue, h.beforeTurn]
  exact hafter

/-- **A millisecond with a turn of the output** is that turn. -/
theorem tick_of_due (h : kb.Undisturbed) (hwaits : kb.scheduler.Waits .output 1 period) :
    ∃ t, Sender.Call kb.sender kb.queues.chars kb.queues.symbols t ∧
      ∃ scheduler repeater log, kb.tick.2 = { kb.played t with scheduler, repeater, log } ∧
        scheduler.Waits .output (Sender.periodAfter kb.speed.dit period t.rate)
          (Sender.periodAfter kb.speed.dit period t.rate) := by
  obtain ⟨hdue, hclock⟩ := hwaits.tick
  rw [decide_eq_true rfl] at hdue
  rw [Scheduler.waitAfter, if_pos rfl] at hclock
  obtain ⟨t, hcall, hturn⟩ := kb.advanceClock.2.exists_playTurn
  have hplayed : (kb.advanceClock.2.played t).scheduler.Waits .output period period := hclock
  have hrate := waits_setRate hplayed t.rate
  have hundisturbed : kb.advanceClock.2.playTurn.Undisturbed := by
    rw [hturn, setRate_eq]
    exact (h.advanceClock.played t).congr rfl rfl rfl
  obtain ⟨repeater, hafter⟩ := hundisturbed.afterTurn kb.scheduler.tick.1
  refine ⟨t, hcall, _, repeater, kb.advanceClock.2.log, ?_, hrate⟩
  rw [snd_tick, throughTurn, hdue, if_pos rfl, h.beforeTurn, hafter, hturn, setRate_eq]
  rfl

end Undisturbed

/-! ### Playing -/

/-- The movements to come if the next turn of the output is at `time`. -/
def forecast (kb : Keyboard τ) (dit time : Nat) : List (Nat × Signal) :=
  kb.sender.state.forecast dit kb.queues.chars.toList kb.queues.symbols.toList time

/-- **A keyboard that plays and is left to itself**: the next turn of the output is in `wait`
milliseconds, and the sender is in step. -/
structure Performing (kb : Keyboard τ) (dit wait period : Nat) : Prop where
  undisturbed : kb.Undisturbed
  dit_eq : kb.speed.dit = dit
  waits : kb.scheduler.Waits .output wait period
  inStep : Sender.InStep dit period kb.sender.state kb.queues.chars kb.queues.symbols

variable [Ticker τ]

/-- A keyboard after so many milliseconds. -/
def ticked (kb : Keyboard τ) : Nat → Keyboard τ
  | 0 => kb
  | n + 1 => (kb.ticked n).tick.2

/-- A started keyboard is one after any number of milliseconds. -/
theorem Started.ticked {kb : Keyboard τ} (h : kb.Started) (n : Nat) : (kb.ticked n).Started := by
  induction n with
  | zero => exact h
  | succ n ih => exact ih.operate .tick

/-- What is done in the next millisecond. -/
def nextSignals (kb : Keyboard τ) : List Signal := kb.tick.2.outbox.toList.drop kb.outbox.size

/-- **The key line**: the movements of the key in so many milliseconds, each with the number of the
millisecond in which it happens. -/
def movements (kb : Keyboard τ) (n : Nat) : List (Nat × Signal) :=
  (List.range n).flatMap fun i => Sender.movementsAt (i + 1) (kb.ticked i).nextSignals

theorem movements_succ (kb : Keyboard τ) (n : Nat) :
    kb.movements (n + 1) =
      kb.movements n ++ Sender.movementsAt (n + 1) (kb.ticked n).nextSignals := by
  rw [movements, List.range_succ, List.flatMap_append, List.flatMap_singleton, movements]

/-- The movements made in so many milliseconds happened in them. -/
theorem le_of_mem_movements {kb : Keyboard τ} {n : Nat} {m : Nat × Signal}
    (h : m ∈ kb.movements n) : m.1 ≤ n := by
  obtain ⟨i, hi, hm⟩ := List.mem_flatMap.mp h
  obtain ⟨signal, -, rfl⟩ := List.mem_map.mp hm
  exact List.mem_range.mp hi

namespace Performing

variable {kb : Keyboard τ} {dit wait period : Nat}

/-- **A millisecond of a performance**: what was forecast is done or still forecast. -/
theorem tick (h : kb.Performing dit wait period) :
    ∃ wait' period', kb.tick.2.Performing dit wait' period' ∧ ∀ n,
      kb.forecast dit (n + wait) =
        Sender.movementsAt (n + 1) kb.nextSignals ++ kb.tick.2.forecast dit (n + 1 + wait') := by
  rcases eq_or_ne wait 1 with rfl | hwait
  -- the turn makes the movements, and asks for the period after which the next one comes
  · obtain ⟨t, hcall, scheduler, repeater, log, htick, hwaits⟩ := h.undisturbed.tick_of_due h.waits
    rw [h.dit_eq] at hwaits
    have hqueues : kb.tick.2.queues.chars = t.chars ∧ kb.tick.2.queues.symbols = t.symbols := by
      rw [htick, played]
      cases kb.target <;> exact ⟨rfl, rfl⟩
    have hsender : kb.tick.2.sender = t.sender := by rw [htick]; rfl
    have hsignals : kb.nextSignals = t.signals ++ t.bytes.map (.delivered kb.target) := by
      rw [nextSignals, htick]
      simp [played]
    let next := Sender.periodAfter dit period t.rate
    have hperforming : kb.tick.2.Performing dit next next :=
      { undisturbed := by
          rw [htick]
          exact (h.undisturbed.played t).congr rfl rfl rfl
        dit_eq := by
          rw [htick]
          exact h.dit_eq
        waits := by
          rw [htick]
          exact hwaits
        inStep := by
          rw [hsender, hqueues.1, hqueues.2]
          exact hcall.inStep h.inStep }
    refine ⟨next, next, hperforming, ?_⟩
    intro n
    rw [forecast, hcall.forecast_eq h.inStep, hsignals, Sender.movementsAt_append,
      Sender.movementsAt_delivered, List.append_nil, forecast, hsender, hqueues.1, hqueues.2]
  -- nothing moves, and the time of the next turn is the same
  · obtain ⟨scheduler, repeater, log, htick, hwaits⟩ :=
      h.undisturbed.tick_of_not_due h.waits hwait
    have hpos := h.waits.wait_pos
    have hsignals : kb.nextSignals = [] := by
      rw [nextSignals, htick]
      simp
    have hperforming : kb.tick.2.Performing dit (wait - 1) period :=
      { undisturbed := by
          rw [htick]
          exact h.undisturbed.congr rfl rfl rfl
        dit_eq := by
          rw [htick]
          exact h.dit_eq
        waits := by
          rw [htick]
          exact hwaits
        inStep := by
          rw [htick]
          exact h.inStep }
    refine ⟨wait - 1, period, hperforming, ?_⟩
    intro n
    have htime : n + 1 + (wait - 1) = n + wait := by omega
    rw [hsignals, htick, htime]
    rfl

/-- **A performance**: at any time the movements made and those forecast are what was forecast in
the beginning. -/
theorem ticked (h : kb.Performing dit wait period) (n : Nat) :
    ∃ wait' period', (kb.ticked n).Performing dit wait' period' ∧
      kb.forecast dit wait = kb.movements n ++ (kb.ticked n).forecast dit (n + wait') := by
  induction n with
  | zero =>
    refine ⟨wait, period, h, ?_⟩
    rw [Nat.zero_add]
    rfl
  | succ n ih =>
    obtain ⟨wait', period', hn, hforecast⟩ := ih
    obtain ⟨wait'', period'', hsucc, hnext⟩ := hn.tick
    refine ⟨wait'', period'', hsucc, ?_⟩
    rw [hforecast, hnext n, movements_succ, List.append_assoc]
    rfl

/-- **The movements made in so many milliseconds are those forecast for them.** -/
theorem movements_eq (h : kb.Performing dit wait period) (n : Nat) :
    kb.movements n = (kb.forecast dit wait).filter fun m => m.1 ≤ n := by
  obtain ⟨wait', period', hn, hforecast⟩ := h.ticked n
  have hpos := hn.waits.wait_pos
  have hmade : ∀ m ∈ kb.movements n, decide (m.1 ≤ n) = true :=
    fun m hm => decide_eq_true (le_of_mem_movements hm)
  -- the next turn is still to come, and nothing is forecast for a time before it
  have hlater : ∀ m ∈ (kb.ticked n).forecast dit (n + wait'), ¬decide (m.1 ≤ n) = true := by
    intro m hm
    have hle := Sender.State.le_of_mem_forecast hm
    rw [decide_eq_true_eq]
    omega
  rw [hforecast, List.filter_append, List.filter_eq_self.mpr hmade,
    List.filter_eq_nil_iff.mpr hlater, List.append_nil]

end Performing

/-! ### A text -/

/-- A keyboard as it leaves the factory is quiet. -/
theorem quiet_fresh (ticker : τ) : (fresh ticker).Quiet where
  paddles := rfl
  keyer := rfl
  spaceOwed := rfl
  intervals slot := by
    show (Vector.replicate Settings.messageSlots 0)[slot]?.getD 0 = 0
    rw [Vector.getElem?_replicate]
    split <;> rfl
  symbols := rfl
  chars := rfl
  keystrokes := rfl
  menu := rfl
  sender := rfl
  decoder := rfl

/-- Starting leaves a keyboard quiet. -/
theorem Quiet.start {kb kb' : Keyboard τ} (h : kb.Quiet) (hstart : kb.start = (.ok (), kb')) :
    kb'.Quiet := by
  rw [Keyboard.start] at hstart
  split at hstart
  · cases hstart
  · obtain rfl := (Prod.mk.inj hstart).2
    exact ⟨h.toUndisturbed.congr rfl rfl rfl, h.symbols, h.chars, h.keystrokes, h.menu, h.sender,
      h.decoder⟩

/-- A quiet keyboard that is given a text begins to play it. -/
theorem Quiet.performing_send {kb : Keyboard τ} (h : kb.Started) (hq : kb.Quiet) {text : String}
    (hlen : (Text.bytes text).length ≤ 128)
    (hcoded : ∀ byte ∈ Text.bytes text, (Code.elements? byte).isSome = true) :
    ∃ wait period, (kb.send text).Performing kb.speed.dit wait period ∧
      (kb.send text).forecast kb.speed.dit wait =
        Sender.strokes kb.speed.dit wait (Sender.score kb.speed.dit 0 (Text.bytes text)) := by
  obtain ⟨hbuilt, wait, period, hwaits⟩ := h.ready
  have hqueues := hbuilt.wellFormed
  have hchars : (kb.send text).queues.chars.toList = Text.bytes text := by
    have hempty := Ring.isEmpty_iff.mp hq.chars
    show (kb.queues.chars.pushAll (Text.bytes text)).toList = Text.bytes text
    rw [Ring.toList_pushAll_of_length_le hqueues.chars, hempty, List.nil_append]
    rw [hempty]
    simpa using hlen
  -- the sender is idle, so it need not be called once per unit
  have hinStep : Sender.InStep kb.speed.dit period kb.sender.state (kb.send text).queues.chars
      kb.queues.symbols :=
    ⟨hqueues.symbols, by rw [hchars]; exact hcoded, fun hc => absurd hq.sender hc⟩
  refine ⟨wait, period, ⟨hq.toUndisturbed.congr rfl rfl rfl, rfl, hwaits, hinStep⟩, ?_⟩
  have hstate : (kb.send text).sender.state = .idle := hq.sender
  have hsymbols : (kb.send text).queues.symbols.toList = [] := Ring.isEmpty_iff.mp hq.symbols
  rw [forecast, hstate, hsymbols, hchars]
  rfl

/-- **The key line of a text.** A started keyboard that is quiet is given a text that fits into the
queue and has a code for every byte. From then on, as long as nothing but time passes, the key moves
as the score of the text says: a dit closes it for a unit and a dah for three, the elements of a
letter are a unit apart, two letters three units and a millisecond, and each blank between them adds
six units and two milliseconds. -/
theorem movements_send {kb : Keyboard τ} (h : kb.Started) (hq : kb.Quiet) (text : String)
    (hlen : (Text.bytes text).length ≤ 128)
    (hcoded : ∀ byte ∈ Text.bytes text, (Code.elements? byte).isSome = true) :
    ∃ first, 0 < first ∧ ∀ n, (kb.send text).movements n =
      (Sender.strokes kb.speed.dit first (Sender.score kb.speed.dit 0 (Text.bytes text))).filter
        fun m => m.1 ≤ n := by
  obtain ⟨wait, period, hperforming, hforecast⟩ := hq.performing_send h hlen hcoded
  refine ⟨wait, hperforming.waits.wait_pos, ?_⟩
  intro n
  rw [hperforming.movements_eq n, hforecast]

/-- A new keyboard plays at twenty words per minute: a dit is 60 ms long. It is given two letters
with a blank between them. -/
theorem movements_send_ta :
    ∃ first, 0 < first ∧ ∀ n, ((fresh PolledTicker.free).start.2.send "t a").movements n =
      (Sender.strokes 60 first [(0, .dah), (181 + 362, .dit), (60, .dah)]).filter
        fun m => m.1 ≤ n := by
  have hstart : (fresh PolledTicker.free).start = (.ok (), (fresh PolledTicker.free).start.2) := rfl
  have hbuilt : (fresh PolledTicker.free).Built :=
    .ofParts PolledTicker.free Queues.wellFormed_fresh .fresh .standard .empty
  have hbytes : Text.bytes "t a" = [0x74, 0x20, 0x61] := by decide
  have hcoded : (Text.bytes "t a").all (fun byte => (Code.elements? byte).isSome) = true := by
    rw [hbytes]
    rfl
  obtain ⟨first, hfirst, hmovements⟩ :=
    movements_send (.start hbuilt hstart) ((quiet_fresh _).start hstart) "t a" (by decide)
      (List.all_eq_true.mp hcoded)
  refine ⟨first, hfirst, fun n => (hmovements n).trans ?_⟩
  rw [hbytes]
  rfl

end Keyboard

end MorseKeyboard
