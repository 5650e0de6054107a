import MorseKeyboard.Proofs.Keyboard.Waveform
import MorseKeyboard.Proofs.Keyer.Run

/-!
# The clocks of a keyboard

A millisecond has a part that belongs to the output, its turn, and everything else goes on beside
it: edges, the keyer, the repeated messages. What goes on beside the output leaves alone the sender,
the clock, the outbox, the destination of the text and the speed
(`MorseKeyboard.Keyboard.Aside`), so of a millisecond only two things can be seen there:

* if the output is not due, **the clock goes on, and nothing is done**
  (`MorseKeyboard.Keyboard.aside_tick_of_not_due`);
* if it is due, **what is done is a call of the sender**
  (`MorseKeyboard.Keyboard.Turns`).

Which of the two it is, the clock of the output tells. `MorseKeyboard.Keyboard.Clocked` says how it
is set in a keyboard that was started: the keyer has its turn every millisecond, and **the output
has its turn once per unit of the present speed**, unless it is idle and polls every millisecond
(`MorseKeyboard.Keyboard.Started.clocked`).
-/

namespace MorseKeyboard

/-- The period of the output after a call fits the state of the sender. -/
theorem Sender.Call.periodAfter_eq {s : Sender} {chars : CharRing} {symbols : SymbolRing} {t : Turn}
    {dit period : Nat} (h : Call s chars symbols t)
    (hperiod : period = dit ∨ s.state = .idle ∧ period = 1) :
    periodAfter dit period t.rate = dit ∨
      t.sender.state = .idle ∧ periodAfter dit period t.rate = 1 := by
  cases h with
  -- the sender stays idle, and its rate is what it was
  | wait | swallow => exact hperiod
  | blank | expand | wake => exact Or.inl rfl
  | settle => exact Or.inr ⟨rfl, rfl⟩
  -- it was not idle, so it was called once per unit already
  | next hs | release hs =>
    rcases hperiod with hperiod | ⟨hidle, -⟩
    · exact Or.inl hperiod
    · rw [hs] at hidle
      cases hidle
  | pass hs =>
    rcases hperiod with hperiod | ⟨hidle, -⟩
    · exact Or.inl hperiod
    · rw [hidle] at hs
      cases hs

namespace Keyboard

variable {τ : Type}

/-! ### Beside the output -/

/-- **What goes on beside the output.** It leaves alone the sender, the clock, the outbox, the
queues of decoded text, the settings and the speed. -/
structure Aside (kb kb' : Keyboard τ) : Prop where
  sender : kb'.sender = kb.sender
  scheduler : kb'.scheduler = kb.scheduler
  outbox : kb'.outbox = kb.outbox
  target : kb'.target = kb.target
  keystrokes : kb'.queues.keystrokes = kb.queues.keystrokes
  menu : kb'.queues.menu = kb.queues.menu
  settings : kb'.settings = kb.settings
  speed : kb'.speed = kb.speed

namespace Aside

variable {kb kb' kb'' : Keyboard τ}

theorem refl (kb : Keyboard τ) : kb.Aside kb := ⟨rfl, rfl, rfl, rfl, rfl, rfl, rfl, rfl⟩

theorem trans (h : kb.Aside kb') (h' : kb'.Aside kb'') : kb.Aside kb'' where
  sender := h'.sender.trans h.sender
  scheduler := h'.scheduler.trans h.scheduler
  outbox := h'.outbox.trans h.outbox
  target := h'.target.trans h.target
  keystrokes := h'.keystrokes.trans h.keystrokes
  menu := h'.menu.trans h.menu
  settings := h'.settings.trans h.settings
  speed := h'.speed.trans h.speed

/-- What goes on beside the output one by one goes on beside it altogether. -/
theorem foldl {α : Type} {f : Keyboard τ → α → Keyboard τ}
    (hf : ∀ (kb : Keyboard τ) (a : α), kb.Aside (f kb a)) (kb : Keyboard τ) (as : List α) :
    kb.Aside (as.foldl f kb) := by
  induction as generalizing kb with
  | nil => exact refl kb
  | cons a as ih => exact (hf kb a).trans (ih (f kb a))

end Aside

theorem aside_paddle (kb : Keyboard τ) (e : Edge) : kb.Aside (kb.paddle e) := by
  refine ⟨rfl, rfl, rfl, rfl, rfl, rfl, rfl, ?_⟩
  have hstep := (kb.keyer.edgeOnto_eq e kb.scheduler.now kb.queues.symbols kb.log).1
  show (kb.keyer.edgeOnto e kb.scheduler.now kb.queues.symbols kb.log).1.speed = kb.keyer.speed
  rw [hstep, Keyer.speed_step]

theorem aside_applyEdges (kb : Keyboard τ) : kb.Aside kb.applyEdges := by
  have hdrain : kb.Aside
      { kb with queues := { kb.queues with paddles := kb.queues.paddles.drain.2 } } :=
    ⟨rfl, rfl, rfl, rfl, rfl, rfl, rfl, rfl⟩
  exact hdrain.trans (.foldl aside_paddle _ _)

theorem aside_tickKeyer (kb : Keyboard τ) : kb.Aside kb.tickKeyer := by
  refine ⟨rfl, rfl, rfl, rfl, rfl, rfl, rfl, ?_⟩
  show (kb.keyer.tickOnto kb.queues.symbols).1.speed = kb.keyer.speed
  rw [Keyer.tickOnto_eq]
  exact Keyer.speed_step _ _

theorem aside_repeatSlot (kb : Keyboard τ) (slot : Nat) : kb.Aside (kb.repeatSlot slot) :=
  ⟨rfl, rfl, rfl, rfl, rfl, rfl, rfl, rfl⟩

theorem aside_repeatMessages (kb : Keyboard τ) : kb.Aside kb.repeatMessages := by
  have hcount : kb.Aside { kb with repeater := (kb.repeater.passMinute kb.settings).2 } :=
    ⟨rfl, rfl, rfl, rfl, rfl, rfl, rfl, rfl⟩
  refine hcount.trans ?_
  rw [repeatMessages]
  dsimp only
  split
  · exact .foldl aside_repeatSlot _ _
  · split
    · exact .refl _
    · exact ⟨rfl, rfl, rfl, rfl, rfl, rfl, rfl, rfl⟩

/-- What comes before the turn goes on beside the output, the clock being advanced already. -/
theorem aside_beforeTurn (kb : Keyboard τ) : kb.advanceClock.2.Aside kb.beforeTurn := by
  have hedges := aside_applyEdges kb
  have hclock : kb.advanceClock.2.Aside kb.applyEdges.advanceClock.2 :=
    { hedges with
      scheduler := by rw [advanceClock, advanceClock, scheduler_applyEdges] }
  refine hclock.trans ?_
  rw [beforeTurn]
  split
  · exact aside_tickKeyer _
  · exact .refl _

theorem aside_afterTurn (kb : Keyboard τ) (due : SlotSet) : kb.Aside (kb.afterTurn due) := by
  rw [afterTurn]
  split
  · exact aside_repeatMessages kb
  · exact .refl kb

/-! ### Milliseconds -/

section

variable [Ticker τ] {kb : Keyboard τ} {wait period : Nat}

/-- **A millisecond without a turn of the output** advances the clock, and everything else goes on
beside the output. -/
theorem aside_tick_of_not_due (h : kb.scheduler.tick.1.contains .output = false) :
    kb.advanceClock.2.Aside kb.tick.2 := by
  rw [snd_tick, throughTurn, h]
  exact (aside_beforeTurn kb).trans (aside_afterTurn _ _)

/-- **A millisecond with a turn of the output** is a call of the sender, between things that go on
beside it. This is the turn. -/
structure Turns (kb : Keyboard τ) (t : Sender.Turn) : Prop where
  call : Sender.Call kb.sender kb.beforeTurn.queues.chars kb.beforeTurn.queues.symbols t
  throughTurn : kb.throughTurn = (kb.beforeTurn.played t).setRate t.rate

theorem exists_turns (h : kb.scheduler.tick.1.contains .output = true) : ∃ t, kb.Turns t := by
  obtain ⟨t, hcall, hturn⟩ := kb.beforeTurn.exists_playTurn
  have hsender : kb.beforeTurn.sender = kb.sender := (aside_beforeTurn kb).sender
  exact ⟨t, hsender ▸ hcall, by rw [throughTurn, if_pos h, hturn]⟩

theorem Turns.aside {t : Sender.Turn} (h : kb.Turns t) :
    ((kb.beforeTurn.played t).setRate t.rate).Aside kb.tick.2 := by
  rw [snd_tick, h.throughTurn]
  exact aside_afterTurn _ _

theorem Turns.sender {t : Sender.Turn} (h : kb.Turns t) : kb.tick.2.sender = t.sender := by
  rw [h.aside.sender, setRate_eq]
  rfl

/-- No turn of the output changes the speed. -/
theorem Turns.speed {t : Sender.Turn} (h : kb.Turns t) : kb.tick.2.speed = kb.speed := by
  rw [h.aside.speed, setRate_eq]
  exact (aside_beforeTurn kb).speed

/-- No millisecond changes the speed. -/
theorem speed_tick (kb : Keyboard τ) : kb.tick.2.speed = kb.speed := by
  rcases hdue : kb.scheduler.tick.1.contains .output with _ | _
  · exact (aside_tick_of_not_due hdue).speed
  · obtain ⟨t, hturn⟩ := exists_turns hdue
    exact hturn.speed

/-- In a millisecond without a turn of the output nothing is done. -/
theorem nextSignals_of_aside (h : kb.advanceClock.2.Aside kb.tick.2) : kb.nextSignals = [] := by
  rw [nextSignals, h.outbox]
  exact List.drop_length

/-- In a millisecond with a turn of the output the turn is all that is done. -/
theorem Turns.nextSignals {t : Sender.Turn} (h : kb.Turns t) :
    kb.nextSignals = t.signals ++ t.bytes.map (.delivered kb.target) := by
  have houtbox : kb.beforeTurn.outbox = kb.outbox := (aside_beforeTurn kb).outbox
  have htarget : kb.beforeTurn.target = kb.target := (aside_beforeTurn kb).target
  rw [Keyboard.nextSignals, h.aside.outbox, setRate_eq]
  simp [played, houtbox, htarget]

/-- The milliseconds until the next turn of the output. -/
def untilTurn (kb : Keyboard τ) : Nat :=
  (kb.scheduler.job? .output).elim 0 fun job => job.wait kb.scheduler.now

omit [Ticker τ] in
theorem untilTurn_eq (h : kb.scheduler.Waits .output wait period) : kb.untilTurn = wait := by
  obtain ⟨job, hjob, hwait, -⟩ := h.exists_job
  rw [untilTurn, hjob]
  exact hwait

/-- A millisecond before the turn of the output is due. -/
theorem waits_tick_of_not_due (h : kb.scheduler.Waits .output wait period) (hwait : wait ≠ 1) :
    kb.advanceClock.2.Aside kb.tick.2 ∧ kb.tick.2.scheduler.Waits .output (wait - 1) period := by
  obtain ⟨hdue, hclock⟩ := h.tick
  rw [decide_eq_false hwait] at hdue
  rw [Scheduler.waitAfter, if_neg hwait] at hclock
  have haside := aside_tick_of_not_due hdue
  exact ⟨haside, haside.scheduler ▸ hclock⟩

/-- A millisecond in which the turn of the output is due. The turn leaves the clock set for the rate
that it asked for. -/
theorem waits_tick_of_due (h : kb.scheduler.Waits .output 1 period) :
    ∃ t, kb.Turns t ∧ kb.tick.2.scheduler.Waits .output
      (Sender.periodAfter kb.speed.dit period t.rate)
      (Sender.periodAfter kb.speed.dit period t.rate) := by
  obtain ⟨hdue, hclock⟩ := h.tick
  rw [Scheduler.waitAfter, if_pos rfl] at hclock
  obtain ⟨t, hturn⟩ := exists_turns (hdue.trans (decide_eq_true rfl))
  have hbefore := aside_beforeTurn kb
  have hspeed : kb.beforeTurn.speed = kb.speed := hbefore.speed
  have hplayed : (kb.beforeTurn.played t).scheduler.Waits .output period period :=
    hbefore.scheduler ▸ hclock
  have hrate := waits_setRate hplayed t.rate
  refine ⟨t, hturn, ?_⟩
  rw [hturn.aside.scheduler, ← hspeed]
  exact hrate

/-- The turn of the keyer comes every millisecond, whatever the output does. -/
theorem waits_keyer_tick (h : kb.scheduler.Waits .keyer 1 1) :
    kb.tick.2.scheduler.Waits .keyer 1 1 := by
  have hclock : kb.advanceClock.2.scheduler.Waits .keyer 1 1 := h.tick.2
  rcases hdue : kb.scheduler.tick.1.contains .output with _ | _
  · exact (aside_tick_of_not_due hdue).scheduler ▸ hclock
  · obtain ⟨t, hturn⟩ := exists_turns hdue
    have hplayed : (kb.beforeTurn.played t).scheduler.Waits .keyer 1 1 :=
      (aside_beforeTurn kb).scheduler ▸ hclock
    exact hturn.aside.scheduler ▸ waits_setRate_of_ne hplayed (by decide) t.rate

/-- **Reading the parameters again begins a unit of the new speed**, whatever was left of the
present one. -/
theorem waits_reload (h : kb.scheduler.Waits .output wait period) :
    kb.reload.scheduler.Waits .output kb.reload.speed.dit kb.reload.speed.dit := by
  have hoccupied : kb.scheduler.isOccupied .output = true := by
    obtain ⟨job, hjob, -⟩ := h.exists_job
    rw [Scheduler.isOccupied, hjob]
    rfl
  simp only [reload, retime, emit, hoccupied, if_true]
  rw [← toNat_unit]
  exact Scheduler.waits_register _ _ (unit_pos _)

end

/-! ### How the clocks are set -/

/-- **How the clocks of a keyboard are set.** The keyer has its turn every millisecond. The output
has its next one in `wait` milliseconds, and then once per unit, or every millisecond while it is
idle. -/
structure Clocked (kb : Keyboard τ) (wait period : Nat) : Prop where
  keyer : kb.scheduler.Waits .keyer 1 1
  output : kb.scheduler.Waits .output wait period
  wait_le : wait ≤ period
  period_eq : period = kb.speed.dit ∨ kb.sender.state = .idle ∧ period = 1

namespace Clocked

variable {kb kb' : Keyboard τ} {wait period : Nat}

theorem congr (h : kb.Clocked wait period) (hscheduler : kb'.scheduler = kb.scheduler)
    (hstate : kb'.sender.state = kb.sender.state) (hspeed : kb'.speed = kb.speed) :
    kb'.Clocked wait period where
  keyer := hscheduler ▸ h.keyer
  output := hscheduler ▸ h.output
  wait_le := h.wait_le
  period_eq := by
    rw [hstate, hspeed]
    exact h.period_eq

theorem aside (h : kb.Clocked wait period) (hs : kb.Aside kb') : kb'.Clocked wait period :=
  h.congr hs.scheduler (congrArg Sender.state hs.sender) hs.speed

/-- The output waits for a unit at most. -/
theorem wait_le_dit (h : kb.Clocked wait period) : wait ≤ kb.speed.dit := by
  have hle := h.wait_le
  have hunit := kb.speed.twelve_le_dit
  rcases h.period_eq with hperiod | ⟨-, hperiod⟩ <;> omega

/-- A sender that is not idle is called once per unit. -/
theorem period_eq_dit (h : kb.Clocked wait period) (hs : kb.sender.state ≠ .idle) :
    period = kb.speed.dit := by
  rcases h.period_eq with hperiod | ⟨hidle, -⟩
  · exact hperiod
  · exact absurd hidle hs

variable [Ticker τ]

/-- Other slots are other people's business. -/
theorem register (h : kb.Clocked wait period) {slot : Slot} (hown : isOwn slot = false)
    (millis : UInt16) :
    { kb with scheduler := kb.scheduler.register slot millis : Keyboard τ }.Clocked wait period
    where
  keyer := h.keyer.register_of_ne (by rintro rfl; cases hown) millis
  output := h.output.register_of_ne (by rintro rfl; cases hown) millis
  wait_le := h.wait_le
  period_eq := h.period_eq

theorem unregister (h : kb.Clocked wait period) {slot : Slot} (hown : isOwn slot = false) :
    { kb with scheduler := kb.scheduler.unregister slot : Keyboard τ }.Clocked wait period where
  keyer := h.keyer.unregister_of_ne (by rintro rfl; cases hown)
  output := h.output.unregister_of_ne (by rintro rfl; cases hown)
  wait_le := h.wait_le
  period_eq := h.period_eq

/-- **A millisecond before the turn of the output is due** brings the turn nearer. -/
theorem tick_of_not_due (h : kb.Clocked wait period) (hwait : wait ≠ 1) :
    kb.advanceClock.2.Aside kb.tick.2 ∧ kb.tick.2.Clocked (wait - 1) period := by
  obtain ⟨haside, hnext⟩ := waits_tick_of_not_due h.output hwait
  have hle := h.wait_le
  have hspeed : kb.tick.2.speed = kb.speed := haside.speed
  refine ⟨haside, waits_keyer_tick h.keyer, hnext, by omega, ?_⟩
  rw [haside.sender, hspeed]
  exact h.period_eq

/-- **A millisecond in which the turn of the output is due** leaves the clock set for the rate that
the turn asked for. -/
theorem tick_of_due (h : kb.Clocked 1 period) :
    ∃ t, kb.Turns t ∧ kb.tick.2.Clocked (Sender.periodAfter kb.speed.dit period t.rate)
      (Sender.periodAfter kb.speed.dit period t.rate) := by
  obtain ⟨t, hturn, hnext⟩ := waits_tick_of_due h.output
  refine ⟨t, hturn, waits_keyer_tick h.keyer, hnext, Nat.le_refl _, ?_⟩
  rw [hturn.sender, hturn.speed]
  exact hturn.call.periodAfter_eq h.period_eq

theorem tick (h : kb.Clocked wait period) :
    ∃ wait' period', kb.tick.2.Clocked wait' period' := by
  rcases eq_or_ne wait 1 with rfl | hwait
  · obtain ⟨t, -, hnext⟩ := h.tick_of_due
    exact ⟨_, _, hnext⟩
  · exact ⟨_, _, (h.tick_of_not_due hwait).2⟩

end Clocked

/-! ### Whatever is done to a keyboard -/

variable [Ticker τ] {kb kb' : Keyboard τ} {wait period : Nat}

theorem Clocked.reload (h : kb.Clocked wait period) :
    kb.reload.Clocked kb.reload.speed.dit kb.reload.speed.dit := by
  refine ⟨?_, waits_reload h.output, Nat.le_refl _, Or.inl rfl⟩
  rw [Keyboard.reload, retime]
  split
  · exact h.keyer.register_of_ne (by decide) _
  · exact h.keyer

/-- Starting with success sets the clocks. -/
theorem clocked_of_start (h : kb.start = (.ok (), kb')) :
    kb'.Clocked kb'.speed.dit kb'.speed.dit := by
  rw [start, Scheduler.claim] at h
  rcases hclaim : Ticker.claim kb.scheduler.ticker with _ | ticker <;> rw [hclaim] at h
  · cases h
  · obtain rfl := (Prod.mk.inj h).2
    have hkeyer : ({ kb.scheduler with ticker }.register .keyer 1).Waits .keyer 1 1 :=
      Scheduler.waits_register _ .keyer (by decide)
    refine ⟨(hkeyer.register_of_ne (by decide) _).register_of_ne (by decide) _, ?_, Nat.le_refl _,
      Or.inl rfl⟩
    rw [← toNat_unit]
    exact (Scheduler.waits_register _ .output (unit_pos _)).register_of_ne (by decide) _

theorem Clocked.start (h : kb.Clocked wait period) :
    ∃ wait' period', kb.start.2.Clocked wait' period' := by
  rcases hclaim : kb.scheduler.claim with refusal | scheduler
  -- a start that is refused leaves a fault and a line in the log
  · rw [Keyboard.start, hclaim]
    exact ⟨wait, period, h.congr rfl rfl rfl⟩
  · have hstart : kb.start = (.ok (), kb.start.2) := by rw [Keyboard.start, hclaim]
    exact ⟨_, _, clocked_of_start hstart⟩

/-- **Every request leaves the clocks set.** -/
theorem Clocked.handle (h : kb.Clocked wait period) (r : Request) :
    ∃ wait' period', (kb.handle r).2.Clocked wait' period' := by
  have hr := handled_handle kb r
  generalize (kb.handle r).2 = kb' at hr ⊢
  cases hr with
  | start => exact h.start
  | reload settings =>
    have hsettings : ({ kb with settings } : Keyboard τ).Clocked wait period := h.congr rfl rfl rfl
    exact ⟨_, _, hsettings.reload⟩
  | edge e => exact ⟨wait, period, h.aside (aside_paddle kb e)⟩
  | refuse | send | store | changeOver => exact ⟨wait, period, h.congr rfl rfl rfl⟩

theorem Clocked.operate (h : kb.Clocked wait period) (op : Operation) :
    ∃ wait' period', (kb.operate op).Clocked wait' period' := by
  cases op with
  | request r => exact h.handle r
  | tick => exact h.tick
  | makeUp n =>
    refine makeUp_induction (P := fun kb => ∃ wait period, kb.Clocked wait period) ?_ ?_
      ⟨wait, period, h⟩ n
    · rintro kb ⟨wait, period, h⟩
      exact h.tick
    · rintro kb faults log ⟨wait, period, h⟩
      exact ⟨wait, period, h.congr rfl rfl rfl⟩
  | queueEdge | changeSettings | readKeystroke | readMenu | takeSignals =>
    exact ⟨wait, period, h.congr rfl rfl rfl⟩
  | register slot millis =>
    rw [Keyboard.operate]
    split
    · exact ⟨wait, period, h⟩
    · next hown => exact ⟨wait, period, h.register (Bool.eq_false_iff.mpr hown) millis⟩
  | unregister slot =>
    rw [Keyboard.operate]
    split
    · exact ⟨wait, period, h⟩
    · next hown => exact ⟨wait, period, h.unregister (Bool.eq_false_iff.mpr hown)⟩

/-- **The clocks of a started keyboard are set**, whatever was done to it. -/
theorem Started.clocked (h : kb.Started) : ∃ wait period, kb.Clocked wait period := by
  induction h with
  | start h hstart => exact ⟨_, _, clocked_of_start hstart⟩
  | operate h op ih =>
    obtain ⟨wait, period, hclock⟩ := ih
    exact hclock.operate op

end Keyboard

end MorseKeyboard
