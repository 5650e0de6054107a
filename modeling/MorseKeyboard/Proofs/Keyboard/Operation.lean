import MorseKeyboard.Proofs.Keyboard.Millisecond
import MorseKeyboard.Proofs.Keyboard.Requests

/-!
# Operating a keyboard

What happens to a keyboard is a turn of its output, now and then, and a great many other things:
edges, milliseconds of the keyer, repeated messages, requests. None of the others delivers text, and
to the output they do little: at most the letter being decoded is forgotten, and **at most the next
turn is put off to a whole unit from now**. That is `MorseKeyboard.Keyboard.Spares`, a relation
between the keyboard before and after, and each of them is shown to be of this kind once, here.

With it follows what holds of every keyboard that was built and operated in any way
(`MorseKeyboard.Keyboard.Built`), and of one that was started besides
(`MorseKeyboard.Keyboard.Started`): its queues are in order, and its output is scheduled
(`MorseKeyboard.Keyboard.Started.ready`).
-/

namespace MorseKeyboard

/-! ### Queues in order -/

/-- All queues of a keyboard are in order. -/
structure Queues.WellFormed (q : Queues) : Prop where
  paddles : q.paddles.WellFormed
  symbols : q.symbols.WellFormed
  chars : q.chars.WellFormed
  keystrokes : q.keystrokes.WellFormed
  menu : q.menu.WellFormed

/-- Fresh queues are in order. -/
theorem Queues.wellFormed_fresh : ({} : Queues).WellFormed :=
  ⟨Ring.wellFormed_empty _ _ _, Ring.wellFormed_empty _ _ _, Ring.wellFormed_empty _ _ _,
    Ring.wellFormed_empty _ _ _, Ring.wellFormed_empty _ _ _⟩

theorem Queues.WellFormed.receive {q : Queues} (h : q.WellFormed) (target : Target)
    (bytes : List UInt8) : (q.receive target bytes).WellFormed := by
  cases target with
  | keystrokes =>
    exact ⟨h.paddles, h.symbols, h.chars, h.keystrokes.pushAll bytes, h.menu⟩
  | menu => exact ⟨h.paddles, h.symbols, h.chars, h.keystrokes, h.menu.pushAll bytes⟩

theorem SymbolRing.wellFormed_key {symbols : SymbolRing} (h : symbols.WellFormed)
    (keyed : Option Symbol) : (symbols.key keyed).WellFormed := by
  rcases keyed with _ | s
  · exact h
  · exact h.push s

/-- The byte, if one was delivered for the host to type. -/
def Signal.keystroke? : Signal → Option UInt8
  | delivered .keystrokes byte => some byte
  | _ => none

namespace Keyboard

variable {τ : Type}

/-- The bytes that were delivered for the host to type, as the outbox tells. -/
def delivered (kb : Keyboard τ) : List UInt8 := kb.outbox.toList.filterMap Signal.keystroke?

theorem delivered_emit_tone (kb : Keyboard τ) (hz : Nat) :
    (kb.emit (.tone hz)).delivered = kb.delivered := by
  simp [delivered, emit, Signal.keystroke?]

/-! ### What spares the output -/

/-- **What happens besides the turns of the output.** Nothing is delivered, and the output stays in
its state. The letter being decoded may be forgotten, and the next turn put off to a whole unit from
now, which has twelve milliseconds at least. -/
structure Spares (kb kb' : Keyboard τ) : Prop where
  wellFormed : kb.queues.WellFormed → kb'.queues.WellFormed
  keystrokes : kb'.queues.keystrokes = kb.queues.keystrokes
  delivered : kb'.delivered = kb.delivered
  state : kb'.sender.state = kb.sender.state
  decoder : kb'.sender.decoder = kb.sender.decoder ∨ kb'.sender.decoder = .fresh
  others : ∀ {slot : Slot} {wait period : Nat}, isOwn slot = false →
    kb.scheduler.Waits slot wait period → kb'.scheduler.Waits slot wait period
  output : ∀ {wait period : Nat}, kb.scheduler.Waits .output wait period →
    kb'.scheduler.Waits .output wait period ∨
      ∃ unit, 12 ≤ unit ∧ kb'.scheduler.Waits .output unit unit

namespace Spares

variable {kb kb' kb'' : Keyboard τ}

/-- What leaves alone the sender, the clock, the outbox and the queue of the host. -/
theorem of_eq (hqueues : kb.queues.WellFormed → kb'.queues.WellFormed)
    (hkeystrokes : kb'.queues.keystrokes = kb.queues.keystrokes) (houtbox : kb'.outbox = kb.outbox)
    (hsender : kb'.sender = kb.sender) (hscheduler : kb'.scheduler = kb.scheduler) :
    kb.Spares kb' where
  wellFormed := hqueues
  keystrokes := hkeystrokes
  delivered := by rw [Keyboard.delivered, houtbox, Keyboard.delivered]
  state := by rw [hsender]
  decoder := by rw [hsender]; exact Or.inl rfl
  others _ h := by rw [hscheduler]; exact h
  output h := by rw [hscheduler]; exact Or.inl h

theorem refl (kb : Keyboard τ) : kb.Spares kb := of_eq id rfl rfl rfl rfl

theorem trans (h : kb.Spares kb') (h' : kb'.Spares kb'') : kb.Spares kb'' where
  wellFormed hw := h'.wellFormed (h.wellFormed hw)
  keystrokes := h'.keystrokes.trans h.keystrokes
  delivered := h'.delivered.trans h.delivered
  state := h'.state.trans h.state
  decoder := by
    rcases h'.decoder with hd | hd
    · rw [hd]
      exact h.decoder
    · exact Or.inr hd
  others hown hw := h'.others hown (h.others hown hw)
  output hw := by
    rcases h.output hw with hw | ⟨unit, hunit, hw⟩
    · exact h'.output hw
    -- put off once, the turn stays where it is or is put off again
    · rcases h'.output hw with hw | hw
      · exact Or.inr ⟨unit, hunit, hw⟩
      · exact Or.inr hw

/-- What spares the output one by one spares it altogether. -/
theorem foldl {α : Type} {f : Keyboard τ → α → Keyboard τ}
    (hf : ∀ (kb : Keyboard τ) (a : α), kb.Spares (f kb a)) (kb : Keyboard τ) (as : List α) :
    kb.Spares (as.foldl f kb) := by
  induction as generalizing kb with
  | nil => exact refl kb
  | cons a as ih => exact (hf kb a).trans (ih (f kb a))

end Spares

/-! ### Edges, the keyer and the repeated messages -/

theorem spares_paddle (kb : Keyboard τ) (e : Edge) : kb.Spares (kb.paddle e) := by
  refine .of_eq (fun h => ⟨h.paddles, ?_, h.chars, h.keystrokes, h.menu⟩) rfl rfl rfl rfl
  rw [paddle, Keyer.edgeOnto]
  rcases kb.keyer.edge? e with _ | ⟨keyed, k⟩
  · exact h.symbols
  · exact SymbolRing.wellFormed_key h.symbols keyed

theorem spares_applyEdges (kb : Keyboard τ) : kb.Spares kb.applyEdges := by
  have hdrain : kb.Spares
      { kb with queues := { kb.queues with paddles := kb.queues.paddles.drain.2 } } :=
    .of_eq (fun h => ⟨h.paddles.take _, h.symbols, h.chars, h.keystrokes, h.menu⟩) rfl rfl rfl rfl
  exact hdrain.trans (.foldl spares_paddle _ _)

theorem spares_tickKeyer (kb : Keyboard τ) : kb.Spares kb.tickKeyer :=
  .of_eq (fun h => ⟨h.paddles, SymbolRing.wellFormed_key h.symbols _, h.chars, h.keystrokes,
    h.menu⟩) rfl rfl rfl rfl

theorem spares_sendBytes (kb : Keyboard τ) (bytes : List UInt8) :
    kb.Spares (kb.sendBytes bytes) :=
  .of_eq (fun h => ⟨h.paddles, h.symbols, h.chars.pushAll bytes, h.keystrokes, h.menu⟩) rfl rfl rfl
    rfl

theorem spares_info (kb : Keyboard τ) (pieces : List String) : kb.Spares (kb.info pieces) :=
  .of_eq id rfl rfl rfl rfl

theorem spares_repeatSlot (kb : Keyboard τ) (slot : Nat) : kb.Spares (kb.repeatSlot slot) :=
  (spares_info kb _).trans (spares_sendBytes _ _)

theorem spares_repeatMessages (kb : Keyboard τ) : kb.Spares kb.repeatMessages := by
  have hcount : kb.Spares { kb with repeater := (kb.repeater.passMinute kb.settings).2 } :=
    .of_eq id rfl rfl rfl rfl
  refine hcount.trans ?_
  rw [repeatMessages]
  dsimp only
  split
  · exact .foldl spares_repeatSlot _ _
  · split
    · exact .refl _
    · exact spares_info _ _

theorem spares_emit_tone (kb : Keyboard τ) (hz : Nat) : kb.Spares (kb.emit (.tone hz)) where
  wellFormed := id
  keystrokes := rfl
  delivered := delivered_emit_tone kb hz
  state := rfl
  decoder := Or.inl rfl
  others _ := id
  output := Or.inl

/-! ### Requests -/

theorem spares_changeOver (kb : Keyboard τ) (enabled : Bool) :
    kb.Spares (kb.changeOver enabled) where
  wellFormed h :=
    ⟨h.paddles, Ring.wellFormed_clear _, Ring.wellFormed_clear _, h.keystrokes, h.menu⟩
  keystrokes := rfl
  delivered := rfl
  state := rfl
  decoder := Or.inr rfl
  others _ := id
  output := Or.inl

variable [Ticker τ]

theorem spares_register (kb : Keyboard τ) (slot : Slot) (period : UInt16)
    (hown : isOwn slot = true) (hne : slot ≠ .output) :
    kb.Spares { kb with scheduler := kb.scheduler.register slot period } where
  wellFormed := id
  keystrokes := rfl
  delivered := rfl
  state := rfl
  decoder := Or.inl rfl
  others hother h := h.register_of_ne (by rintro rfl; rw [hown] at hother; cases hother) period
  output h := Or.inl (h.register_of_ne hne period)

/-- Scheduling the output for its unit puts its turn off. -/
theorem spares_register_output (kb : Keyboard τ) :
    kb.Spares { kb with scheduler := kb.scheduler.register .output kb.unit } where
  wellFormed := id
  keystrokes := rfl
  delivered := rfl
  state := rfl
  decoder := Or.inl rfl
  others hother h := h.register_of_ne (by rintro rfl; cases hother) kb.unit
  output _ := by
    refine Or.inr ⟨kb.unit.toNat, ?_, Scheduler.waits_register kb.scheduler .output kb.unit_pos⟩
    rw [toNat_unit]
    exact kb.speed.twelve_le_dit

theorem spares_retime (kb : Keyboard τ) : kb.Spares (kb.retime kb.unit) := by
  rw [retime]
  split
  · exact spares_register_output kb
  · exact .refl kb

theorem spares_reload (kb : Keyboard τ) : kb.Spares kb.reload := by
  let p := kb.settings.current.corrected
  let keyer := ((kb.keyer.withSpeed (.ofWpm p.wpm)).withMode p.mode).withLeft p.left
  have hparameters : kb.Spares { kb with inForce := p, keyer } := .of_eq id rfl rfl rfl rfl
  exact hparameters.trans ((spares_emit_tone _ p.hz).trans (spares_retime _))

theorem spares_start (kb : Keyboard τ) : kb.Spares kb.start.2 := by
  rw [start, Scheduler.claim]
  rcases Ticker.claim kb.scheduler.ticker with _ | ticker
  -- the ticker is in use: the fault is recorded, and nothing is scheduled
  · exact .of_eq id rfl rfl rfl rfl
  · have hclaim : kb.Spares { kb with scheduler := { kb.scheduler with ticker } } :=
      { wellFormed := id
        keystrokes := rfl
        delivered := rfl
        state := rfl
        decoder := Or.inl rfl
        others := fun _ h => h.congr rfl rfl
        output := fun h => Or.inl (h.congr rfl rfl) }
    refine hclaim.trans ((spares_emit_tone _ kb.inForce.hz).trans ?_)
    refine (spares_register _ .keyer 1 rfl (by decide)).trans ?_
    refine (spares_register_output _).trans ?_
    refine (spares_register _ .minute minuteMillis rfl (by decide)).trans ?_
    exact spares_info _ _

/-- **Every request spares the output.** -/
theorem spares_handle (kb : Keyboard τ) (r : Request) : kb.Spares (kb.handle r).2 := by
  have h := handled_handle kb r
  generalize (kb.handle r).2 = kb' at h ⊢
  -- settings, countdowns and faults are nothing to the output
  have hkept (settings : Settings) (repeater : Repeater) (faults : FaultRegister) :
      kb.Spares { kb with settings, repeater, faults } := .of_eq id rfl rfl rfl rfl
  cases h with
  | refuse => exact .refl kb
  | start => exact spares_start kb
  | send hr faults bytes =>
    exact (hkept kb.settings kb.repeater faults).trans (spares_sendBytes _ bytes)
  | store settings repeater => exact hkept settings repeater kb.faults
  | reload settings => exact (hkept settings kb.repeater kb.faults).trans (spares_reload _)
  | changeOver enabled => exact spares_changeOver kb enabled
  | edge e => exact spares_paddle kb e

/-! ### Milliseconds -/

omit [Ticker τ] in
/-- What comes before the turn of the output spares it, the clock being advanced already. -/
theorem spares_beforeTurn (kb : Keyboard τ) : kb.advanceClock.2.Spares kb.beforeTurn := by
  have hedges := spares_applyEdges kb
  have hscheduler : kb.applyEdges.advanceClock.2.scheduler = kb.advanceClock.2.scheduler := by
    rw [advanceClock, advanceClock, scheduler_applyEdges]
  have hclock : kb.advanceClock.2.Spares kb.applyEdges.advanceClock.2 :=
    { wellFormed := hedges.wellFormed
      keystrokes := hedges.keystrokes
      delivered := hedges.delivered
      state := hedges.state
      decoder := hedges.decoder
      others := fun _ h => by rw [hscheduler]; exact h
      output := fun h => by rw [hscheduler]; exact Or.inl h }
  refine hclock.trans ?_
  rw [beforeTurn]
  split
  · exact spares_tickKeyer _
  · exact .refl _

omit [Ticker τ] in
/-- What comes after the turn of the output spares it. -/
theorem spares_afterTurn (kb : Keyboard τ) (due : SlotSet) : kb.Spares (kb.afterTurn due) := by
  rw [afterTurn]
  split
  · exact spares_repeatMessages kb
  · exact .refl kb

/-! ### Keyboards that were built and started -/

/-- Something that happens to a keyboard. -/
inductive Operation where
  /-- It is asked for something. -/
  | request (r : Request)
  /-- A millisecond passes. -/
  | tick
  /-- Some milliseconds are made up for. -/
  | makeUp (n : UInt32)
  /-- A contact queues an edge. -/
  | queueEdge (e : Edge)
  /-- The owner of the settings changes them. -/
  | changeSettings (c : Settings.Change)
  /-- A slot that is not the keyboard's own gets a job. -/
  | register (slot : Slot) (period : UInt16)
  /-- A slot that is not the keyboard's own loses its job. -/
  | unregister (slot : Slot)
  /-- The host takes a keystroke. -/
  | readKeystroke
  /-- The menu takes a byte. -/
  | readMenu
  /-- The signals are taken out. -/
  | takeSignals
  deriving DecidableEq, Repr

/-- What becomes of a keyboard in an operation. The slots that are its own are nobody else's. -/
def operate (kb : Keyboard τ) : Operation → Keyboard τ
  | .request r => (kb.handle r).2
  | .tick => kb.tick.2
  | .makeUp n => (kb.makeUp n).2
  | .queueEdge e => { kb with queues := { kb.queues with paddles := kb.queues.paddles.push e } }
  | .changeSettings c => kb.change c
  | .register slot period =>
    if isOwn slot then kb else { kb with scheduler := kb.scheduler.register slot period }
  | .unregister slot =>
    if isOwn slot then kb else { kb with scheduler := kb.scheduler.unregister slot }
  | .readKeystroke =>
    { kb with queues := { kb.queues with keystrokes := (kb.queues.keystrokes.take 1).2 } }
  | .readMenu => { kb with queues := { kb.queues with menu := (kb.queues.menu.take 1).2 } }
  | .takeSignals => kb.takeSignals.2

/-- A keyboard that was built over queues in order, and operated in any way. -/
inductive Built : Keyboard τ → Prop
  | ofParts (ticker : τ) {queues : Queues} (hqueues : queues.WellFormed) (faults : FaultRegister)
      (settings : Settings) (log : Logbook) : Built (ofParts ticker queues faults settings log)
  | operate {kb : Keyboard τ} (h : Built kb) (op : Operation) : Built (kb.operate op)

/-- A keyboard that was built, started with success, and operated in any way. -/
inductive Started : Keyboard τ → Prop
  | start {kb kb' : Keyboard τ} (h : Built kb) (hstart : kb.start = (.ok (), kb')) : Started kb'
  | operate {kb : Keyboard τ} (h : Started kb) (op : Operation) : Started (kb.operate op)

/-! ### What holds of them -/

/-- The output of the keyboard is scheduled. -/
def Scheduled (kb : Keyboard τ) : Prop :=
  ∃ wait period, kb.scheduler.Waits .output wait period

omit [Ticker τ] in
theorem Scheduled.of_spares {kb kb' : Keyboard τ} (h : kb.Scheduled) (hs : kb.Spares kb') :
    kb'.Scheduled := by
  obtain ⟨wait, period, hwaits⟩ := h
  rcases hs.output hwaits with hwaits | ⟨unit, -, hwaits⟩
  · exact ⟨wait, period, hwaits⟩
  · exact ⟨unit, unit, hwaits⟩

/-- A turn leaves the queues in order. -/
theorem wellFormed_playTurn {kb : Keyboard τ} (h : kb.queues.WellFormed) :
    kb.playTurn.queues.WellFormed := by
  obtain ⟨t, hcall, hturn⟩ := kb.exists_playTurn
  obtain ⟨hchars, hsymbols⟩ := hcall.wellFormed h.chars h.symbols
  have hqueues : ({ kb.queues with chars := t.chars, symbols := t.symbols } : Queues).WellFormed :=
    ⟨h.paddles, hsymbols, hchars, h.keystrokes, h.menu⟩
  rw [hturn, setRate_eq]
  exact hqueues.receive kb.target t.bytes

/-- A turn leaves the output scheduled. -/
theorem exists_waits_playTurn {kb : Keyboard τ} {period : Nat}
    (h : kb.scheduler.Waits .output period period) :
    ∃ next, kb.playTurn.scheduler.Waits .output next next := by
  obtain ⟨t, -, hturn⟩ := kb.exists_playTurn
  have hplayed : (kb.played t).scheduler.Waits .output period period := h
  rw [hturn]
  exact ⟨_, waits_setRate hplayed t.rate⟩

/-- A millisecond leaves the queues in order. -/
theorem wellFormed_tick {kb : Keyboard τ} (h : kb.queues.WellFormed) :
    kb.tick.2.queues.WellFormed := by
  have hbefore := (spares_beforeTurn kb).wellFormed h
  rw [snd_tick]
  refine (spares_afterTurn _ _).wellFormed ?_
  rw [throughTurn]
  split
  · exact wellFormed_playTurn hbefore
  · exact hbefore

/-- A millisecond leaves the output scheduled. -/
theorem Scheduled.tick {kb : Keyboard τ} (h : kb.Scheduled) : kb.tick.2.Scheduled := by
  obtain ⟨wait, period, hwaits⟩ := h
  obtain ⟨hdue, hclock⟩ := hwaits.tick
  have hadvance : kb.advanceClock.2.Scheduled := ⟨_, _, hclock⟩
  have hbefore := spares_beforeTurn kb
  rw [snd_tick]
  refine Scheduled.of_spares ?_ (spares_afterTurn _ _)
  rw [throughTurn, hdue]
  split
  -- the clock has set the wait to the period, and the edges and the keyer have left it so or made
  -- it a unit: either way the turn finds a wait that is a whole period
  · next hone =>
    rw [Scheduler.waitAfter, if_pos (of_decide_eq_true hone)] at hclock
    rcases hbefore.output hclock with hclock | ⟨unit, -, hclock⟩
    · obtain ⟨next, hnext⟩ := exists_waits_playTurn hclock
      exact ⟨next, next, hnext⟩
    · obtain ⟨next, hnext⟩ := exists_waits_playTurn hclock
      exact ⟨next, next, hnext⟩
  · exact hadvance.of_spares hbefore

/-- What every millisecond keeps, many of them keep. -/
theorem ticksInto_induction {P : Keyboard τ → Prop} (step : ∀ kb, P kb → P kb.tick.2)
    {kb : Keyboard τ} (h : P kb) (fired : SlotSet) (n : Nat) : P (kb.ticksInto fired n).2 := by
  induction n generalizing kb fired with
  | zero => exact h
  | succ n ih => exact ih (step kb h) _

/-- What milliseconds and records of faults keep, making up for lost time keeps. -/
theorem makeUp_induction {P : Keyboard τ → Prop} (step : ∀ kb, P kb → P kb.tick.2)
    (record : ∀ (kb : Keyboard τ) faults log, P kb → P { kb with faults, log }) {kb : Keyboard τ}
    (h : P kb) (n : UInt32) : P (kb.makeUp n).2 := by
  rw [makeUp]
  split
  · exact ticksInto_induction step (record kb _ _ h) _ _
  · exact ticksInto_induction step h _ _

theorem wellFormed_operate {kb : Keyboard τ} (h : kb.queues.WellFormed) (op : Operation) :
    (kb.operate op).queues.WellFormed := by
  cases op with
  | request r => exact (spares_handle kb r).wellFormed h
  | tick => exact wellFormed_tick h
  -- a record of a fault does not touch the queues
  | makeUp n =>
    exact makeUp_induction (P := fun kb => kb.queues.WellFormed) (fun _ => wellFormed_tick)
      (fun _ _ _ => id) h n
  | queueEdge e => exact ⟨h.paddles.push e, h.symbols, h.chars, h.keystrokes, h.menu⟩
  | changeSettings | takeSignals => exact h
  | register slot period | unregister slot =>
    rw [operate]
    split <;> exact h
  | readKeystroke => exact ⟨h.paddles, h.symbols, h.chars, h.keystrokes.take 1, h.menu⟩
  | readMenu => exact ⟨h.paddles, h.symbols, h.chars, h.keystrokes, h.menu.take 1⟩

theorem Scheduled.operate {kb : Keyboard τ} (h : kb.Scheduled) (op : Operation) :
    (kb.operate op).Scheduled := by
  cases op with
  | request r => exact h.of_spares (spares_handle kb r)
  | tick => exact h.tick
  | makeUp n =>
    exact makeUp_induction (P := Scheduled) (fun _ => Scheduled.tick) (fun _ _ _ => id) h n
  | queueEdge | changeSettings | takeSignals | readKeystroke | readMenu => exact h
  -- the slot of the output is the keyboard's own, so the job is not for that
  | register slot period =>
    rw [Keyboard.operate]
    split
    · exact h
    · next hown =>
      obtain ⟨wait, rest, hwaits⟩ := h
      exact ⟨wait, rest, hwaits.register_of_ne (by rintro rfl; exact hown rfl) period⟩
  | unregister slot =>
    rw [Keyboard.operate]
    split
    · exact h
    · next hown =>
      obtain ⟨wait, rest, hwaits⟩ := h
      exact ⟨wait, rest, hwaits.unregister_of_ne (by rintro rfl; exact hown rfl)⟩

/-- **The queues of a keyboard are in order**, whatever was done to it. -/
theorem Built.wellFormed {kb : Keyboard τ} (h : kb.Built) : kb.queues.WellFormed := by
  induction h with
  | ofParts ticker hqueues faults settings log => exact (spares_reload _).wellFormed hqueues
  | operate h op ih => exact wellFormed_operate ih op

/-- Starting with success schedules the output. -/
theorem scheduled_of_start {kb kb' : Keyboard τ} (h : kb.start = (.ok (), kb')) :
    kb'.Scheduled := by
  rw [start, Scheduler.claim] at h
  rcases hclaim : Ticker.claim kb.scheduler.ticker with _ | ticker <;> rw [hclaim] at h
  · cases h
  · obtain rfl := (Prod.mk.inj h).2
    exact ⟨_, _, (Scheduler.waits_register _ .output (unit_pos _)).register_of_ne (by decide) _⟩

/-- **A started keyboard is built and its output is scheduled**, whatever was done to it. -/
theorem Started.ready {kb : Keyboard τ} (h : kb.Started) : kb.Built ∧ kb.Scheduled := by
  induction h with
  | @start kb kb' h hstart =>
    have hrequest : kb.operate (.request .start) = kb' := congrArg Prod.snd hstart
    exact ⟨hrequest ▸ h.operate _, scheduled_of_start hstart⟩
  | operate h op ih => exact ⟨ih.1.operate op, ih.2.operate op⟩

end Keyboard

end MorseKeyboard
