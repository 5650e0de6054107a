import Mathlib.Logic.Function.Iterate
import MorseKeyboard.Proofs.Keyboard.ChangeOver

/-!
# Repeated messages in command mode

A keyboard of which nobody touches a paddle and that nobody asks to play anything still plays: its
repeated messages, by the minute. Command mode may be entered and left at any time, with a message
anywhere on its way, and **none of it reaches the configuration menu**. For a change-over discards
what waits, the keyer is at rest, and in command mode nothing is queued; so in command mode there is
nothing on the way at all (`MorseKeyboard.Keyboard.Sealed`), and this is how it stays
(`MorseKeyboard.Keyboard.Sealed.operate`).

Nor do the messages notice command mode otherwise. When they fall due is a matter of the settings,
the countdowns and the clock of the minutes, which together are the *timetable*
(`MorseKeyboard.Keyboard.timetable`). **A timetable goes on by itself**
(`MorseKeyboard.Keyboard.timetable_tick`), and a change-over leaves it as it is. So runs that differ
in their change-overs only have the same minutes
(`MorseKeyboard.Keyboard.menu_and_minutes_operated`).
-/

namespace MorseKeyboard

/-- Whether a request leaves the paddles alone and asks for nothing to be played. -/
def Request.isHousekeeping : Request → Bool
  | start | send _ | play _ | playCallsign | announceOverruns | edge _ => false
  | _ => true

theorem Request.isSending_eq_false {r : Request} (h : r.isHousekeeping = true) :
    r.isSending = false := by
  cases r <;> first | rfl | cases h

namespace Keyboard

variable {τ : Type}

/-- Whether an operation leaves the paddles and the other owners of the scheduler alone and asks for
nothing to be played. -/
def Operation.isHousekeeping : Operation → Bool
  | request r => r.isHousekeeping
  | queueEdge _ | register _ _ | unregister _ => false
  | _ => true

/-- Whether an operation enters or leaves command mode. -/
def Operation.isChangeOver : Operation → Bool
  | request (.changeOver _) => true
  | _ => false

theorem Operation.eq_of_isChangeOver {op : Operation} (h : op.isChangeOver = true) :
    ∃ enabled, op = request (.changeOver enabled) := by
  unfold isChangeOver at h
  split at h
  · exact ⟨_, rfl⟩
  · cases h

/-- The milliseconds that pass in an operation. -/
def Operation.millis : Operation → Nat
  | tick => 1
  | makeUp n => n.toNat
  | _ => 0

/-! ### Nothing on the way to the menu -/

/-- **A keyboard that has nothing for the menu.** The paddles are at rest and the queue of the menu
is empty, and in command mode nothing waits that would be decoded. -/
structure Sealed (kb : Keyboard τ) : Prop where
  paddles : kb.queues.paddles.isEmpty = true
  keyer : kb.keyer.state = .idle
  spaceOwed : kb.keyer.spaceOwed = false
  menu : kb.queues.menu.isEmpty = true
  waiting : kb.target = .menu →
    kb.queues.symbols.isEmpty = true ∧ kb.queues.chars.isEmpty = true

namespace Sealed

variable {kb kb' : Keyboard τ}

theorem congr (h : kb.Sealed) (hqueues : kb'.queues = kb.queues)
    (hstate : kb'.keyer.state = kb.keyer.state)
    (howed : kb'.keyer.spaceOwed = kb.keyer.spaceOwed) (htarget : kb'.target = kb.target) :
    kb'.Sealed :=
  ⟨hqueues ▸ h.paddles, hstate ▸ h.keyer, howed ▸ h.spaceOwed, hqueues ▸ h.menu,
    fun hmenu => hqueues ▸ h.waiting (htarget ▸ hmenu)⟩

/-- A change-over discards what waits, so nothing is on the way afterwards. -/
theorem changeOver (h : kb.Sealed) (enabled : Bool) : (kb.changeOver enabled).Sealed :=
  ⟨h.paddles, h.keyer, h.spaceOwed, h.menu, fun _ => ⟨rfl, rfl⟩⟩

/-- Outside command mode characters may be queued. -/
theorem sendBytes (h : kb.Sealed) (htarget : kb.target ≠ .menu) (bytes : List UInt8) :
    (kb.sendBytes bytes).Sealed :=
  ⟨h.paddles, h.keyer, h.spaceOwed, h.menu, fun hmenu => absurd hmenu htarget⟩

theorem repeatSlots (h : kb.Sealed) (htarget : kb.target ≠ .menu) (slots : List Nat) :
    (slots.foldl repeatSlot kb).Sealed := by
  induction slots generalizing kb with
  | nil => exact h
  | cons slot slots ih =>
    have hinfo : (kb.info ["memory: repeating slot ", slot.repr]).Sealed := h.congr rfl rfl rfl rfl
    exact ih (hinfo.sendBytes htarget _) htarget

/-- In command mode the messages that fall due are skipped. -/
theorem repeatMessages (h : kb.Sealed) : kb.repeatMessages.Sealed := by
  have hcount :
      { kb with repeater := (kb.repeater.passMinute kb.settings).2 : Keyboard τ }.Sealed :=
    h.congr rfl rfl rfl rfl
  rw [Keyboard.repeatMessages]
  dsimp only
  split
  · next hmode =>
    refine hcount.repeatSlots ?_ _
    intro hmenu
    have hout : (!kb.target == .menu) = true := hmode
    rw [hmenu] at hout
    exact absurd hout (by decide)
  · split
    · exact hcount
    · exact hcount.congr rfl rfl rfl rfl

theorem afterTurn (h : kb.Sealed) (due : SlotSet) : (kb.afterTurn due).Sealed := by
  rw [Keyboard.afterTurn]
  split
  · exact h.repeatMessages
  · exact h

variable [Ticker τ]

/-- A turn of the output delivers nothing to the menu: in command mode it finds nothing. -/
theorem playTurn (h : kb.Sealed) : kb.playTurn.Sealed := by
  obtain ⟨t, hcall, hturn⟩ := kb.exists_playTurn
  suffices hplayed : (kb.played t).Sealed by
    rw [hturn, setRate_eq]
    exact hplayed.congr rfl rfl rfl rfl
  rcases htarget : kb.target with _ | _
  · have hqueues : (kb.played t).queues = _ := congrArg (Queues.receive _ · t.bytes) htarget
    refine ⟨?_, h.keyer, h.spaceOwed, ?_, fun hmenu => ?_⟩
    · rw [hqueues]
      exact h.paddles
    · rw [hqueues]
      exact h.menu
    · cases htarget.symm.trans hmenu
  · obtain ⟨hsymbols, hchars⟩ := h.waiting htarget
    obtain ⟨hchars', hsymbols', hbytes⟩ :=
      hcall.of_nothing (Ring.pop?_eq_none_iff.mpr (Ring.isEmpty_iff.mp hsymbols))
        (Ring.pop?_eq_none_iff.mpr (Ring.isEmpty_iff.mp hchars))
    have hqueues : (kb.played t).queues = kb.queues := by
      rw [played, hbytes, receive_nil, hchars', hsymbols']
    exact h.congr hqueues rfl rfl rfl

/-- **A millisecond brings nothing on the way to the menu.** -/
theorem tick (h : kb.Sealed) : kb.tick.2.Sealed := by
  have hbefore : kb.beforeTurn.Sealed := by
    rw [beforeTurn_of_rest h.paddles h.keyer h.spaceOwed]
    exact h.congr rfl rfl rfl rfl
  rw [snd_tick]
  refine Sealed.afterTurn ?_ _
  rw [throughTurn]
  split
  · exact hbefore.playTurn
  · exact hbefore

theorem ticked (h : kb.Sealed) (n : Nat) : (kb.ticked n).Sealed := by
  induction n with
  | zero => exact h
  | succ n ih => exact ih.tick

theorem reload (h : kb.Sealed) : kb.reload.Sealed := by
  have hkeyer (k : Keyer) (s : Symbol) :
      (k.withLeft s).state = k.state ∧ (k.withLeft s).spaceOwed = k.spaceOwed := by
    rw [Keyer.withLeft]
    split <;> exact ⟨rfl, rfl⟩
  rw [Keyboard.reload, retime]
  split
  · exact h.congr rfl (hkeyer _ _).1 (hkeyer _ _).2 rfl
  · exact h.congr rfl (hkeyer _ _).1 (hkeyer _ _).2 rfl

theorem start (h : kb.Sealed) : kb.start.2.Sealed := by
  rw [Keyboard.start]
  split
  · exact h.congr rfl rfl rfl rfl
  · exact h.congr rfl rfl rfl rfl

theorem handle (h : kb.Sealed) {r : Request} (hr : r.isHousekeeping = true) :
    (kb.handle r).2.Sealed := by
  have hhandled := handled_handle kb r
  generalize (kb.handle r).2 = kb' at hhandled ⊢
  cases hhandled with
  | refuse => exact h
  | start => exact h.start
  | store => exact h.congr rfl rfl rfl rfl
  | reload settings =>
    have hsettings : ({ kb with settings } : Keyboard τ).Sealed := h.congr rfl rfl rfl rfl
    exact hsettings.reload
  | changeOver enabled => exact h.changeOver enabled
  -- housekeeping asks for nothing to be played, and touches no paddle
  | send hsend =>
    rw [Request.isSending_eq_false hr] at hsend
    cases hsend
  | edge e => cases hr

/-- **Housekeeping brings nothing on the way to the menu.** -/
theorem operate (h : kb.Sealed) {op : Operation} (hop : op.isHousekeeping = true) :
    (kb.operate op).Sealed := by
  cases op with
  | request r => exact h.handle hop
  | tick => exact h.tick
  | makeUp n =>
    exact makeUp_induction (fun _ => Sealed.tick) (fun _ _ _ h => h.congr rfl rfl rfl rfl) h n
  | changeSettings | takeSignals => exact h.congr rfl rfl rfl rfl
  | readKeystroke => exact ⟨h.paddles, h.keyer, h.spaceOwed, h.menu, h.waiting⟩
  | readMenu =>
    have hnone : kb.queues.menu.pop? = none :=
      Ring.pop?_eq_none_iff.mpr (Ring.isEmpty_iff.mp h.menu)
    refine ⟨h.paddles, h.keyer, h.spaceOwed, ?_, h.waiting⟩
    show (kb.queues.menu.take 1).2.isEmpty = true
    rw [Ring.take_of_pop?_eq_none hnone]
    exact h.menu
  | queueEdge | register | unregister => cases hop

end Sealed

/-! ### The timetable of the repeated messages -/

/-- **What decides when messages are repeated**: the settings and the parameters in force, which the
changes of the settings go back to, the countdowns, and the clock of the minutes. -/
structure Timetable where
  settings : Settings
  inForce : Parameters
  repeater : Repeater
  now : UInt16
  minute : Option Job

/-- The timetable of a keyboard. -/
def timetable (kb : Keyboard τ) : Timetable :=
  ⟨kb.settings, kb.inForce, kb.repeater, kb.scheduler.now, kb.scheduler.job? .minute⟩

namespace Timetable

/-- Whether a minute ends with the next millisecond. -/
def endsMinute (t : Timetable) : Bool := t.minute.any (·.isDue (t.now + 1))

/-- The timetable when the clock has moved on. -/
def advance (t : Timetable) : Timetable :=
  { t with now := t.now + 1, minute := t.minute.map (·.pass (t.now + 1)) }

/-- The timetable when a minute has been counted down. -/
def countMinute (t : Timetable) : Timetable :=
  { t with repeater := (t.repeater.passMinute t.settings).2 }

/-- The timetable a millisecond later. -/
def pass (t : Timetable) : Timetable := if t.endsMinute then t.advance.countMinute else t.advance

/-- The messages that fall due in the next millisecond, if a minute ends with it. -/
def due (t : Timetable) : List (List Nat) :=
  if t.endsMinute then [(t.repeater.passMinute t.settings).1] else []

/-- The timetable after a change of the settings. -/
def change (t : Timetable) (c : Settings.Change) : Timetable :=
  { t with settings := t.settings.apply c }

/-- The timetable after a reload of the parameters. -/
def reload (t : Timetable) : Timetable := { t with inForce := t.settings.current.corrected }

end Timetable

variable {kb kb' : Keyboard τ}

theorem timetable_change (kb : Keyboard τ) (c : Settings.Change) :
    (kb.change c).timetable = kb.timetable.change c := rfl

theorem timetable_repeatMessages (kb : Keyboard τ) :
    kb.repeatMessages.timetable = kb.timetable.countMinute := by
  have hslots (kb : Keyboard τ) (slots : List Nat) :
      (slots.foldl repeatSlot kb).timetable = kb.timetable := by
    induction slots generalizing kb with
    | nil => rfl
    | cons slot slots ih => exact ih _
  rw [repeatMessages]
  dsimp only
  split
  · exact hslots _ _
  · split <;> rfl

section

variable [Ticker τ]

theorem timetable_register_output (kb : Keyboard τ) (period : UInt16) :
    { kb with scheduler := kb.scheduler.register .output period : Keyboard τ }.timetable =
      kb.timetable := by
  have hminute := kb.scheduler.job?_register_of_ne (show Slot.output ≠ .minute by decide) period
  rw [timetable, timetable, hminute]
  rfl

theorem timetable_reload (kb : Keyboard τ) : kb.reload.timetable = kb.timetable.reload := by
  rw [reload, retime]
  split
  · exact timetable_register_output _ _
  · rfl

theorem timetable_adjust (kb : Keyboard τ) (c : Settings.Change) :
    (kb.adjust c).timetable = (kb.timetable.change c).reload := by
  rw [adjust, timetable_reload, timetable_change]

theorem timetable_playTurn (kb : Keyboard τ) : kb.playTurn.timetable = kb.timetable := by
  obtain ⟨t, -, hturn⟩ := kb.exists_playTurn
  rw [hturn]
  rcases t.rate with _ | _ | _
  · rfl
  · exact timetable_register_output (kb.played t) _
  · exact timetable_register_output (kb.played t) _

/-- **A timetable goes on by itself**, if the paddles are at rest. -/
theorem timetable_tick (h : kb.Sealed) : kb.tick.2.timetable = kb.timetable.pass := by
  have hbefore : kb.beforeTurn = kb.advanceClock.2 :=
    beforeTurn_of_rest h.paddles h.keyer h.spaceOwed
  have hthrough : kb.throughTurn.timetable = kb.advanceClock.2.timetable := by
    rw [throughTurn, hbefore]
    split
    · exact timetable_playTurn _
    · rfl
  have hclock : kb.advanceClock.2.timetable = kb.timetable.advance := by
    rw [timetable, advanceClock, Scheduler.job?_tick]
    rfl
  have hdue : kb.scheduler.tick.1.contains .minute = kb.timetable.endsMinute :=
    kb.scheduler.contains_tick .minute
  rw [snd_tick, afterTurn, hdue, Timetable.pass, ← hclock, ← hthrough]
  split
  · exact timetable_repeatMessages _
  · rfl

theorem timetable_ticked (h : kb.Sealed) (n : Nat) :
    (kb.ticked n).timetable = Timetable.pass^[n] kb.timetable := by
  induction n with
  | zero => rfl
  | succ n ih =>
    rw [Function.iterate_succ_apply', ← ih]
    exact timetable_tick (h.ticked n)

theorem timetable_ticksInto (h : kb.Sealed) (fired : SlotSet) (n : Nat) :
    (kb.ticksInto fired n).2.timetable = Timetable.pass^[n] kb.timetable := by
  induction n generalizing kb fired with
  | zero => rfl
  | succ n ih =>
    rw [Function.iterate_succ_apply, ← timetable_tick h]
    exact ih h.tick _

/-- Milliseconds that are made up for are on the timetable like any others. -/
theorem timetable_makeUp (h : kb.Sealed) (n : UInt32) :
    (kb.makeUp n).2.timetable = (kb.ticked n.toNat).timetable := by
  rw [timetable_ticked h, makeUp]
  split
  -- the record of a fault is not on the timetable
  · refine (timetable_ticksInto ?_ _ _).trans rfl
    exact h.congr rfl rfl rfl rfl
  · exact timetable_ticksInto h _ _

/-- **Of two keyboards with one timetable a request makes two with one timetable.** -/
theorem timetable_handle (h : kb.timetable = kb'.timetable) {r : Request}
    (hr : r.isHousekeeping = true) : (kb.handle r).2.timetable = (kb'.handle r).2.timetable := by
  have hchange (c : Settings.Change) : (kb.change c).timetable = (kb'.change c).timetable := by
    rw [timetable_change, timetable_change, h]
  have hadjust (c : Settings.Change) : (kb.adjust c).timetable = (kb'.adjust c).timetable := by
    rw [timetable_adjust, timetable_adjust, h]
  have hinForce : kb.inForce = kb'.inForce := congrArg Timetable.inForce h
  cases r with
  | reload =>
    show kb.reload.timetable = kb'.reload.timetable
    rw [timetable_reload, timetable_reload, h]
  | storeCallsign text => exact hchange _
  | tune t => exact hadjust _
  | exchangePaddles =>
    show (kb.adjust (.left kb.inForce.left.opposite)).timetable =
      (kb'.adjust (.left kb'.inForce.left.opposite)).timetable
    rw [hinForce]
    exact hadjust _
  | changeOver enabled => exact h
  | storeMessage slot text =>
    rw [handle, handle, storeMessage, storeMessage, snd_settle_ite, snd_settle_ite]
    split
    · exact hchange _
    · exact h
  | repeatMessage slot minutes =>
    rw [handle, handle, repeatMessage, repeatMessage, snd_settle_ite, snd_settle_ite]
    split
    · exact congrArg (fun t : Timetable =>
        { t.change (.interval slot minutes) with repeater := t.repeater.restart slot }) h
    · exact h
  | recallPreset index =>
    rw [handle, handle, recallPreset, recallPreset, snd_settle_ite, snd_settle_ite]
    split
    · exact hadjust _
    · exact h
  | storePreset index =>
    rw [handle, handle, storePreset, storePreset, snd_settle_ite, snd_settle_ite]
    split
    · exact hchange _
    · exact h
  | start | send | play | playCallsign | announceOverruns | edge => cases hr

/-- **Of two keyboards with one timetable an operation makes two with one timetable.** -/
theorem timetable_operate (hkb : kb.Sealed) (hkb' : kb'.Sealed)
    (h : kb.timetable = kb'.timetable) {op : Operation} (hop : op.isHousekeeping = true) :
    (kb.operate op).timetable = (kb'.operate op).timetable := by
  cases op with
  | request r => exact timetable_handle h hop
  | tick =>
    show kb.tick.2.timetable = kb'.tick.2.timetable
    rw [timetable_tick hkb, timetable_tick hkb', h]
  | makeUp n =>
    show (kb.makeUp n).2.timetable = (kb'.makeUp n).2.timetable
    rw [timetable_makeUp hkb, timetable_makeUp hkb', timetable_ticked hkb, timetable_ticked hkb', h]
  | changeSettings c => exact congrArg (Timetable.change · c) h
  | takeSignals | readKeystroke | readMenu => exact h
  | queueEdge | register | unregister => cases hop

/-! ### Runs -/

/-- A keyboard after some operations. -/
def operated (kb : Keyboard τ) (ops : List Operation) : Keyboard τ := ops.foldl operate kb

/-- The messages that fall due in so many milliseconds: a list for each minute that ends in them. -/
def minutesIn (kb : Keyboard τ) (n : Nat) : List (List Nat) :=
  (List.range n).flatMap fun i =>
    if (kb.ticked i).scheduler.tick.1.contains .minute then [(kb.ticked i).repeatsDue] else []

/-- The messages that fall due in the course of some operations: a list for each minute that ends
meanwhile. -/
def minutes (kb : Keyboard τ) : List Operation → List (List Nat)
  | [] => []
  | op :: ops => kb.minutesIn op.millis ++ (kb.operate op).minutes ops

/-- What falls due is on the timetable. -/
theorem minutesIn_eq (h : kb.Sealed) (n : Nat) :
    kb.minutesIn n = (List.range n).flatMap fun i => (Timetable.pass^[i] kb.timetable).due := by
  rw [minutesIn]
  congr 1
  funext i
  have hdue : (kb.ticked i).scheduler.tick.1.contains .minute =
      (kb.ticked i).timetable.endsMinute := (kb.ticked i).scheduler.contains_tick .minute
  rw [← timetable_ticked h, Timetable.due, ← hdue, repeatsDue]
  split <;> rfl

theorem Sealed.operated (h : kb.Sealed) {ops : List Operation}
    (hops : ∀ op ∈ ops, op.isHousekeeping = true) : (kb.operated ops).Sealed := by
  induction ops generalizing kb with
  | nil => exact h
  | cons op ops ih =>
    exact ih (h.operate (hops op List.mem_cons_self)) fun o ho =>
      hops o (List.mem_cons_of_mem op ho)

/-- **A run has the timetable and the minutes of the run without its change-overs.** -/
theorem timetable_operated (hkb : kb.Sealed) (hkb' : kb'.Sealed)
    (h : kb.timetable = kb'.timetable) {ops : List Operation}
    (hops : ∀ op ∈ ops, op.isHousekeeping = true) :
    let rest := ops.filter fun op => !op.isChangeOver
    (kb.operated ops).timetable = (kb'.operated rest).timetable ∧
      kb.minutes ops = kb'.minutes rest := by
  induction ops generalizing kb kb' with
  | nil => exact ⟨h, rfl⟩
  | cons op ops ih =>
    have hop : op.isHousekeeping = true := hops op List.mem_cons_self
    have hrest : ∀ o ∈ ops, o.isHousekeeping = true := fun o ho =>
      hops o (List.mem_cons_of_mem op ho)
    have hnext := hkb.operate hop
    intro rest
    rcases hchange : op.isChangeOver with _ | _
    · have hrun : rest = op :: ops.filter fun op => !op.isChangeOver :=
        List.filter_cons_of_pos (by rw [hchange]; rfl)
      obtain ⟨htimetable, hminutes⟩ :=
        ih hnext (hkb'.operate hop) (timetable_operate hkb hkb' h hop) hrest
      rw [hrun]
      refine ⟨htimetable, ?_⟩
      rw [minutes, minutes, hminutes, minutesIn_eq hkb, minutesIn_eq hkb', h]
    -- a change-over leaves the timetable as it is, and no time passes in it
    · have hrun : rest = ops.filter fun op => !op.isChangeOver :=
        List.filter_cons_of_neg (by rw [hchange]; decide)
      obtain ⟨enabled, rfl⟩ := Operation.eq_of_isChangeOver hchange
      rw [hrun]
      exact ih hnext hkb' h hrest

/-- **Nothing that is repeated reaches the menu, and nothing is repeated at another time.** A new
keyboard is started, and then there is housekeeping only: time passes, texts, settings and presets
are changed, command mode is entered and left, but no paddle is touched and nobody asks for anything
to be played. The queue of the menu is empty all the time. Two such runs that differ in their
change-overs only have the same countdowns, and at each minute the same messages fall due. -/
theorem menu_and_minutes_operated (ticker : τ) (faults : FaultRegister) (settings : Settings)
    (log : Logbook) {ops : List Operation} (hops : ∀ op ∈ ops, op.isHousekeeping = true) :
    let kb := (ofParts ticker {} faults settings log).start.2
    (kb.operated ops).queues.menu.isEmpty = true ∧
      ∀ ops' : List Operation, (∀ op ∈ ops', op.isHousekeeping = true) →
        (ops'.filter fun op => !op.isChangeOver) = (ops.filter fun op => !op.isChangeOver) →
          (kb.operated ops').repeater = (kb.operated ops).repeater ∧
            kb.minutes ops' = kb.minutes ops := by
  intro kb
  have hnew : ({ queues := {}, faults, settings, log, scheduler := .ofTicker ticker } :
      Keyboard τ).Sealed := ⟨rfl, rfl, rfl, rfl, fun _ => ⟨rfl, rfl⟩⟩
  have hkb : kb.Sealed := hnew.reload.start
  refine ⟨(hkb.operated hops).menu, ?_⟩
  intro ops' hops' hsame
  obtain ⟨htimetable, hminutes⟩ := timetable_operated hkb hkb rfl hops
  obtain ⟨htimetable', hminutes'⟩ := timetable_operated hkb hkb rfl hops'
  rw [hsame] at htimetable' hminutes'
  exact ⟨congrArg Timetable.repeater (htimetable'.trans htimetable.symm),
    hminutes'.trans hminutes.symm⟩

end

/-- A message is repeated every minute, and in the middle of the first one the keyboard enters
command mode. -/
theorem menu_and_minutes_operated_begun :
    let store : List Operation :=
      [.request (.storeMessage 0 "cq"), .request (.repeatMessage 0 1)]
    let half := List.replicate 30000 Operation.tick
    let visited := store ++ half ++ [.request (.changeOver true)] ++ half
    (begun.operated visited).queues.menu.isEmpty = true ∧
      begun.minutes (store ++ half ++ half) = begun.minutes visited := by
  intro store half visited
  have hstore : ∀ op ∈ store, op.isHousekeeping = true := by
    simp [store, Operation.isHousekeeping, Request.isHousekeeping]
  have hhalf : ∀ op ∈ half, op.isHousekeeping = true := by
    intro op hop
    rw [List.eq_of_mem_replicate hop]
    rfl
  clear_value half
  have hvisited : ∀ op ∈ visited, op.isHousekeeping = true := by
    simp only [visited, List.forall_mem_append, List.forall_mem_singleton]
    exact ⟨⟨⟨hstore, hhalf⟩, rfl⟩, hhalf⟩
  have hrest : ∀ op ∈ store ++ half ++ half, op.isHousekeeping = true := by
    simp only [List.forall_mem_append]
    exact ⟨⟨hstore, hhalf⟩, hhalf⟩
  have hrun := menu_and_minutes_operated PolledTicker.free .fresh .standard .empty hvisited
  refine ⟨hrun.1, (hrun.2 _ hrest ?_).2⟩
  simp [visited, Operation.isChangeOver]

end Keyboard

end MorseKeyboard
