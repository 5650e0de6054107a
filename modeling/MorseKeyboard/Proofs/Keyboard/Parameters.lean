import Mathlib.Data.List.Induction
import MorseKeyboard.Proofs.Keyboard.Events
import MorseKeyboard.Proofs.Keyboard.Paddling
import MorseKeyboard.Proofs.Settings

/-!
# The parameters in force

Four parameters of keying are kept in four places: in the settings, in the copy that the keyboard
works with, in the keyer, and, as far as the sidetone is concerned, in the output device. A keyboard
is *in tune* if they all say the same (`MorseKeyboard.Keyboard.InTune`). **It is in tune from the
day it is built**, and every operation leaves it in tune: one that changes the current parameters
ends with a reload, and a reload brings everything in line with the settings, whatever it was before
(`MorseKeyboard.Keyboard.inTune_reload`).

A reload takes over the parameters as they are corrected. This makes no difference, for **the
settings never hold a parameter that would have to be corrected**
(`MorseKeyboard.Settings.InRange.apply`): what is rejected is replaced or left out on its way into
the settings already, in the presets as well.

Of the output device nothing is known but what it was told. The pitch of the sidetone is that of the
last signal that sets one (`MorseKeyboard.lastPitch?`).
-/

namespace MorseKeyboard

/-! ### The pitch of the output device -/

/-- The pitch that a signal sets, if it sets one. -/
def Signal.pitch? : Signal → Option Nat
  | tone hz => some hz
  | _ => none

/-- The pitch that was set last. -/
def lastPitch? (signals : List Signal) : Option Nat := (signals.filterMap Signal.pitch?).getLast?

theorem lastPitch?_append (signals more : List Signal) :
    lastPitch? (signals ++ more) = (lastPitch? more).or (lastPitch? signals) := by
  rw [lastPitch?, List.filterMap_append, List.getLast?_append, lastPitch?, lastPitch?]

/-- A turn of the output plays symbols and delivers text, and sets no pitch. -/
theorem lastPitch?_turn {s : Sender} {t : Sender.Turn} (h : Sender.Effect s t) (target : Target) :
    lastPitch? (t.signals ++ t.bytes.map (.delivered target)) = none := by
  have hdelivered : lastPitch? (t.bytes.map (.delivered target)) = none := by
    simp [lastPitch?, Signal.pitch?, List.filterMap_map, Function.comp_def]
  rw [lastPitch?_append, hdelivered, Option.none_or]
  cases h with
  | rest _ _ hsignals | hold _ _ hsignals | lift _ _ hsignals => rw [hsignals]; rfl
  | @strike x _ _ hsignals =>
    rw [hsignals]
    cases x <;> rfl

/-! ### The keyer -/

/-- **A keyer that works with these parameters.** -/
structure Keyer.Follows (k : Keyer) (p : Parameters) : Prop where
  speed : k.speed = .ofWpm p.wpm
  mode : k.mode = p.mode
  left : k.left = p.left

/-- No input changes what a keyer works with. -/
theorem Keyer.Follows.step {k : Keyer} {p : Parameters} (h : k.Follows p) (i : Keyer.Input) :
    (k.step i).2.Follows p :=
  ⟨by rw [speed_step, h.speed], by rw [mode_step, h.mode], by rw [left_step, h.left]⟩

namespace Keyboard

variable {τ : Type}

/-! ### Keyboards in tune -/

/-- **All places where the parameters are kept say the same**, and the settings are in range. -/
structure InTune (kb : Keyboard τ) : Prop where
  settings : kb.settings.InRange
  inForce : kb.inForce = kb.settings.current
  keyer : kb.keyer.Follows kb.settings.current

/-- A keyboard stays in tune as long as the current parameters are the same. -/
theorem InTune.congr {kb kb' : Keyboard τ} (h : kb.InTune) (hsettings : kb'.settings.InRange)
    (hcurrent : kb'.settings.current = kb.settings.current) (hinForce : kb'.inForce = kb.inForce)
    (hkeyer : kb'.keyer = kb.keyer) : kb'.InTune :=
  ⟨hsettings, by rw [hinForce, hcurrent, h.inForce], by rw [hkeyer, hcurrent]; exact h.keyer⟩

/-- **A keyboard is left in tune, with these signals**: the last pitch among them is that of the
settings, or there is none and the current parameters are what they were. -/
structure Tunes (kb kb' : Keyboard τ) (signals : List Signal) : Prop where
  inTune : kb'.InTune
  outbox : kb'.outbox.toList = kb.outbox.toList ++ signals
  pitch : lastPitch? signals = none ∧ kb'.settings.current = kb.settings.current ∨
    lastPitch? signals = some kb'.settings.current.hz

namespace Tunes

variable {kb kb' kb'' : Keyboard τ} {signals more : List Signal}

/-- What leaves alone the current parameters and the outbox. -/
theorem nothing (h : kb'.InTune) (houtbox : kb'.outbox = kb.outbox)
    (hcurrent : kb'.settings.current = kb.settings.current) : kb.Tunes kb' [] :=
  ⟨h, by rw [houtbox, List.append_nil], Or.inl ⟨rfl, hcurrent⟩⟩

theorem trans (h : kb.Tunes kb' signals) (h' : kb'.Tunes kb'' more) :
    kb.Tunes kb'' (signals ++ more) where
  inTune := h'.inTune
  outbox := by rw [h'.outbox, h.outbox, List.append_assoc]
  pitch := by
    rw [lastPitch?_append]
    rcases h'.pitch with ⟨hmore, hcurrent⟩ | hmore
    · rw [hmore, hcurrent, Option.none_or]
      exact h.pitch
    · exact Or.inr (by rw [hmore, Option.some_or])

/-- The pitch of the output device is that of the settings afterwards, if it was before. -/
theorem lastPitch?_eq (h : kb.Tunes kb' signals) {before : List Signal}
    (hbefore : lastPitch? before = some kb.settings.current.hz) :
    lastPitch? (before ++ signals) = some kb'.settings.current.hz := by
  rw [lastPitch?_append]
  rcases h.pitch with ⟨hnone, hcurrent⟩ | hsome
  · rw [hnone, Option.none_or, hbefore, hcurrent]
  · rw [hsome, Option.some_or]

end Tunes

section

variable {kb kb' : Keyboard τ}

/-- What sets no parameter and signals nothing leaves a keyboard in tune. -/
theorem InTune.untouched (h : kb.InTune) (hsettings : kb'.settings = kb.settings)
    (hinForce : kb'.inForce = kb.inForce) (hkeyer : kb'.keyer = kb.keyer)
    (houtbox : kb'.outbox = kb.outbox) : ∃ signals, kb.Tunes kb' signals :=
  ⟨[], .nothing (h.congr (hsettings ▸ h.settings) (by rw [hsettings]) hinForce hkeyer) houtbox
    (by rw [hsettings])⟩

/-- A change need not be put into force if it leaves the current parameters alone. -/
theorem InTune.change (h : kb.InTune) (c : Settings.Change) (repeater : Repeater)
    (hc : (kb.settings.apply c).current = kb.settings.current) :
    ∃ signals, kb.Tunes { kb.change c with repeater } signals :=
  ⟨[], .nothing (h.congr (h.settings.apply c) hc rfl rfl) rfl hc⟩

/-- A request that may be refused leaves a keyboard in tune if it does when it is accepted. -/
theorem InTune.settle (h : kb.InTune) {accepted : Prop} [Decidable accepted] {refusal : Refusal}
    (haccepted : ∃ signals, kb.Tunes kb' signals) :
    ∃ signals, kb.Tunes (kb.settle (if accepted then .ok kb' else .error refusal)).2 signals := by
  rw [snd_settle_ite]
  split
  · exact haccepted
  · exact h.untouched rfl rfl rfl rfl

end

/-! ### Milliseconds -/

theorem inForce_foldl_paddle (kb : Keyboard τ) (edges : List Edge) :
    (edges.foldl paddle kb).inForce = kb.inForce := by
  induction edges generalizing kb with
  | nil => rfl
  | cons e edges ih => exact ih _

theorem inForce_beforeTurn (kb : Keyboard τ) : kb.beforeTurn.inForce = kb.inForce := by
  have hedges : kb.applyEdges.inForce = kb.inForce := inForce_foldl_paddle _ _
  rw [beforeTurn]
  split
  · exact hedges
  · exact hedges

theorem inForce_repeatMessages (kb : Keyboard τ) : kb.repeatMessages.inForce = kb.inForce := by
  have hslots (kb : Keyboard τ) (slots : List Nat) :
      (slots.foldl repeatSlot kb).inForce = kb.inForce := by
    induction slots generalizing kb with
    | nil => rfl
    | cons slot slots ih => exact ih _
  rw [repeatMessages]
  dsimp only
  split
  · exact hslots _ _
  · split <;> rfl

variable [Ticker τ] {kb kb' : Keyboard τ}

theorem inForce_tick (kb : Keyboard τ) : kb.tick.2.inForce = kb.inForce := by
  have hthrough : kb.throughTurn.inForce = kb.inForce := by
    rw [throughTurn]
    split
    · obtain ⟨t, -, hturn⟩ := kb.beforeTurn.exists_playTurn
      rw [hturn, setRate_eq]
      exact inForce_beforeTurn kb
    · exact inForce_beforeTurn kb
  rw [snd_tick, afterTurn]
  split
  · rw [inForce_repeatMessages, hthrough]
  · exact hthrough

/-- **A millisecond sets no parameter.** -/
theorem InTune.tick (h : kb.InTune) : ∃ signals, kb.Tunes kb.tick.2 signals := by
  have hnext : kb.tick.2.InTune :=
    { settings := by rw [settings_tick]; exact h.settings
      inForce := by rw [inForce_tick, settings_tick, h.inForce]
      keyer := by
        rw [settings_tick]
        exact keyer_tick_induction (P := fun k => k.Follows kb.settings.current)
          (fun _ i hk => hk.step i) h.keyer }
  have hcurrent : kb.tick.2.settings.current = kb.settings.current := by rw [settings_tick]
  rcases hdue : kb.scheduler.tick.1.contains .output with _ | _
  · exact ⟨[], .nothing hnext (aside_tick_of_not_due hdue).outbox hcurrent⟩
  · obtain ⟨t, hturn⟩ := exists_turns hdue
    exact ⟨_, hnext, hturn.does.outbox, Or.inl ⟨lastPitch?_turn hturn.call.effect _, hcurrent⟩⟩

theorem InTune.makeUp (h : kb.InTune) (n : UInt32) :
    ∃ signals, kb.Tunes (kb.makeUp n).2 signals := by
  refine makeUp_induction (P := fun kb' => ∃ signals, kb.Tunes kb' signals) ?_ ?_
    ⟨[], .nothing h rfl rfl⟩ n
  · rintro kb' ⟨signals, htunes⟩
    obtain ⟨more, hmore⟩ := htunes.inTune.tick
    exact ⟨_, htunes.trans hmore⟩
  · rintro kb' faults log ⟨signals, htunes⟩
    obtain ⟨more, hmore⟩ : ∃ more, kb'.Tunes { kb' with faults, log } more :=
      htunes.inTune.untouched rfl rfl rfl rfl
    exact ⟨_, htunes.trans hmore⟩

/-! ### Requests -/

/-- **A reload brings everything in line with the settings**, whatever it was before. -/
theorem inTune_reload (kb : Keyboard τ) (h : kb.settings.InRange) :
    kb.reload.InTune ∧ kb.reload.settings = kb.settings ∧
      kb.reload.outbox.toList = kb.outbox.toList ++ [.tone kb.settings.current.hz] := by
  have hcorrected := h.current.corrected_eq
  have hsettings : kb.reload.settings = kb.settings := by
    rw [reload, retime]
    split <;> rfl
  have hinForce : kb.reload.inForce = kb.settings.current := by
    rw [reload, retime, hcorrected]
    split <;> rfl
  have hkeyer : kb.reload.keyer.Follows kb.settings.current := by
    rw [keyer_reload, hcorrected, Keyer.withLeft, if_pos h.current.left]
    exact ⟨rfl, rfl, rfl⟩
  refine ⟨⟨hsettings ▸ h, hsettings ▸ hinForce, hsettings ▸ hkeyer⟩, hsettings, ?_⟩
  rw [(does_reload kb).outbox, hcorrected]

/-- **A change that is put into force leaves the keyboard in tune.** -/
theorem InTune.adjust (h : kb.InTune) (c : Settings.Change) :
    ∃ signals, kb.Tunes (kb.adjust c) signals := by
  have hsettings : (kb.change c).settings.InRange := h.settings.apply c
  obtain ⟨hreload, hkept, houtbox⟩ := inTune_reload _ hsettings
  refine ⟨_, hreload, houtbox, Or.inr ?_⟩
  rw [Keyboard.adjust, hkept]
  rfl

theorem InTune.start (h : kb.InTune) : ∃ signals, kb.Tunes kb.start.2 signals := by
  rw [Keyboard.start]
  split
  · exact ⟨[], .nothing (h.congr h.settings rfl rfl rfl) rfl rfl⟩
  · refine ⟨[.tone kb.inForce.hz], h.congr h.settings rfl rfl rfl, Array.toList_push, Or.inr ?_⟩
    rw [h.inForce]
    rfl

/-- **Every request leaves the keyboard in tune**, also one with an argument that is rejected. -/
theorem InTune.handle (h : kb.InTune) (r : Request) :
    ∃ signals, kb.Tunes (kb.handle r).2 signals := by
  cases r with
  | start => exact h.start
  | reload =>
    obtain ⟨hreload, hkept, houtbox⟩ := inTune_reload kb h.settings
    exact ⟨_, hreload, houtbox, Or.inr (hkept ▸ rfl)⟩
  | tune t => exact h.adjust t.toChange
  | exchangePaddles => exact h.adjust _
  | recallPreset index => exact h.settle (h.adjust (.recall index))
  | storePreset index =>
    refine h.settle (h.change (.store index) kb.repeater ?_)
    rw [Settings.apply]
    split <;> rfl
  | storeMessage slot text => exact h.settle (h.change (.message slot text) kb.repeater rfl)
  | repeatMessage slot minutes => exact h.settle (h.change (.interval slot minutes) _ rfl)
  | storeCallsign text => exact h.change (.callsign text) kb.repeater rfl
  | play slot =>
    have hplayed : ∃ signals, kb.Tunes (kb.playSlot slot) signals := h.untouched rfl rfl rfl rfl
    exact h.settle hplayed
  | send | playCallsign | changeOver => exact h.untouched rfl rfl rfl rfl
  | announceOverruns =>
    show ∃ signals, kb.Tunes kb.announceOverruns signals
    rw [announceOverruns]
    dsimp only
    split <;> exact h.untouched rfl rfl rfl rfl
  | edge e =>
    refine ⟨[], .nothing ⟨h.settings, h.inForce, ?_⟩ rfl rfl⟩
    show (kb.paddle e).keyer.Follows kb.settings.current
    rw [keyer_paddle]
    exact h.keyer.step _

/-! ### Events -/

/-- What an event adds to the outbox are its signals. -/
theorem Tunes.newSignals {e : Event τ} (h : ∃ signals, kb.Tunes (kb.undergo e) signals) :
    kb.Tunes (kb.undergo e) (kb.newSignals e) := by
  obtain ⟨signals, htunes⟩ := h
  rw [newSignals_of_outbox htunes.outbox]
  exact htunes

/-- **Every event leaves the keyboard in tune**, except that the owner of the settings changes
them. -/
theorem InTune.undergo (h : kb.InTune) {e : Event τ} (he : e.changesSettings = false)
    {before : List Signal} (hbefore : lastPitch? before = some kb.settings.current.hz) :
    (kb.undergo e).InTune ∧
      lastPitch? (before ++ kb.newSignals e) = some (kb.undergo e).settings.current.hz := by
  -- taking the signals out is the one event that does not add to the outbox
  by_cases htake : e = .act (.operate .takeSignals)
  · subst htake
    rw [newSignals_takeSignals, List.append_nil]
    exact ⟨h.congr h.settings rfl rfl rfl, hbefore⟩
  suffices hadds : ∃ signals, kb.Tunes (kb.undergo e) signals from
    ⟨(Tunes.newSignals hadds).inTune, (Tunes.newSignals hadds).lastPitch?_eq hbefore⟩
  cases e with
  | share => exact h.untouched rfl rfl rfl rfl
  | act a =>
    cases a with
    | reschedule => exact h.untouched rfl rfl rfl rfl
    | operate op =>
      cases op with
      | request r => exact h.handle r
      | tick => exact h.tick
      | makeUp n => exact h.makeUp n
      | changeSettings => cases he
      | takeSignals => exact absurd rfl htake
      | register | unregister =>
        rw [Keyboard.undergo, act, operate]
        split <;> exact h.untouched rfl rfl rfl rfl
      | queueEdge | readKeystroke | readMenu => exact h.untouched rfl rfl rfl rfl

theorem InTune.after (h : kb.InTune) {events : List (Event τ)}
    (hevents : ∀ e ∈ events, e.changesSettings = false) {before : List Signal}
    (hbefore : lastPitch? before = some kb.settings.current.hz) :
    (kb.after events).InTune ∧
      lastPitch? (before ++ kb.signals events) = some (kb.after events).settings.current.hz := by
  induction events using List.reverseRecOn with
  | nil => exact ⟨h, by rw [signals, List.append_nil]; exact hbefore⟩
  | append_singleton events e ih =>
    obtain ⟨hinTune, hpitch⟩ := ih fun e he => hevents e (List.mem_append_left _ he)
    rw [after_concat, signals_concat, ← List.append_assoc]
    exact hinTune.undergo (hevents e (List.mem_append_right _ (List.mem_singleton_self e))) hpitch

/-- **The parameters never drift apart.** A keyboard is built, over settings that were changed in
any way before, and anything may happen to it except that the owner of the settings changes them
behind its back. At any time then the keyer works with the speed, the mode and the left paddle of
the settings; the copy of the keyboard is what the settings say; the sidetone was last set to the
pitch of the settings; and all of this is in range. -/
theorem parameters_after (ticker : τ) (queues : Queues) (faults : FaultRegister)
    (changes : List Settings.Change) (log : Logbook) {events : List (Event τ)}
    (hevents : ∀ e ∈ events, e.changesSettings = false) :
    let kb := ofParts ticker queues faults (changes.foldl Settings.apply .standard) log
    let last := kb.after events
    let p := last.settings.current
    last.keyer.speed = .ofWpm p.wpm ∧ last.keyer.mode = p.mode ∧ last.keyer.left = p.left ∧
      last.inForce = p ∧ lastPitch? (kb.outbox.toList ++ kb.signals events) = some p.hz ∧
      (3 ≤ p.wpm ∧ p.wpm ≤ 99) ∧ (80 ≤ p.hz ∧ p.hz ≤ 8000) ∧ p.left.isElement = true := by
  intro kb last p
  let parts : Keyboard τ :=
    { queues, faults, settings := changes.foldl Settings.apply .standard, log,
      scheduler := .ofTicker ticker }
  obtain ⟨hbuilt, hkept, houtbox⟩ := inTune_reload parts (Settings.inRange_foldl changes)
  have hfirst : lastPitch? kb.outbox.toList = some kb.settings.current.hz := by
    rw [show kb.outbox.toList = _ from houtbox, show kb.settings = _ from hkept]
    rfl
  obtain ⟨hinTune, hpitch⟩ := hbuilt.after hevents hfirst
  exact ⟨hinTune.keyer.speed, hinTune.keyer.mode, hinTune.keyer.left, hinTune.inForce, hpitch,
    hinTune.settings.current.wpm, hinTune.settings.current.hz, hinTune.settings.current.left⟩

/-- A speed and a pitch out of range are asked for, a space for the left paddle and a preset that
does not exist; the paddles are exchanged, and the signals are taken out. The fallbacks are in force
everywhere. -/
theorem parameters_after_rejected :
    let requests : List Request :=
      [.start, .tune (.wpm 200), .tune (.hz 79), .tune (.left .space), .exchangePaddles,
        .recallPreset 10, .tune (.mode .iambicB)]
    let events : List (Event PolledTicker) :=
      (requests.map fun r => .act (.operate (.request r))) ++ [.act (.operate .takeSignals)]
    let kb := ofParts PolledTicker.free {} .fresh ([.hz 700].foldl Settings.apply .standard) .empty
    let last := kb.after events
    last.settings.current = { wpm := 13, mode := .iambicB, left := .dah, hz := 220 } ∧
      last.keyer.speed = .ofWpm 13 ∧ last.keyer.left = .dah ∧
      lastPitch? (kb.outbox.toList ++ kb.signals events) = some 220 := by
  intro requests events kb last
  have hevents : ∀ e ∈ events, e.changesSettings = false := by decide
  have hcurrent : last.settings.current =
      { wpm := 13, mode := .iambicB, left := .dah, hz := 220 } := by decide +kernel
  clear_value events
  obtain ⟨(hspeed : last.keyer.speed = .ofWpm last.settings.current.wpm), -,
      (hleft : last.keyer.left = last.settings.current.left), -,
      (hpitch : lastPitch? (kb.outbox.toList ++ kb.signals events) =
        some last.settings.current.hz), -⟩ :=
    parameters_after PolledTicker.free {} .fresh [.hz 700] .empty hevents
  rw [hcurrent] at hspeed hleft hpitch
  exact ⟨hcurrent, hspeed, hleft, hpitch⟩

end Keyboard

end MorseKeyboard
