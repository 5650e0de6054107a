import MorseKeyboard.Proofs.Keyboard.Jobs

/-!
# A keyboard that cannot start

A keyboard whose ticker belongs to somebody else does not start, however often it is asked to. It
can still be told everything that a started keyboard can be told: texts are queued, paddles are
pressed, parameters are set. **None of this is heard.** Symbols are taken up, keyed and delivered in
turns of the output only, and there are none as long as the output is not scheduled
(`MorseKeyboard.Keyboard.mute_operate`); and nothing schedules it but a start
(`MorseKeyboard.Keyboard.steady_after`). So all that such a keyboard ever does is to set the pitch
of its sidetone (`MorseKeyboard.Keyboard.silent_after`).
-/

namespace MorseKeyboard.Keyboard

variable {τ : Type}

/-! ### What happens without a turn of the output -/

/-- **Between these two states a keyboard did nothing but set the pitch of its sidetone**, and
delivered nothing. -/
structure Mute (kb kb' : Keyboard τ) : Prop where
  outbox : ∃ pitches : List Nat, kb'.outbox.toList = kb.outbox.toList ++ pitches.map .tone
  keystrokes : kb'.queues.keystrokes = kb.queues.keystrokes
  menu : kb'.queues.menu = kb.queues.menu

namespace Mute

variable {kb kb' kb'' : Keyboard τ}

/-- What leaves alone the outbox and the queues of decoded text. -/
theorem nothing (houtbox : kb'.outbox = kb.outbox)
    (hkeystrokes : kb'.queues.keystrokes = kb.queues.keystrokes)
    (hmenu : kb'.queues.menu = kb.queues.menu) : kb.Mute kb' :=
  ⟨⟨[], by rw [houtbox]; exact (List.append_nil _).symm⟩, hkeystrokes, hmenu⟩

theorem refl (kb : Keyboard τ) : kb.Mute kb := nothing rfl rfl rfl

theorem trans (h : kb.Mute kb') (h' : kb'.Mute kb'') : kb.Mute kb'' := by
  obtain ⟨pitches, houtbox⟩ := h.outbox
  obtain ⟨more, hmore⟩ := h'.outbox
  refine ⟨⟨pitches ++ more, ?_⟩, h'.keystrokes.trans h.keystrokes, h'.menu.trans h.menu⟩
  rw [hmore, houtbox, List.map_append, List.append_assoc]

theorem of_aside (h : kb.Aside kb') : kb.Mute kb' := nothing h.outbox h.keystrokes h.menu

end Mute

/-- What sets pitches only is not heard. -/
theorem Does.mute {kb kb' : Keyboard τ} {pitches : List Nat}
    (h : kb.Does kb' (pitches.map .tone)) : kb.Mute kb' := by
  have houtput : (pitches.map Signal.tone).all Signal.isOutput = true := by simp [Signal.isOutput]
  refine ⟨⟨pitches, h.outbox⟩, ?_, ?_⟩
  · rw [h.routes.keystrokes, Entry.foldl_onQueue_output _ _ houtput]
  · rw [h.routes.menu, Entry.foldl_onQueue_output _ _ houtput]

variable [Ticker τ] {kb : Keyboard τ}

/-- **No request is heard by itself.** -/
theorem mute_handle (kb : Keyboard τ) (r : Request) : kb.Mute (kb.handle r).2 := by
  by_cases hr : ∃ enabled, r = .changeOver enabled
  · obtain ⟨enabled, rfl⟩ := hr
    exact .nothing rfl rfl rfl
  · obtain ⟨pitches, h⟩ := does_handle kb (not_exists.mp hr)
    exact h.mute

/-- **A millisecond is not heard if the output is not scheduled.** -/
theorem mute_tick (h : kb.scheduler.isOccupied .output = false) : kb.Mute kb.tick.2 := by
  have hclock : kb.Mute kb.advanceClock.2 := .nothing rfl rfl rfl
  exact hclock.trans (.of_aside (aside_tick_of_not_due (Scheduler.contains_tick_of_free h)))

theorem mute_makeUp (h : kb.scheduler.isOccupied .output = false) (n : UInt32) :
    kb.Mute (kb.makeUp n).2 := by
  refine (makeUp_induction (P := fun kb' =>
    kb'.scheduler.isOccupied .output = false ∧ kb.Mute kb') ?_ ?_ ⟨h, .refl kb⟩ n).2
  · rintro kb' ⟨hfree, hmute⟩
    exact ⟨((steady_tick kb').occupied .output).trans hfree, hmute.trans (mute_tick hfree)⟩
  · rintro kb' faults log ⟨hfree, hmute⟩
    exact ⟨hfree, hmute.trans (.nothing rfl rfl rfl)⟩

/-- Whether an operation takes something out of the keyboard. -/
def Operation.isReading : Operation → Bool
  | readKeystroke | readMenu | takeSignals => true
  | _ => false

/-- **No operation is heard if the output is not scheduled.** -/
theorem mute_operate (h : kb.scheduler.isOccupied .output = false) {op : Operation}
    (hop : op.isReading = false) : kb.Mute (kb.operate op) := by
  cases op with
  | request r => exact mute_handle kb r
  | tick => exact mute_tick h
  | makeUp n => exact mute_makeUp h n
  | queueEdge | changeSettings => exact .nothing rfl rfl rfl
  | register | unregister =>
    rw [operate]
    split
    · exact .refl kb
    · exact .nothing rfl rfl rfl
  | readKeystroke | readMenu | takeSignals => cases hop

/-- Without a turn of the output a queue of decoded text changes only when it is read. -/
theorem queues_operate (h : kb.scheduler.isOccupied .output = false) (op : Operation) :
    (op ≠ .readKeystroke → (kb.operate op).queues.keystrokes = kb.queues.keystrokes) ∧
      (op ≠ .readMenu → (kb.operate op).queues.menu = kb.queues.menu) := by
  rcases hop : op.isReading with _ | _
  · have hmute := mute_operate h hop
    exact ⟨fun _ => hmute.keystrokes, fun _ => hmute.menu⟩
  · cases op with
    | readKeystroke => exact ⟨fun hne => absurd rfl hne, fun _ => rfl⟩
    | readMenu => exact ⟨fun _ => rfl, fun hne => absurd rfl hne⟩
    | takeSignals => exact ⟨fun _ => rfl, fun _ => rfl⟩
    | _ => cases hop

/-- Without a turn of the output a keyboard signals nothing but pitches. -/
theorem exists_tone_of_mem_newSignals (h : kb.scheduler.isOccupied .output = false) {e : Event τ}
    {s : Signal} (hs : s ∈ kb.newSignals e) : ∃ hz, s = .tone hz := by
  -- most events only add pitches to the outbox, and the others leave it alone or empty it
  have hadds (pitches : List Nat)
      (hadded : (kb.undergo e).outbox.toList = kb.outbox.toList ++ pitches.map .tone) :
      ∃ hz, s = .tone hz := by
    rw [newSignals_of_outbox hadded] at hs
    obtain ⟨hz, -, rfl⟩ := List.mem_map.mp hs
    exact ⟨hz, rfl⟩
  have hkeeps (houtbox : (kb.undergo e).outbox = kb.outbox) : ∃ hz, s = .tone hz :=
    hadds [] (by rw [houtbox]; exact (List.append_nil _).symm)
  cases e with
  | share => exact hkeeps rfl
  | act a =>
    cases a with
    | reschedule => exact hkeeps rfl
    | operate op =>
      rcases hop : op.isReading with _ | _
      · obtain ⟨pitches, hadded⟩ := (mute_operate h hop).outbox
        exact hadds pitches hadded
      · cases op with
        | readKeystroke | readMenu => exact hkeeps rfl
        | takeSignals =>
          rw [newSignals_takeSignals] at hs
          cases hs
        | _ => cases hop

/-! ### Slots that are handed back -/

/-- **A keyboard without any job hands no slot back.** -/
theorem fst_tick_of_free (h : ∀ slot, kb.scheduler.isOccupied slot = false) :
    kb.tick.1 = .empty := by
  refine SlotSet.ext_contains fun slot => ?_
  rw [contains_fst_tick, Scheduler.contains_tick_of_free (h slot), Bool.false_and,
    SlotSet.contains_empty]

theorem fst_ticksInto_of_free (h : ∀ slot, kb.scheduler.isOccupied slot = false)
    (fired : SlotSet) (n : Nat) : (kb.ticksInto fired n).1 = fired := by
  induction n generalizing kb fired with
  | zero => rfl
  | succ n ih =>
    have hnext (slot : Slot) : kb.tick.2.scheduler.isOccupied slot = false :=
      ((steady_tick kb).occupied slot).trans (h slot)
    show (kb.tick.2.ticksInto (fired.union kb.tick.1) n).1 = fired
    rw [ih hnext, fst_tick_of_free h]
    refine SlotSet.ext_contains fun slot => ?_
    rw [SlotSet.contains_union, SlotSet.contains_empty, Bool.or_false]

theorem fst_makeUp_of_free (h : ∀ slot, kb.scheduler.isOccupied slot = false) (n : UInt32) :
    (kb.makeUp n).1 = .empty := by
  refine fst_ticksInto_of_free (fun slot => ?_) _ _
  split
  · exact h slot
  · exact h slot

/-! ### A ticker that belongs to somebody else -/

/-- **A start is refused, recorded as a fault and logged, and changes nothing else.** -/
theorem start_of_claim_eq_none (h : Ticker.claim kb.scheduler.ticker = none) :
    kb.start = (.error .tickerInUse,
      { kb with faults := kb.faults.raise .tickerInUse 0 }.error
        ["keyboard: ", Refusal.tickerInUse.text]) := by
  rw [start, Scheduler.claim, h]

theorem not_starts_of_claim_eq_none (h : Ticker.claim kb.scheduler.ticker = none) (e : Event τ) :
    ¬kb.Starts e := by
  rintro ⟨-, hok⟩
  rw [start_of_claim_eq_none h] at hok
  cases hok

/-- **A keyboard that cannot start stays without jobs**, and its ticker is asked for nothing. -/
theorem steady_after (h : Ticker.claim kb.scheduler.ticker = none) {events : List (Event τ)}
    (hevents : ∀ e ∈ events, e.isScheduling = false) :
    kb.scheduler.Steady (kb.after events).scheduler := by
  induction events using List.reverseRecOn with
  | nil => exact .refl _
  | append_singleton events e ih =>
    have hbefore := ih fun e he => hevents e (List.mem_append_left _ he)
    have hclaim : Ticker.claim (kb.after events).scheduler.ticker = none := by
      rw [hbefore.ticker, h]
    rw [after_concat]
    exact hbefore.trans (steady_undergo
      (hevents e (List.mem_append_right _ (List.mem_singleton_self e)))
      (not_starts_of_claim_eq_none hclaim e))

/-- All that is signalled is pitches. -/
theorem exists_tone_of_mem_signals (h : Ticker.claim kb.scheduler.ticker = none)
    (hfree : kb.scheduler.isOccupied .output = false) {events : List (Event τ)}
    (hevents : ∀ e ∈ events, e.isScheduling = false) {s : Signal} (hs : s ∈ kb.signals events) :
    ∃ hz, s = .tone hz := by
  induction events using List.reverseRecOn with
  | nil => cases hs
  | append_singleton events e ih =>
    have hearlier : ∀ e ∈ events, e.isScheduling = false := fun e he =>
      hevents e (List.mem_append_left _ he)
    rw [signals_concat] at hs
    rcases List.mem_append.mp hs with hs | hs
    · exact ih hearlier hs
    · exact exists_tone_of_mem_newSignals
        (((steady_after h hearlier).occupied .output).trans hfree) hs

/-- **A keyboard that cannot start is silent.** It is built over a ticker that cannot be claimed,
and anything may happen to it except that others schedule something. At any time then a start is
refused, with a fault on record that has no detail, a line in the log and nothing else changed; no
slot holds a job, and the ticker is as it was given; no slot is handed back, in one millisecond or
in many; all that the keyboard has signalled is the pitch of its sidetone, so no symbol was taken
up, no key was moved and nothing was delivered; and no operation puts anything into the queue of the
host or that of the menu. -/
theorem silent_after (ticker : τ) (hticker : Ticker.claim ticker = none) (queues : Queues)
    (faults : FaultRegister) (settings : Settings) (log : Logbook) {events : List (Event τ)}
    (hevents : ∀ e ∈ events, e.isScheduling = false) :
    let kb := ofParts ticker queues faults settings log
    let last := kb.after events
    last.start = (.error .tickerInUse,
        { last with faults := last.faults.raise .tickerInUse 0 }.error
          ["keyboard: ", Refusal.tickerInUse.text]) ∧
      (∀ slot, last.scheduler.job? slot = none) ∧ last.scheduler.ticker = ticker ∧
      last.tick.1 = .empty ∧ (∀ n, (last.makeUp n).1 = .empty) ∧
      (∀ s ∈ kb.outbox.toList ++ kb.signals events, ∃ hz, s = .tone hz) ∧
      ∀ op, (op ≠ .readKeystroke → (last.operate op).queues.keystrokes = last.queues.keystrokes) ∧
        (op ≠ .readMenu → (last.operate op).queues.menu = last.queues.menu) := by
  intro kb last
  have hbuilt := steady_ofParts ticker queues faults settings log
  have hkb : Ticker.claim kb.scheduler.ticker = none := by rw [hbuilt.ticker]; exact hticker
  have hsteady := hbuilt.trans (steady_after hkb hevents)
  have hfree (slot : Slot) : last.scheduler.isOccupied slot = false :=
    (hsteady.occupied slot).trans (isOccupied_ofTicker ticker slot)
  have hclaim : Ticker.claim last.scheduler.ticker = none := by
    rw [hsteady.ticker]
    exact hticker
  refine ⟨start_of_claim_eq_none hclaim, fun slot => ?_, hsteady.ticker, fst_tick_of_free hfree,
    fst_makeUp_of_free hfree, ?_, queues_operate (hfree .output)⟩
  · exact Option.isNone_iff_eq_none.mp (Option.isSome_eq_false_iff.mp (hfree slot))
  · intro s hs
    rcases List.mem_append.mp hs with hs | hs
    -- building the keyboard has set the pitch already
    · have hbegin := does_reload
        ({ queues, faults, settings, log, scheduler := .ofTicker ticker } : Keyboard τ)
      rw [show kb.outbox.toList = [] ++ [_] from hbegin.outbox] at hs
      exact ⟨_, List.mem_singleton.mp hs⟩
    · have hoccupied : kb.scheduler.isOccupied .output = false :=
        (hbuilt.occupied .output).trans (isOccupied_ofTicker ticker .output)
      exact exists_tone_of_mem_signals hkb hoccupied hevents hs

/-- Another user owns the ticker. The keyboard is asked to start twice, is given the letter e, and a
paddle is pressed. After a tenth of a second the letter still waits, the ticker has not been
started, and nothing was signalled but a pitch. -/
theorem silent_after_owned :
    let events : List (Event PolledTicker) :=
      .act (.operate (.request .start)) :: .act (.operate (.request (.send [0x65]))) ::
        .act (.operate (.queueEdge (.press .left))) :: .act (.operate (.request .start)) ::
          List.replicate 100 (.act (.operate .tick))
    let last := (fresh PolledTicker.owned).after events
    last.start.1 = .error .tickerInUse ∧ last.scheduler.ticker.startCount = 0 ∧
      last.queues.chars.toList = [0x65] ∧ last.tick.1 = .empty ∧
      ∀ s ∈ (fresh PolledTicker.owned).signals events, ∃ hz, s = .tone hz := by
  intro events last
  have hevents : ∀ e ∈ events, e.isScheduling = false := by decide
  have hchars : last.queues.chars.toList = [0x65] := by decide +kernel
  -- the rest holds of any such events, so what they are can be forgotten
  clear_value events
  obtain ⟨hstart, -, hticker, htick, -, hsignals, -⟩ :=
    silent_after PolledTicker.owned rfl {} .fresh .standard .empty hevents
  exact ⟨congrArg Prod.fst hstart, congrArg PolledTicker.startCount hticker, hchars, htick,
    fun s hs => hsignals s (List.mem_append_right _ hs)⟩

end MorseKeyboard.Keyboard
