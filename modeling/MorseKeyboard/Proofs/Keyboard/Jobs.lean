import Mathlib.Data.List.Induction
import MorseKeyboard.Proofs.Keyboard.Events
import MorseKeyboard.Proofs.Scheduler.Ticking

/-!
# The jobs of a keyboard

A keyboard registers jobs for itself at three places: when it is started, when it reads its
parameters again, and when a turn of the output asks for another rate. Only the first of them may
fill a slot that was free. The other two schedule the output anew, and **only if it is scheduled
already**: so apart from a start that succeeds, and from what others do to slots of their own, the
same slots hold jobs as before and the ticker is asked for nothing
(`MorseKeyboard.Scheduler.Steady`, `MorseKeyboard.Keyboard.steady_undergo`).

It follows that the slots of the keyboard hold jobs exactly if it was started with success at some
time (`MorseKeyboard.Keyboard.isOccupied_after_iff`). From then on its clocks are set
(`MorseKeyboard.Keyboard.HasStarted.clocked`), and the clock of the output is always right for the
state that the sender is in (`MorseKeyboard.Keyboard.clocks_after`).
-/

namespace MorseKeyboard

/-! ### Slots that hold jobs -/

namespace Scheduler

variable {τ : Type} {s s' s'' : Scheduler τ}

/-- A slot without a job is not due. -/
theorem contains_tick_of_free {slot : Slot} (h : s.isOccupied slot = false) :
    s.tick.1.contains slot = false := by
  have hnone : s.job? slot = none := by simpa [isOccupied] using h
  rw [contains_tick, hnone, Option.any_none]

theorem isOccupied_of_due {slot : Slot} (h : s.tick.1.contains slot = true) :
    s.isOccupied slot = true := by
  by_contra hfree
  rw [contains_tick_of_free (Bool.eq_false_iff.mpr hfree)] at h
  cases h

/-- **The same slots hold jobs as before, and the ticker was asked for nothing.** -/
structure Steady (s s' : Scheduler τ) : Prop where
  occupied : ∀ slot, s'.isOccupied slot = s.isOccupied slot
  ticker : s'.ticker = s.ticker

theorem Steady.refl (s : Scheduler τ) : s.Steady s := ⟨fun _ => rfl, rfl⟩

theorem Steady.trans (h : s.Steady s') (h' : s'.Steady s'') : s.Steady s'' :=
  ⟨fun slot => (h'.occupied slot).trans (h.occupied slot), h'.ticker.trans h.ticker⟩

theorem steady_tick (s : Scheduler τ) : s.Steady s.tick.2 := ⟨s.isOccupied_tick, rfl⟩

variable [Ticker τ]

/-- **Registering a slot that holds a job changes its clock only.** -/
theorem steady_register {slot : Slot} (h : s.isOccupied slot = true) (period : UInt16) :
    s.Steady (s.register slot period) where
  occupied other := by
    rw [isOccupied_register]
    by_cases heq : slot = other
    · rw [← heq, h, Bool.or_true]
    · rw [decide_eq_false heq, Bool.false_or]
  ticker := if_pos (isActive_iff.mpr ⟨slot, h⟩)

end Scheduler

namespace Keyboard

variable {τ : Type} [Ticker τ] {kb : Keyboard τ}

/-! ### What fills no slot -/

/-- Reading the parameters again schedules the output only if it is scheduled. -/
theorem steady_reload (kb : Keyboard τ) : kb.scheduler.Steady kb.reload.scheduler := by
  rw [reload, retime]
  split
  · next hoccupied => exact Scheduler.steady_register hoccupied _
  · exact .refl _

/-- **A millisecond fills no slot**: a turn of the output may schedule the next one, but then the
output was scheduled. -/
theorem steady_tick (kb : Keyboard τ) : kb.scheduler.Steady kb.tick.2.scheduler := by
  have hclock : kb.scheduler.Steady kb.advanceClock.2.scheduler := kb.scheduler.steady_tick
  refine hclock.trans ?_
  rcases hdue : kb.scheduler.tick.1.contains .output with _ | _
  · rw [(aside_tick_of_not_due hdue).scheduler]
    exact .refl _
  · obtain ⟨t, hturn⟩ := exists_turns hdue
    have hbefore : (kb.beforeTurn.played t).scheduler = kb.advanceClock.2.scheduler :=
      (aside_beforeTurn kb).scheduler
    have hoccupied : (kb.beforeTurn.played t).scheduler.isOccupied .output = true := by
      rw [hbefore]
      exact (kb.scheduler.isOccupied_tick .output).trans (Scheduler.isOccupied_of_due hdue)
    rw [hturn.aside.scheduler, ← hbefore]
    rcases t.rate with _ | _ | _
    · exact .refl _
    · exact Scheduler.steady_register hoccupied _
    · exact Scheduler.steady_register hoccupied _

theorem steady_makeUp (kb : Keyboard τ) (n : UInt32) :
    kb.scheduler.Steady (kb.makeUp n).2.scheduler :=
  makeUp_induction (P := fun kb' => kb.scheduler.Steady kb'.scheduler)
    (fun kb' h => h.trans (steady_tick kb')) (fun _ _ _ => id) (.refl _) n

/-- A start that is refused leaves the scheduler as it is. -/
theorem scheduler_start_of_ne_ok (h : kb.start.1 ≠ .ok ()) :
    kb.start.2.scheduler = kb.scheduler := by
  rw [start] at h ⊢
  split
  · rfl
  · next hclaim =>
    rw [hclaim] at h
    exact absurd rfl h

/-- A start that succeeds fills the slots of the keyboard. -/
theorem isOccupied_start (h : kb.start.1 = .ok ()) {slot : Slot} (hown : isOwn slot = true) :
    kb.start.2.scheduler.isOccupied slot = true := by
  rw [start] at h ⊢
  split
  · next hclaim =>
    rw [hclaim] at h
    cases h
  · show (Scheduler.register (Scheduler.register (Scheduler.register _ _ _) _ _) _ _).isOccupied
      slot = true
    rw [Scheduler.isOccupied_register, Scheduler.isOccupied_register,
      Scheduler.isOccupied_register]
    cases slot with
    | keyer | output | minute => simp
    | _ => cases hown

/-! ### Events -/

/-- A start that succeeds. -/
def Starts (kb : Keyboard τ) (e : Event τ) : Prop :=
  e = .act (.operate (.request .start)) ∧ kb.start.1 = .ok ()

/-- **Apart from a start that succeeds, no request fills a slot.** -/
theorem steady_handle {r : Request} (h : ¬kb.Starts (.act (.operate (.request r)))) :
    kb.scheduler.Steady (kb.handle r).2.scheduler := by
  have hr := handled_handle kb r
  generalize (kb.handle r).2 = kb' at hr ⊢
  cases hr with
  | start =>
    have hrefused : kb.start.1 ≠ .ok () := fun hok => h ⟨rfl, hok⟩
    rw [scheduler_start_of_ne_ok hrefused]
    exact .refl _
  | reload settings => exact steady_reload { kb with settings }
  | refuse | send | store | changeOver | edge => exact .refl _

/-- **Whatever happens fills no slot and frees none**, apart from a start that succeeds and from
what others schedule. -/
theorem steady_undergo {e : Event τ} (he : e.isScheduling = false) (h : ¬kb.Starts e) :
    kb.scheduler.Steady (kb.undergo e).scheduler := by
  cases e with
  | share => exact .refl _
  | act a =>
    cases a with
    | reschedule => cases he
    | operate op =>
      cases op with
      | request r => exact steady_handle h
      | tick => exact steady_tick kb
      | makeUp n => exact steady_makeUp kb n
      | register | unregister => cases he
      | queueEdge | changeSettings | readKeystroke | readMenu | takeSignals => exact .refl _

/-- **Only a start fills the slots of the keyboard**, and nothing frees them. -/
theorem isOccupied_undergo_iff {e : Event τ} (he : e.isReschedule = false) {slot : Slot}
    (hown : isOwn slot = true) :
    (kb.undergo e).scheduler.isOccupied slot = true ↔
      kb.scheduler.isOccupied slot = true ∨ kb.Starts e := by
  by_cases hstarts : kb.Starts e
  · obtain ⟨rfl, hok⟩ := hstarts
    exact iff_of_true (isOccupied_start hok hown) (Or.inr ⟨rfl, hok⟩)
  rw [or_iff_left hstarts]
  -- a slot in which others register or unregister a job is not the keyboard's own
  have hother {other : Slot} (hforeign : ¬isOwn other = true) : other ≠ slot := by
    rintro rfl
    exact hforeign hown
  rcases hscheduling : e.isScheduling with _ | _
  · rw [(steady_undergo hscheduling hstarts).occupied]
  · unfold Event.isScheduling at hscheduling
    split at hscheduling
    · cases he
    · rw [undergo, act, operate]
      split
      · rfl
      · next hforeign =>
        rw [Scheduler.isOccupied, Scheduler.job?_register_of_ne _ (hother hforeign),
          Scheduler.isOccupied]
    · rw [undergo, act, operate]
      split
      · rfl
      · next hforeign =>
        rw [Scheduler.isOccupied, Scheduler.job?_unregister_of_ne _ (hother hforeign),
          Scheduler.isOccupied]
    · cases hscheduling

/-- The clocks that are set stay set. -/
theorem Clocked.undergo {wait period : Nat} (h : kb.Clocked wait period) {e : Event τ}
    (he : e.isReschedule = false) : ∃ wait' period', (kb.undergo e).Clocked wait' period' := by
  cases e with
  | share => exact ⟨wait, period, h.congr rfl rfl rfl⟩
  | act a =>
    cases a with
    | operate op => exact h.operate op
    | reschedule => cases he

/-! ### One event after another -/

/-- In the course of some events the keyboard was started with success. -/
def HasStarted (kb : Keyboard τ) (events : List (Event τ)) : Prop :=
  ∃ before after, events = before ++ .act (.operate (.request .start)) :: after ∧
    (kb.after before).start.1 = .ok ()

theorem hasStarted_concat_iff (kb : Keyboard τ) (events : List (Event τ)) (e : Event τ) :
    kb.HasStarted (events ++ [e]) ↔ kb.HasStarted events ∨ (kb.after events).Starts e := by
  constructor
  · rintro ⟨before, after, hsplit, hok⟩
    rcases List.eq_nil_or_concat after with rfl | ⟨middle, last, rfl⟩
    · obtain ⟨rfl, hlast⟩ := List.append_inj' hsplit rfl
      exact Or.inr ⟨(List.cons.inj hlast).1, hok⟩
    · rw [List.concat_eq_append, ← List.cons_append, ← List.append_assoc] at hsplit
      exact Or.inl ⟨before, middle, (List.append_inj' hsplit rfl).1, hok⟩
  · rintro (⟨before, after, rfl, hok⟩ | ⟨rfl, hok⟩)
    · exact ⟨before, after ++ [e], by rw [List.append_assoc, List.cons_append], hok⟩
    · exact ⟨events, [], rfl, hok⟩

variable {events : List (Event τ)}

/-- **The slots of the keyboard hold jobs exactly if it was started with success.** -/
theorem isOccupied_after_iff (hevents : ∀ e ∈ events, e.isReschedule = false) {slot : Slot}
    (hown : isOwn slot = true) (hfree : kb.scheduler.isOccupied slot = false) :
    (kb.after events).scheduler.isOccupied slot = true ↔ kb.HasStarted events := by
  induction events using List.reverseRecOn with
  | nil =>
    refine iff_of_false (Bool.eq_false_iff.mp hfree) ?_
    rintro ⟨before, after, hsplit, -⟩
    exact List.append_ne_nil_of_right_ne_nil _ (List.cons_ne_nil _ _) hsplit.symm
  | append_singleton events e ih =>
    have hbefore := ih fun e he => hevents e (List.mem_append_left _ he)
    have hlast := hevents e (List.mem_append_right _ (List.mem_singleton_self e))
    rw [after_concat, isOccupied_undergo_iff hlast hown, hbefore, hasStarted_concat_iff]

/-- **From its start on the clocks of a keyboard are set.** -/
theorem HasStarted.clocked (h : kb.HasStarted events)
    (hevents : ∀ e ∈ events, e.isReschedule = false) :
    ∃ wait period, (kb.after events).Clocked wait period := by
  induction events using List.reverseRecOn with
  | nil =>
    obtain ⟨before, after, hsplit, -⟩ := h
    exact absurd hsplit.symm (List.append_ne_nil_of_right_ne_nil _ (List.cons_ne_nil _ _))
  | append_singleton events e ih =>
    rw [after_concat]
    rcases (hasStarted_concat_iff kb events e).mp h with hbefore | ⟨rfl, hok⟩
    · obtain ⟨wait, period, hclock⟩ := ih hbefore fun e he => hevents e (List.mem_append_left _ he)
      exact hclock.undergo (hevents e (List.mem_append_right _ (List.mem_singleton_self e)))
    · have hstart : (kb.after events).start = (.ok (), (kb.after events).start.2) :=
        Prod.ext hok rfl
      exact ⟨_, _, clocked_of_start hstart⟩

/-- **The turn of the output is due when the wait is over**, and not before. -/
theorem Clocked.contains_tick_ticked {wait period : Nat} (h : kb.Clocked wait period) {n : Nat}
    (hn : n < wait) :
    (kb.ticked n).Clocked (wait - n) period ∧
      (kb.ticked n).scheduler.tick.1.contains .output = decide (n + 1 = wait) := by
  suffices hclock : (kb.ticked n).Clocked (wait - n) period by
    refine ⟨hclock, ?_⟩
    rw [hclock.output.tick.1]
    exact decide_eq_decide.mpr (by omega)
  induction n with
  | zero => exact h
  | succ n ih => exact ((ih (by omega)).tick_of_not_due (by omega)).2

/-- A new keyboard has no jobs. -/
theorem steady_ofParts (ticker : τ) (queues : Queues) (faults : FaultRegister)
    (settings : Settings) (log : Logbook) :
    (Scheduler.ofTicker ticker).Steady (ofParts ticker queues faults settings log).scheduler :=
  steady_reload { queues, faults, settings, log, scheduler := .ofTicker ticker }

omit [Ticker τ] in
theorem isOccupied_ofTicker (ticker : τ) (slot : Slot) :
    (Scheduler.ofTicker ticker).isOccupied slot = false := by
  rw [Scheduler.isOccupied, Scheduler.job?, Scheduler.ofTicker, PerSlot.get_ofFn]
  rfl

/-- **The output always runs at the rate that its state needs.** A keyboard is built, over any
ticker and whatever it shares with others, and anything may happen to it except that somebody else
takes charge of its scheduler. Then the jobs of the keyer, of the output and of the minutes are all
registered if it was started with success before, and none of them if it was not. As long as the
output is registered, its period is the present unit if the sender is not idle, and the unit or a
millisecond if it is, and the next turn of the output falls due after one period at most, but not at
once. -/
theorem clocks_after (ticker : τ) (queues : Queues) (faults : FaultRegister) (settings : Settings)
    (log : Logbook) (hevents : ∀ e ∈ events, e.isReschedule = false) :
    let kb := ofParts ticker queues faults settings log
    let last := kb.after events
    (∀ slot, isOwn slot = true →
        (last.scheduler.isOccupied slot = true ↔ kb.HasStarted events)) ∧
      ∀ job, last.scheduler.job? .output = some job →
        (job.period.toNat = last.speed.dit ∨
          last.sender.state = .idle ∧ job.period.toNat = 1) ∧
        ∃ wait, 1 ≤ wait ∧ wait ≤ job.period.toNat ∧ ∀ n < wait,
          (last.ticked n).scheduler.tick.1.contains .output = decide (n + 1 = wait) := by
  intro kb last
  have hfree (slot : Slot) : kb.scheduler.isOccupied slot = false :=
    ((steady_ofParts ticker queues faults settings log).occupied slot).trans
      (isOccupied_ofTicker ticker slot)
  have hslots {slot : Slot} (hown : isOwn slot = true) :=
    isOccupied_after_iff hevents hown (hfree slot)
  refine ⟨fun slot hown => hslots hown, ?_⟩
  intro job hjob
  have hoccupied : last.scheduler.isOccupied .output = true := by
    rw [Scheduler.isOccupied, hjob, Option.isSome_some]
  have hstarted : kb.HasStarted events := (hslots rfl).mp hoccupied
  obtain ⟨wait, period, hclock⟩ := hstarted.clocked hevents
  obtain ⟨job', hjob', -, rfl⟩ := hclock.output.exists_job
  obtain rfl : job = job' := Option.some.inj (hjob.symm.trans hjob')
  exact ⟨hclock.period_eq, wait, hclock.output.wait_pos, hclock.wait_le,
    fun n hn => (hclock.contains_tick_ticked hn).2⟩

/-- A new keyboard is started, and somebody queues the letter e for it. After seventy milliseconds
it is in the middle of the dit, and the clock of the output runs at the unit of twenty words per
minute. -/
theorem clocks_after_seventy :
    let events : List (Event PolledTicker) :=
      .act (.operate (.request .start)) ::
        .share { chars := CharRing.empty.push 0x65 } .fresh .empty ::
          List.replicate 70 (.act (.operate .tick))
    let last := (fresh PolledTicker.free).after events
    (∀ slot, isOwn slot = true → last.scheduler.isOccupied slot = true) ∧
      last.sender.state = .bitSp ∧
      ∃ wait, 1 ≤ wait ∧ wait ≤ 60 ∧
        ∀ n < wait, (last.ticked n).scheduler.tick.1.contains .output = decide (n + 1 = wait) := by
  intro events last
  have hevents : ∀ e ∈ events, e.isReschedule = false := by decide
  have hstarted : (fresh PolledTicker.free).HasStarted events := ⟨[], events.tail, rfl, rfl⟩
  have hjob : (last.scheduler.job? .output).map Job.period = some 60 := by decide +kernel
  obtain ⟨hslots, hclock⟩ := clocks_after PolledTicker.free {} .fresh .standard .empty hevents
  obtain ⟨job, hjob, hperiod⟩ := Option.map_eq_some_iff.mp hjob
  obtain ⟨-, wait, hpos, hle, hdue⟩ := hclock job hjob
  rw [hperiod] at hle
  exact ⟨fun slot hown => (hslots slot hown).mpr hstarted, by decide +kernel, wait, hpos, hle, hdue⟩

end Keyboard

end MorseKeyboard
