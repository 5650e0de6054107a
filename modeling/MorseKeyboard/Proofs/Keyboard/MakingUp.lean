import MorseKeyboard.Proofs.Faults
import MorseKeyboard.Proofs.Keyboard.Paddling
import MorseKeyboard.Proofs.Keyboard.Unread

/-!
# Making up for lost time

A driver that fell behind lets several milliseconds pass at once. They are milliseconds like any
others: **each begins with the clock that the one before it left**, runs the jobs that are due on
it, and hands back the slots that are not the keyboard's own. What is recorded before the first of
them, a fault and a warning, is not read by any
(`MorseKeyboard.Keyboard.exists_ticked_withUnread`), so the keyboard and the slots are those of as
many single milliseconds, and the register of faults is the only other difference
(`MorseKeyboard.Keyboard.makeUp_eq_ticked`).

The jobs that are due are told before the first of them is run. A job that schedules itself anew
meanwhile is neither run twice nor left out.
-/

namespace MorseKeyboard.Keyboard

variable {τ : Type}

/-- Whether the job in a slot falls due in the next millisecond. -/
def fallsDue (kb : Keyboard τ) (slot : Slot) : Bool :=
  (kb.scheduler.job? slot).any (·.isDue (kb.scheduler.now + 1))

variable [Ticker τ]

/-! ### One millisecond -/

/-- **The slots handed back** are those whose jobs fall due and are not the keyboard's own. -/
theorem contains_fst_tick_iff (kb : Keyboard τ) (slot : Slot) :
    kb.tick.1.contains slot = (kb.fallsDue slot && !isOwn slot) := by
  rw [contains_fst_tick, Scheduler.contains_tick, fallsDue]

/-- **The jobs that are run**, if their slots fall due: the keyer, the turn of the output, and the
messages of a minute, in this order. -/
theorem snd_tick_eq_jobs (kb : Keyboard τ) :
    kb.tick.2 =
      (let clocked := kb.applyEdges.advanceClock.2
       let keyed := if kb.fallsDue .keyer then clocked.tickKeyer else clocked
       let turned := if kb.fallsDue .output then keyed.playTurn else keyed
       if kb.fallsDue .minute then turned.repeatMessages else turned) := by
  have hdue (slot : Slot) : kb.scheduler.tick.1.contains slot = kb.fallsDue slot :=
    kb.scheduler.contains_tick slot
  rw [snd_tick, throughTurn, beforeTurn, afterTurn, hdue, hdue, hdue]

/-- These are the slots of the keyboard that fall due, each of them dispatched once and in slot
order. -/
theorem snd_tick_eq_foldl (kb : Keyboard τ) :
    kb.tick.2 =
      ([Slot.keyer, .output, .minute].filter kb.fallsDue).foldl dispatch
        kb.applyEdges.advanceClock.2 := by
  rw [snd_tick_eq_jobs, List.foldl_filter]
  rfl

/-- A millisecond of a keyboard with another register of faults and another log of the main loop
is the same millisecond, and the register stays what it is. -/
theorem exists_tick_recorded (kb : Keyboard τ) (faults : FaultRegister)
    (main : Log.Stream Logbook.capacity) :
    ∃ main', (kb.withUnread kb.queues.paddles faults main).tick =
      (kb.tick.1, kb.tick.2.withUnread kb.tick.2.queues.paddles faults main') := by
  obtain ⟨write, htick⟩ := kb.exists_tick_withUnread kb.queues.paddles.toList
  have hself := htick kb.queues.paddles kb.faults kb.log.main rfl
  refine ⟨write main, (htick _ _ _ rfl).trans ?_⟩
  rw [show kb.tick = _ from hself]
  rfl

/-! ### Many milliseconds -/

/-- **Milliseconds do not read what was recorded.** With another register of faults and another log
of the main loop they hand back the same slots and lead to the same keyboard. -/
theorem exists_ticked_withUnread (kb : Keyboard τ) (faults : FaultRegister)
    (main : Log.Stream Logbook.capacity) (n : Nat) :
    let recorded := kb.withUnread kb.queues.paddles faults main
    ∃ main', recorded.ticked n =
        (kb.ticked n).withUnread (kb.ticked n).queues.paddles faults main' ∧
      (recorded.ticked n).tick.1 = (kb.ticked n).tick.1 := by
  intro recorded
  -- the slots of a millisecond follow from what the keyboard is before it
  suffices hn : ∃ main', recorded.ticked n =
      (kb.ticked n).withUnread (kb.ticked n).queues.paddles faults main' by
    obtain ⟨main', hn⟩ := hn
    obtain ⟨_, htick⟩ := (kb.ticked n).exists_tick_recorded faults main'
    exact ⟨main', hn, by rw [hn, htick]⟩
  induction n with
  | zero => exact ⟨main, rfl⟩
  | succ n ih =>
    obtain ⟨main', ih⟩ := ih
    obtain ⟨next, htick⟩ := (kb.ticked n).exists_tick_recorded faults main'
    exact ⟨next, by rw [ticked, ih, htick]; rfl⟩

theorem faults_ticked (kb : Keyboard τ) (n : Nat) : (kb.ticked n).faults = kb.faults := by
  induction n with
  | zero => rfl
  | succ n ih => rw [ticked, faults_tick, ih]

/-- Running milliseconds at once leads where single ones lead. -/
theorem snd_ticksInto (kb : Keyboard τ) (fired : SlotSet) (n : Nat) :
    (kb.ticksInto fired n).2 = kb.ticked n := by
  induction n generalizing kb fired with
  | zero => rfl
  | succ n ih => rw [ticked_succ, ← ih kb.tick.2 (fired.union kb.tick.1), ticksInto]

/-- **The slots of milliseconds run at once** are the union of those of each. -/
theorem contains_fst_ticksInto (kb : Keyboard τ) (fired : SlotSet) (n : Nat) (slot : Slot) :
    (kb.ticksInto fired n).1.contains slot = true ↔
      fired.contains slot = true ∨ ∃ i < n, (kb.ticked i).tick.1.contains slot = true := by
  induction n generalizing kb fired with
  | zero => simp [ticksInto]
  | succ n ih =>
    rw [ticksInto, ih, SlotSet.contains_union, Bool.or_eq_true, or_assoc,
      Nat.exists_lt_succ_left]
    simp only [ticked_succ]
    rfl

/-! ### Making up -/

/-- Milliseconds are made up for by running them at once. Before that an overrun is recorded, if
there are several. -/
theorem exists_makeUp (kb : Keyboard τ) (n : UInt32) :
    ∃ faults main,
      kb.makeUp n = (kb.withUnread kb.queues.paddles faults main).ticksInto .empty n.toNat ∧
        faults = if 1 < n then kb.faults.raise .tickOverrun (n - 1) else kb.faults := by
  rw [makeUp]
  split
  · exact ⟨_, (kb.log.warn ["tick: ", (n - 1).toNat.repr, " ticks behind"]).main, rfl, rfl⟩
  · exact ⟨_, kb.log.main, rfl, rfl⟩

/-- **Only an overrun is recorded**, before the milliseconds are made up for. -/
theorem faults_makeUp (kb : Keyboard τ) (n : UInt32) :
    (kb.makeUp n).2.faults =
      if 1 < n then kb.faults.raise .tickOverrun (n - 1) else kb.faults := by
  obtain ⟨faults, main, hmade, hfaults⟩ := kb.exists_makeUp n
  rw [hmade, snd_ticksInto, faults_ticked]
  exact hfaults

/-- What an overrun is recorded as: its detail is the number of milliseconds that are late. -/
theorem report_makeUp (kb : Keyboard τ) {n : UInt32} (hn : 1 < n) :
    (kb.makeUp n).2.faults.report =
        ⟨true, .tickOverrun, .ofNat (min (n.toNat - 1) (2 ^ 24 - 1)), kb.faults.raised + 1⟩ ∧
      (kb.makeUp n).2.faults.seen = kb.faults.seen := by
  have hlate : (n - 1).toNat = n.toNat - 1 := UInt32.toNat_sub_of_le _ _ (UInt32.le_of_lt hn)
  have hdetail := kb.faults.toNat_detail_raise .tickOverrun (n - 1)
  rw [hlate] at hdetail
  rw [faults_makeUp, if_pos hn, FaultRegister.report, FaultRegister.isStanding_raise,
    FaultRegister.fault_raise, ← hdetail, UInt32.ofNat_toNat]
  exact ⟨rfl, rfl⟩

/-- No more than one millisecond is nothing to be recorded. -/
theorem snd_makeUp_of_le_one (kb : Keyboard τ) {n : UInt32} (hn : n ≤ 1) :
    (kb.makeUp n).2 = kb.ticked n.toNat := by
  rw [makeUp, if_neg (UInt32.not_lt.mpr hn), snd_ticksInto]

/-- The keyboard is the one after single milliseconds, apart from what was recorded. -/
theorem snd_makeUp (kb : Keyboard τ) (n : UInt32) :
    let made := (kb.makeUp n).2
    let plain := kb.ticked n.toNat
    made = { plain with
      faults := made.faults, log := { plain.log with main := made.log.main } } := by
  intro made plain
  obtain ⟨faults, main, hmade, -⟩ := kb.exists_makeUp n
  obtain ⟨main', hbeside, -⟩ := kb.exists_ticked_withUnread faults main n.toNat
  have hlast : made = plain.withUnread plain.queues.paddles faults main' := by
    show (kb.makeUp n).2 = _
    rw [hmade, snd_ticksInto]
    exact hbeside
  rw [hlast]
  rfl

/-- **The slots handed back** are those that any of the single milliseconds hands back. -/
theorem contains_fst_makeUp (kb : Keyboard τ) (n : UInt32) (slot : Slot) :
    (kb.makeUp n).1.contains slot = true ↔
      ∃ i < n.toNat, (kb.ticked i).tick.1.contains slot = true := by
  obtain ⟨faults, main, hmade, -⟩ := kb.exists_makeUp n
  have hslots (i : Nat) := (kb.exists_ticked_withUnread faults main i).choose_spec.2
  rw [hmade, contains_fst_ticksInto, SlotSet.contains_empty]
  simp only [Bool.false_eq_true, false_or, hslots]

/-- **Making up for milliseconds is letting them pass one by one.** However many they are, the
keyboard afterwards, with its queues, its signals and its clock, is the one after as many single
milliseconds, apart from the register of faults and the log of the main loop, and the slots handed
back are those that any of the single ones hands back.

These do not touch the register. If there is more than one of them, an overrun was recorded before
the first, with a detail that is one less than their number or the greatest detail, and with one
more count; otherwise nothing at all was recorded. And each of them runs the jobs of the keyboard
that fall due in it, in slot order and once, and hands back the other slots whose jobs fall due. -/
theorem makeUp_eq_ticked (kb : Keyboard τ) (n : UInt32) :
    let made := kb.makeUp n
    let plain := kb.ticked n.toNat
    made.2 = { plain with
        faults := made.2.faults, log := { plain.log with main := made.2.log.main } } ∧
      (∀ slot, made.1.contains slot = true ↔
        ∃ i < n.toNat, (kb.ticked i).tick.1.contains slot = true) ∧
      plain.faults = kb.faults ∧ (n ≤ 1 → made.2 = plain) ∧
      (1 < n →
        made.2.faults.report =
            ⟨true, .tickOverrun, .ofNat (min (n.toNat - 1) (2 ^ 24 - 1)), kb.faults.raised + 1⟩ ∧
          made.2.faults.seen = kb.faults.seen) ∧
      ∀ i, let now := kb.ticked i
        now.tick.2 = ([Slot.keyer, .output, .minute].filter now.fallsDue).foldl dispatch
            now.applyEdges.advanceClock.2 ∧
          now.tick.2 =
            (let clocked := now.applyEdges.advanceClock.2
             let keyed := if now.fallsDue .keyer then clocked.tickKeyer else clocked
             let turned := if now.fallsDue .output then keyed.playTurn else keyed
             if now.fallsDue .minute then turned.repeatMessages else turned) ∧
          ∀ slot, now.tick.1.contains slot = (now.fallsDue slot && !isOwn slot) :=
  ⟨kb.snd_makeUp n, kb.contains_fst_makeUp n, kb.faults_ticked _, kb.snd_makeUp_of_le_one,
    kb.report_makeUp, fun _ => ⟨snd_tick_eq_foldl _, snd_tick_eq_jobs _, contains_fst_tick_iff _⟩⟩

end MorseKeyboard.Keyboard
