import Mathlib.Data.List.Basic
import MorseKeyboard.Scheduler.Basic

/-!
# Waiting for a slot

Clock and due times are words that wrap, but how long a job has still to wait is an ordinary
number: the distance from the clock to the time at which the job is due, taken as a word and then
read as a number. `MorseKeyboard.Scheduler.Waits` says of a slot how long its job waits and what its
period is, and everything else about the scheduler is told in these two numbers:

* **a millisecond shortens the wait by one**, and the job whose wait is over is due and waits for
  its period again (`MorseKeyboard.Scheduler.Waits.tick`), wherever on the clock that happens;
* a job that is registered waits for its period (`MorseKeyboard.Scheduler.waits_register`);
* what is done to one slot leaves the waits of the others alone.
-/

namespace MorseKeyboard

/-- The milliseconds until a job is due, at a clock value. -/
def Job.wait (j : Job) (now : UInt16) : Nat := (j.due - now).toNat

/-! ### Words of the clock -/

/-- A job is due when it had a millisecond left. -/
theorem Job.isDue_succ_iff (j : Job) (now : UInt16) :
    j.isDue (now + 1) = true ↔ j.wait now = 1 := by
  have hdue := j.due.toNat_lt
  have hnow := now.toNat_lt
  rw [isDue, beq_iff_eq, ← UInt16.toNat_inj, wait, UInt16.toNat_sub, UInt16.toNat_add,
    UInt16.toNat_one]
  omega

/-- A millisecond later a job that is not due yet has one millisecond less to wait. -/
theorem Job.wait_succ {j : Job} {now : UInt16} (h : 0 < j.wait now) :
    j.wait (now + 1) = j.wait now - 1 := by
  have hdue := j.due.toNat_lt
  have hnow := now.toNat_lt
  rw [wait, UInt16.toNat_sub] at h
  rw [wait, wait, UInt16.toNat_sub, UInt16.toNat_sub, UInt16.toNat_add, UInt16.toNat_one]
  omega

/-- A job that is due after its period waits for the period. -/
theorem Job.wait_add_period (period now : UInt16) :
    ({ period, due := now + period } : Job).wait now = period.toNat := by
  have hdistance : now + period - now = period := by grind
  rw [wait, hdistance]

/-- A period that is not zero is taken as it is. -/
theorem max_one_of_pos {period : UInt16} (h : 0 < period.toNat) : max period 1 = period := by
  show (if period ≤ 1 then 1 else period) = period
  split
  · next hle =>
    rw [UInt16.le_iff_toNat_le, UInt16.toNat_one] at hle
    apply UInt16.toNat_inj.mp
    rw [UInt16.toNat_one]
    omega
  · rfl

namespace Scheduler

variable {τ : Type}

/-! ### The wait of a slot -/

/-- The slot holds a job with this period that is due in so many milliseconds. -/
structure Waits (s : Scheduler τ) (slot : Slot) (wait period : Nat) : Prop where
  wait_pos : 0 < wait
  period_pos : 0 < period
  exists_job : ∃ job, s.job? slot = some job ∧ job.wait s.now = wait ∧ job.period.toNat = period

/-- The wait after a millisecond. -/
def waitAfter (wait period : Nat) : Nat := if wait = 1 then period else wait - 1

variable {s : Scheduler τ} {slot : Slot} {wait period : Nat}

/-- Slots that hold the same jobs wait for the same time. -/
theorem Waits.congr {r : Scheduler τ} (h : s.Waits slot wait period)
    (hjob : r.job? slot = s.job? slot) (hnow : r.now = s.now) : r.Waits slot wait period := by
  obtain ⟨job, hs, hwait, hperiod⟩ := h.exists_job
  exact ⟨h.wait_pos, h.period_pos, job, by rw [hjob, hs], by rw [hnow, hwait], hperiod⟩

theorem job?_tick (s : Scheduler τ) (slot : Slot) :
    s.tick.2.job? slot = (s.job? slot).map (·.pass (s.now + 1)) := by
  rw [job?, tick, PerSlot.get_ofFn]

theorem contains_tick (s : Scheduler τ) (slot : Slot) :
    s.tick.1.contains slot = (s.job? slot).any (·.isDue (s.now + 1)) := by
  rw [tick, SlotSet.contains_ofPred]

/-- **What a millisecond does to a slot**: it is due if the wait was for this millisecond, and then
it waits for the period again. -/
theorem Waits.tick (h : s.Waits slot wait period) :
    s.tick.1.contains slot = decide (wait = 1) ∧
      s.tick.2.Waits slot (waitAfter wait period) period := by
  obtain ⟨job, hjob, rfl, rfl⟩ := h.exists_job
  have hpos := h.wait_pos
  rw [contains_tick, hjob, Option.any_some]
  by_cases hone : job.wait s.now = 1
  -- the job is due, and its next due time is a period after this millisecond
  · have hdue : job.isDue (s.now + 1) = true := (job.isDue_succ_iff s.now).mpr hone
    refine ⟨by rw [hdue, hone]; rfl, ?_⟩
    rw [waitAfter, if_pos hone]
    refine ⟨h.period_pos, h.period_pos, { job with due := job.due + job.period }, ?_, ?_, rfl⟩
    · rw [job?_tick, hjob, Option.map_some, Job.pass, if_pos hdue]
    · rw [eq_of_beq hdue]
      exact Job.wait_add_period job.period (s.now + 1)
  -- the job stays as it is, and only the clock comes closer to it
  · have hdue : ¬job.isDue (s.now + 1) = true := fun hc => hone ((job.isDue_succ_iff s.now).mp hc)
    refine ⟨by rw [Bool.eq_false_iff.mpr hdue, decide_eq_false hone], ?_⟩
    rw [waitAfter, if_neg hone]
    refine ⟨by omega, h.period_pos, job, ?_, Job.wait_succ hpos, rfl⟩
    rw [job?_tick, hjob, Option.map_some, Job.pass, if_neg hdue]

/-! ### Registering -/

variable [Ticker τ]

theorem job?_register (s : Scheduler τ) (slot : Slot) {period : UInt16} (h : 0 < period.toNat) :
    (s.register slot period).job? slot = some { period, due := s.now + period } := by
  rw [register, max_one_of_pos h]
  exact PerSlot.get_set_self _ _ _

theorem job?_register_of_ne (s : Scheduler τ) {slot other : Slot} (h : slot ≠ other)
    (period : UInt16) : (s.register slot period).job? other = s.job? other :=
  PerSlot.get_set_of_ne h _ _

theorem job?_unregister_of_ne (s : Scheduler τ) {slot other : Slot} (h : slot ≠ other) :
    (s.unregister slot).job? other = s.job? other := by
  rw [unregister]
  split
  · dsimp only
    split <;> exact PerSlot.get_set_of_ne h _ _
  · rfl

@[simp] theorem now_register (s : Scheduler τ) (slot : Slot) (period : UInt16) :
    (s.register slot period).now = s.now := rfl

@[simp] theorem now_unregister (s : Scheduler τ) (slot : Slot) :
    (s.unregister slot).now = s.now := by
  rw [unregister]
  split
  · dsimp only
    split <;> rfl
  · rfl

/-- **A job that is registered waits for its period.** -/
theorem waits_register (s : Scheduler τ) (slot : Slot) {period : UInt16} (h : 0 < period.toNat) :
    (s.register slot period).Waits slot period.toNat period.toNat :=
  ⟨h, h, _, job?_register s slot h, Job.wait_add_period period s.now, rfl⟩

theorem Waits.register_of_ne {other : Slot} (h : s.Waits slot wait period) (hne : other ≠ slot)
    (millis : UInt16) : (s.register other millis).Waits slot wait period :=
  h.congr (job?_register_of_ne s hne millis) (now_register s other millis)

theorem Waits.unregister_of_ne {other : Slot} (h : s.Waits slot wait period) (hne : other ≠ slot) :
    (s.unregister other).Waits slot wait period :=
  h.congr (job?_unregister_of_ne s hne) (now_unregister s other)

end Scheduler

end MorseKeyboard
