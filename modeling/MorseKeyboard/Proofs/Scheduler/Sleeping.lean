import MorseKeyboard.Proofs.Scheduler.Firing

/-!
# Sleeping until the next job

Whoever drives the clock may ask how long nothing will happen, and sleep for that time. The answer
is the shortest of the waits, and for it to be of use two things have to be right: no job may be
missed by sleeping, and the driver may not be woken for nothing.

The danger lies in a job whose wait is zero. The clock is past its due time then, and it will be due
only when the clock has gone all the way round, so zero would be the wrong answer. **No job is ever
overdue** (`MorseKeyboard.Scheduler.NoneOverdue`), whatever was registered and dropped: a job is
given a period of at least one millisecond, and in the millisecond in which its wait is over it is
given another. So every millisecond before the answer is up brings the answer down by one and
reports nothing (`MorseKeyboard.Scheduler.NoneOverdue.tick_of_timeToNext?`), and the last one
reports a slot.
-/

namespace MorseKeyboard.Scheduler

variable {τ : Type} {s : Scheduler τ} {slot : Slot} {wait period m : Nat}

/-! ### No job is overdue -/

/-- **No job is overdue**: a slot either is free, or it waits for its job. -/
def NoneOverdue (s : Scheduler τ) : Prop :=
  ∀ slot, s.job? slot = none ∨ ∃ wait period, s.Waits slot wait period

theorem noneOverdue_ofTicker (ticker : τ) : (ofTicker ticker).NoneOverdue :=
  fun _ => Or.inl (PerSlot.get_ofFn _ _)

section

variable [Ticker τ]

/-- **No act makes a job overdue.** -/
theorem NoneOverdue.act (h : s.NoneOverdue) (a : Act) : (s.act a).NoneOverdue := by
  intro slot
  by_cases ha : a.slot? = some slot
  -- the act is about the slot: it gives it a job, or takes its job out
  · cases a with
    | register other period =>
      obtain rfl := Option.some.inj ha
      exact Or.inr ⟨_, _, s.waits_register_max other period⟩
    | unregister other =>
      obtain rfl := Option.some.inj ha
      exact Or.inl (job?_unregister s other)
    | tick => cases ha
  · rcases h slot with hfree | ⟨wait, period, hwaits⟩
    · exact Or.inl (job?_act_of_eq_none hfree ha)
    · exact Or.inr ⟨_, period, hwaits.act ha⟩

/-- **No job is overdue after any history** in the beginning of which none is. -/
theorem NoneOverdue.run (h : s.NoneOverdue) (acts : List Act) : (s.run acts).NoneOverdue := by
  induction acts generalizing s with
  | nil => exact h
  | cons a acts ih => exact ih (h.act a)

end

/-! ### The shortest wait -/

/-- A slot waits in one way only. -/
theorem Waits.unique {wait' period' : Nat} (h : s.Waits slot wait period)
    (h' : s.Waits slot wait' period') : wait = wait' := by
  obtain ⟨job, hjob, rfl, -⟩ := h.exists_job
  obtain ⟨job', hjob', rfl, -⟩ := h'.exists_job
  rw [Option.some.inj (hjob.symm.trans hjob')]

/-- The waits of the jobs, in slot order. -/
def waits (s : Scheduler τ) : List Nat := s.jobs.toList.filterMap (Option.map (·.wait s.now))

theorem timeToNext?_eq_min?_waits (s : Scheduler τ) : s.timeToNext? = s.waits.min? := rfl

/-- The waits are those of the slots that wait, if no job is overdue. -/
theorem NoneOverdue.mem_waits_iff (h : s.NoneOverdue) :
    wait ∈ s.waits ↔ ∃ slot period, s.Waits slot wait period := by
  have hjobs : wait ∈ s.waits ↔ ∃ slot job, s.job? slot = some job ∧ job.wait s.now = wait := by
    simp [waits, PerSlot.toList, Slot.mem_all, job?]
  rw [hjobs]
  constructor
  · rintro ⟨slot, job, hjob, rfl⟩
    rcases h slot with hfree | ⟨wait, period, hwaits⟩
    · cases hfree.symm.trans hjob
    · obtain ⟨job', hjob', hwait, -⟩ := hwaits.exists_job
      obtain rfl := Option.some.inj (hjob'.symm.trans hjob)
      exact ⟨slot, period, hwait ▸ hwaits⟩
  · rintro ⟨slot, period, hwaits⟩
    obtain ⟨job, hjob, hwait, -⟩ := hwaits.exists_job
    exact ⟨slot, job, hjob, hwait⟩

theorem NoneOverdue.timeToNext?_eq_some_iff (h : s.NoneOverdue) :
    s.timeToNext? = some m ↔
      (∃ slot period, s.Waits slot m period) ∧
        ∀ slot wait period, s.Waits slot wait period → m ≤ wait := by
  rw [timeToNext?_eq_min?_waits, List.min?_eq_some_iff, h.mem_waits_iff]
  refine and_congr_right fun _ => ?_
  constructor
  · intro hle slot wait period hwaits
    exact hle wait (h.mem_waits_iff.mpr ⟨slot, period, hwaits⟩)
  · intro hle wait hwait
    obtain ⟨slot, period, hwaits⟩ := h.mem_waits_iff.mp hwait
    exact hle slot wait period hwaits

/-- There is nothing to wait for exactly if no slot holds a job. -/
theorem timeToNext?_eq_none_iff : s.timeToNext? = none ↔ ∀ slot, s.isOccupied slot = false := by
  rw [timeToNext?_eq_min?_waits, List.min?_eq_none_iff, waits, List.filterMap_eq_nil_iff]
  simp [PerSlot.toList, Slot.mem_all, isOccupied, job?]

/-! ### Sleeping -/

/-- A millisecond reports nothing if every wait is longer. -/
theorem NoneOverdue.isEmpty_tick (h : s.NoneOverdue)
    (hlong : ∀ slot wait period, s.Waits slot wait period → 1 < wait) :
    s.tick.1.isEmpty = true := by
  rw [SlotSet.isEmpty, List.isEmpty_iff, List.eq_nil_iff_forall_not_mem]
  intro slot
  rw [SlotSet.mem_toList, Bool.not_eq_true]
  rcases h slot with hfree | ⟨wait, period, hwaits⟩
  · rw [contains_tick, hfree, Option.any_none]
  · have hne := Nat.ne_of_gt (hlong slot wait period hwaits)
    rw [hwaits.tick.1, decide_eq_false hne]

/-- **The millisecond in which the answer is up** reports a slot. -/
theorem NoneOverdue.isEmpty_tick_of_timeToNext?_eq_one (h : s.NoneOverdue)
    (hnext : s.timeToNext? = some 1) : s.tick.1.isEmpty = false := by
  obtain ⟨⟨slot, period, hwaits⟩, -⟩ := h.timeToNext?_eq_some_iff.mp hnext
  have hmem : slot ∈ s.tick.1.toList := by
    rw [SlotSet.mem_toList, hwaits.tick.1]
    rfl
  rw [SlotSet.isEmpty, Bool.eq_false_iff, Ne, List.isEmpty_iff]
  exact List.ne_nil_of_mem hmem

theorem NoneOverdue.pos_of_timeToNext? (h : s.NoneOverdue) (hnext : s.timeToNext? = some m) :
    0 < m := by
  obtain ⟨⟨slot, period, hwaits⟩, -⟩ := h.timeToNext?_eq_some_iff.mp hnext
  exact hwaits.wait_pos

variable [Ticker τ]

/-- **A millisecond before the answer is up** reports nothing, and brings the answer down by one. -/
theorem NoneOverdue.tick_of_timeToNext? (h : s.NoneOverdue) (hpos : 0 < m)
    (hnext : s.timeToNext? = some (m + 1)) :
    s.tick.1.isEmpty = true ∧ s.tick.2.timeToNext? = some m := by
  obtain ⟨⟨slot, period, hwaits⟩, hleast⟩ := h.timeToNext?_eq_some_iff.mp hnext
  have hless (wait rest : Nat) (hlong : m + 1 ≤ wait) : waitAfter wait rest = wait - 1 :=
    if_neg (by omega)
  constructor
  · refine h.isEmpty_tick fun other wait rest hother => ?_
    have hle := hleast other wait rest hother
    omega
  · have hthen : s.tick.2.NoneOverdue := h.act .tick
    refine hthen.timeToNext?_eq_some_iff.mpr ⟨⟨slot, period, ?_⟩, ?_⟩
    · have hafter := hwaits.tick.2
      rwa [hless _ _ (Nat.le_refl _)] at hafter
    · intro other wait rest hother
      -- the slot waited before, and for a millisecond more
      rcases h other with hfree | ⟨before, rest', hbefore⟩
      · obtain ⟨job, hjob, -⟩ := hother.exists_job
        rw [job?_tick, hfree] at hjob
        cases hjob
      · have hle := hleast other before rest' hbefore
        have hsame := hother.unique hbefore.tick.2
        rw [hless before rest' hle] at hsame
        omega

/-- What is reported in the millisecond that follows on `n` others. -/
def reportAfter (s : Scheduler τ) (n : Nat) : SlotSet := (s.run (List.replicate n .tick)).tick.1

/-- **The answer counts the milliseconds** up to the first that reports a slot. -/
theorem NoneOverdue.isEmpty_reportAfter (h : s.NoneOverdue) (hnext : s.timeToNext? = some m) :
    (∀ n, n + 1 < m → (s.reportAfter n).isEmpty = true) ∧
      (s.reportAfter (m - 1)).isEmpty = false := by
  induction m generalizing s with
  | zero => exact absurd (h.pos_of_timeToNext? hnext) (Nat.lt_irrefl 0)
  | succ m ih =>
    rcases Nat.eq_zero_or_pos m with rfl | hpos
    · exact ⟨fun n hn => by omega, h.isEmpty_tick_of_timeToNext?_eq_one hnext⟩
    obtain ⟨hnone, hrest⟩ := h.tick_of_timeToNext? hpos hnext
    obtain ⟨hsilent, hlast⟩ := ih (h.act .tick) hrest
    constructor
    · intro n hn
      rcases n with _ | n
      · exact hnone
      · exact hsilent n (by omega)
    · obtain ⟨k, rfl⟩ := Nat.exists_eq_succ_of_ne_zero (Nat.ne_of_gt hpos)
      exact hlast

/-- **Sleeping misses nothing and is never too short.** After any history of a new scheduler, over
any ticker: either no slot holds a job, and there is nothing to wait for; or some slot does, and the
answer is a number of milliseconds from 1 to 65535, of which none before the last reports a slot,
and the last one does. -/
theorem timeToNext?_run (ticker : τ) (acts : List Act) :
    let s := (ofTicker ticker).run acts
    (s.timeToNext? = none ∧ ∀ slot, s.isOccupied slot = false) ∨
      ∃ m, s.timeToNext? = some m ∧ (∃ slot, s.isOccupied slot = true) ∧ 1 ≤ m ∧ m ≤ 65535 ∧
        (∀ n, n + 1 < m → (s.reportAfter n).isEmpty = true) ∧
        (s.reportAfter (m - 1)).isEmpty = false := by
  intro s
  have h : s.NoneOverdue := (noneOverdue_ofTicker ticker).run acts
  rcases hnext : s.timeToNext? with _ | m
  · exact Or.inl ⟨rfl, timeToNext?_eq_none_iff.mp hnext⟩
  obtain ⟨⟨slot, period, hwaits⟩, -⟩ := h.timeToNext?_eq_some_iff.mp hnext
  obtain ⟨job, hjob, hwait, -⟩ := hwaits.exists_job
  have hlt : m < 65536 := hwait ▸ (job.due - s.now).toNat_lt
  refine Or.inr ⟨m, rfl, ⟨slot, ?_⟩, hwaits.wait_pos, Nat.le_of_lt_succ hlt,
    h.isEmpty_reportAfter hnext⟩
  rw [isOccupied, hjob, Option.isSome_some]

end MorseKeyboard.Scheduler
