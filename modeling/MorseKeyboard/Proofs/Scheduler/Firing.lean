import Mathlib.Data.List.Induction
import MorseKeyboard.Proofs.Scheduler.Waiting

/-!
# When a slot is reported

A scheduler is told to register jobs and to drop them, and time passes. Out of a whole history of
this only one thing matters to the reports of a slot: **the last act that was about it**. If that
registered a job, the slot is reported whenever the milliseconds since then are a multiple of the
period; if it took the job out, or there was none, the slot is not reported at all
(`MorseKeyboard.Scheduler.mem_drain_tick_run_iff`). An earlier job, the other slots and the state of
the clock have no say. Nor does it matter how often the clock has wrapped, for the wait of a slot is
an ordinary number (`MorseKeyboard.Scheduler.Waits`): after `n` milliseconds there are
`period - n % period` left of it.

The slots that are reported together are taken out of their set one by one
(`MorseKeyboard.SlotSet.drain`). They come out in slot order, and each comes out once.
-/

namespace MorseKeyboard

/-! ### Taking the slots out of a set -/

namespace SlotSet

/-- The slots of a set are listed in slot order. -/
theorem pairwise_toList (x : SlotSet) : x.toList.Pairwise fun s r => s.index < r.index := by
  have hall : Slot.all.Pairwise fun s r => s.index < r.index := by decide
  exact hall.filter x.contains

theorem nodup_toList (x : SlotSet) : x.toList.Nodup :=
  x.pairwise_toList.imp fun hlt heq => Nat.ne_of_lt hlt (congrArg (Fin.val ∘ Slot.index) heq)

theorem toList_erase (x : SlotSet) (s : Slot) :
    (x.erase s).toList = x.toList.filter fun r => s != r := by
  rw [toList, toList, List.filter_filter]
  exact List.filter_congr fun r _ => contains_erase x s r

theorem next?_eq_none_iff {x : SlotSet} : x.next? = none ↔ x.toList = [] := by
  rw [next?]
  split <;> simp_all

/-- The slot that is taken out is the first of the list, and the rest of the list stays. -/
theorem next?_eq_some_iff {x y : SlotSet} {s : Slot} :
    x.next? = some (s, y) ↔ y = x.erase s ∧ x.toList = s :: y.toList := by
  rw [next?]
  rcases hlist : x.toList with _ | ⟨first, rest⟩
  · simp
  have hfirst : first ∉ rest := (List.nodup_cons.mp (hlist ▸ x.nodup_toList)).1
  have hrest : (x.erase first).toList = rest := by
    rw [toList_erase, hlist, List.filter_cons_of_neg (by simp)]
    refine List.filter_eq_self.mpr fun r hr => bne_iff_ne.mpr ?_
    rintro rfl
    exact hfirst hr
  constructor
  · rintro ⟨⟩
    exact ⟨rfl, by rw [hrest]⟩
  · rintro ⟨rfl, heq⟩
    rw [(List.cons.inj heq).1]

theorem length_toList_lt_of_next? {x y : SlotSet} {s : Slot} (h : x.next? = some (s, y)) :
    y.toList.length < x.toList.length := by
  rw [(next?_eq_some_iff.mp h).2]
  exact Nat.lt_succ_self _

/-- Take the slots out of a set, until none is left. -/
def drain (x : SlotSet) : List Slot :=
  match hnext : x.next? with
  | none => []
  | some (s, y) =>
    have := length_toList_lt_of_next? hnext
    s :: y.drain
termination_by x.toList.length

/-- **The slots come out as they are listed.** -/
theorem drain_eq_toList (x : SlotSet) : x.drain = x.toList := by
  fun_induction drain x with
  | case1 x hnone => exact (next?_eq_none_iff.mp hnone).symm
  | case2 x s y hnext _ ih => rw [ih, (next?_eq_some_iff.mp hnext).2]

end SlotSet

namespace Scheduler

variable {τ : Type} {s : Scheduler τ} {slot : Slot} {wait period : Nat}

/-! ### Histories -/

/-- Something done to a scheduler. -/
inductive Act where
  /-- A slot gets a job. -/
  | register (slot : Slot) (period : UInt16)
  /-- A slot loses its job. -/
  | unregister (slot : Slot)
  /-- A millisecond passes. -/
  | tick
  deriving DecidableEq, Repr

/-- The slot that an act is about, if it is about one. -/
def Act.slot? : Act → Option Slot
  | register slot _ | unregister slot => some slot
  | tick => none

/-- **In every history there is a last act about a slot**, unless there is none at all. -/
theorem Act.exists_last (slot : Slot) (acts : List Act) :
    (∀ a ∈ acts, a.slot? ≠ some slot) ∨
      ∃ before a after, acts = before ++ a :: after ∧ a.slot? = some slot ∧
        ∀ b ∈ after, b.slot? ≠ some slot := by
  induction acts using List.reverseRecOn with
  | nil => exact Or.inl fun a ha => absurd ha List.not_mem_nil
  | append_singleton acts last ih =>
    by_cases hlast : last.slot? = some slot
    · exact Or.inr ⟨acts, last, [], rfl, hlast, fun b hb => absurd hb List.not_mem_nil⟩
    rcases ih with hnone | ⟨before, a, after, rfl, ha, hafter⟩
    · refine Or.inl fun b hb => ?_
      rcases List.mem_append.mp hb with hb | hb
      · exact hnone b hb
      · exact List.mem_singleton.mp hb ▸ hlast
    · refine Or.inr ⟨before, a, after ++ [last], by simp, ha, fun b hb => ?_⟩
      rcases List.mem_append.mp hb with hb | hb
      · exact hafter b hb
      · exact List.mem_singleton.mp hb ▸ hlast

variable [Ticker τ]

/-- What becomes of a scheduler in an act. -/
def act (s : Scheduler τ) : Act → Scheduler τ
  | .register slot period => s.register slot period
  | .unregister slot => s.unregister slot
  | .tick => s.tick.2

/-- One thing is done after another. -/
def run (s : Scheduler τ) (acts : List Act) : Scheduler τ := acts.foldl act s

theorem run_append (s : Scheduler τ) (acts more : List Act) :
    s.run (acts ++ more) = (s.run acts).run more := List.foldl_append

theorem run_concat (s : Scheduler τ) (acts : List Act) (a : Act) :
    s.run (acts ++ [a]) = (s.run acts).act a := run_append s acts [a]

/-! ### A slot with a job -/

/-- A period of zero counts as one, and the job waits for its period. -/
theorem waits_register_max (s : Scheduler τ) (slot : Slot) (period : UInt16) :
    (s.register slot period).Waits slot (max period 1).toNat (max period 1).toNat := by
  have hpos : 0 < (max period 1).toNat := by
    show 0 < (if period ≤ 1 then 1 else period : UInt16).toNat
    split
    · decide
    · next hle =>
      have hlt := UInt16.lt_iff_toNat_lt.mp (UInt16.not_le.mp hle)
      exact Nat.lt_of_le_of_lt (Nat.zero_le _) hlt
  have hsame : s.register slot period = s.register slot (max period 1) := by
    rw [register, register, max_one_of_pos hpos]
  rw [hsame]
  exact waits_register s slot hpos

/-- After so many milliseconds the wait is over with the next one, if that makes a multiple of the
period of them. -/
theorem sub_mod_eq_one_iff (hperiod : 0 < period) (n : Nat) :
    period - n % period = 1 ↔ period ∣ n + 1 := by
  have hlt := Nat.mod_lt n hperiod
  have hsplit : n + 1 = period * (n / period) + (n % period + 1) := by
    rw [← Nat.add_assoc, Nat.div_add_mod]
  rw [hsplit, Nat.dvd_add_right (Nat.dvd_mul_right _ _)]
  constructor
  · intro hone
    have hall : n % period + 1 = period := by omega
    exact ⟨1, by rw [hall, Nat.mul_one]⟩
  · intro hdvd
    have hle := Nat.le_of_dvd (Nat.succ_pos _) hdvd
    omega

/-- A millisecond later the wait is what it should be a millisecond later. -/
theorem waitAfter_sub_mod (hperiod : 0 < period) (n : Nat) :
    waitAfter (period - n % period) period = period - (n + 1) % period := by
  have hlt := Nat.mod_lt n hperiod
  rw [waitAfter]
  split
  · next hone => rw [Nat.mod_eq_zero_of_dvd ((sub_mod_eq_one_iff hperiod n).mp hone), Nat.sub_zero]
  · next hne =>
    have hnext : (n + 1) % period = n % period + 1 := by
      rw [← Nat.mod_add_mod, Nat.mod_eq_of_lt (by omega)]
    omega

/-- An act that is not about a slot leaves its wait alone, unless it is a millisecond. -/
theorem Waits.act (h : s.Waits slot wait period) {a : Act} (ha : a.slot? ≠ some slot) :
    (s.act a).Waits slot (if a = .tick then waitAfter wait period else wait) period := by
  cases a with
  | tick =>
    rw [if_pos rfl]
    exact h.tick.2
  | register other millis =>
    rw [if_neg (by rintro ⟨⟩)]
    exact h.register_of_ne (fun heq => ha (congrArg some heq)) millis
  | unregister other =>
    rw [if_neg (by rintro ⟨⟩)]
    exact h.unregister_of_ne fun heq => ha (congrArg some heq)

/-- **The wait runs down and begins again**, whatever is done to the other slots. -/
theorem Waits.run (h : s.Waits slot period period) {acts : List Act}
    (hacts : ∀ a ∈ acts, a.slot? ≠ some slot) :
    (s.run acts).Waits slot (period - acts.count .tick % period) period := by
  induction acts using List.reverseRecOn with
  | nil =>
    rw [List.count_nil, Nat.zero_mod]
    exact h
  | append_singleton acts a ih =>
    have hbefore := ih fun b hb => hacts b (List.mem_append_left _ hb)
    have hnext := hbefore.act (hacts a (List.mem_append_right _ (List.mem_singleton_self a)))
    rw [run_concat, List.count_append]
    by_cases htick : a = .tick
    · subst htick
      rw [if_pos rfl, waitAfter_sub_mod h.period_pos] at hnext
      rwa [List.count_singleton_self]
    · rw [if_neg htick] at hnext
      rwa [List.count_singleton, beq_eq_false_iff_ne.mpr htick]

/-- **A job is due whenever its period divides the milliseconds since it was registered.** -/
theorem contains_tick_run_register (s : Scheduler τ) (slot : Slot) (period : UInt16)
    {acts : List Act} (hacts : ∀ a ∈ acts, a.slot? ≠ some slot) :
    ((s.register slot period).run acts).tick.1.contains slot =
      decide ((max period 1).toNat ∣ acts.count .tick + 1) := by
  have hwaits := s.waits_register_max slot period
  rw [(hwaits.run hacts).tick.1]
  exact decide_eq_decide.mpr (sub_mod_eq_one_iff hwaits.period_pos _)

/-! ### A slot without a job -/

theorem job?_unregister (s : Scheduler τ) (slot : Slot) :
    (s.unregister slot).job? slot = none := by
  rw [unregister, isOccupied]
  split
  · dsimp only
    split <;> exact PerSlot.get_set_self _ _ _
  · next hfree => simpa using hfree

theorem job?_act_of_eq_none (h : s.job? slot = none) {a : Act} (ha : a.slot? ≠ some slot) :
    (s.act a).job? slot = none := by
  cases a with
  | tick => rw [act, job?_tick, h, Option.map_none]
  | register other millis =>
    exact (job?_register_of_ne _ (fun heq => ha (congrArg some heq)) millis).trans h
  | unregister other => exact (job?_unregister_of_ne _ fun heq => ha (congrArg some heq)).trans h

/-- **A slot without a job gets none by itself**, and it is not reported. -/
theorem contains_tick_run_of_job?_eq_none (h : s.job? slot = none) {acts : List Act}
    (hacts : ∀ a ∈ acts, a.slot? ≠ some slot) :
    (s.run acts).tick.1.contains slot = false := by
  suffices hnone : (s.run acts).job? slot = none by
    rw [contains_tick, hnone, Option.any_none]
  induction acts using List.reverseRecOn with
  | nil => exact h
  | append_singleton acts a ih =>
    have hbefore := ih fun b hb => hacts b (List.mem_append_left _ hb)
    rw [run_concat]
    exact job?_act_of_eq_none hbefore
      (hacts a (List.mem_append_right _ (List.mem_singleton_self a)))

/-! ### Every history -/

/-- **The last registration decides.** After any history of a new scheduler, over any ticker, the
next millisecond reports a slot exactly if the slot was registered, nothing was done to it since,
and the milliseconds since then, the next one included, are a multiple of the period; a period of
zero counts as one. The slots that a millisecond reports come out in slot order, each once. -/
theorem mem_drain_tick_run_iff (ticker : τ) (acts : List Act) :
    let reported := ((ofTicker ticker).run acts).tick.1.drain
    (reported.Pairwise fun s r => s.index < r.index) ∧
      ∀ slot, slot ∈ reported ↔
        ∃ before period after, acts = before ++ .register slot period :: after ∧
          (∀ a ∈ after, a.slot? ≠ some slot) ∧
          (max period 1).toNat ∣ after.count .tick + 1 := by
  intro reported
  have hreported : reported = ((ofTicker ticker).run acts).tick.1.toList :=
    SlotSet.drain_eq_toList _
  rw [hreported]
  refine ⟨SlotSet.pairwise_toList _, fun slot => ?_⟩
  rw [SlotSet.mem_toList]
  constructor
  · intro hdue
    rcases Act.exists_last slot acts with hnone | ⟨before, a, after, rfl, ha, hafter⟩
    -- nothing was ever done to the slot
    · have hfree : (ofTicker ticker).job? slot = none := PerSlot.get_ofFn _ _
      rw [contains_tick_run_of_job?_eq_none hfree hnone] at hdue
      cases hdue
    rw [run_append] at hdue
    cases a with
    | tick => cases ha
    | register other period =>
      obtain rfl := Option.some.inj ha
      have hlaw := contains_tick_run_register ((ofTicker ticker).run before) other period hafter
      exact ⟨before, period, after, rfl, hafter, of_decide_eq_true (hlaw.symm.trans hdue)⟩
    | unregister other =>
      obtain rfl := Option.some.inj ha
      have hfree := job?_unregister ((ofTicker ticker).run before) other
      cases (contains_tick_run_of_job?_eq_none hfree hafter).symm.trans hdue
  · rintro ⟨before, period, after, rfl, hafter, hdvd⟩
    rw [run_append]
    exact (contains_tick_run_register _ slot period hafter).trans (decide_eq_true hdvd)

end Scheduler

end MorseKeyboard
