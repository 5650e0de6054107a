import Mathlib.Data.List.Chain
import MorseKeyboard.Proofs.Scheduler.Firing

/-!
# When the ticker runs

The ticker has to run while a slot holds a job, and only then. The scheduler starts it with the
first job and stops it after the last, and it finds out which job is the first and which the last by
looking at its slots. A slot may be registered twice, and one that is free may be unregistered;
neither must start or stop anything.

What an act asks of the ticker is a matter of the jobs alone: **a start if there were none and now
there are, a stop if there were some and now there are none**, and nothing otherwise
(`MorseKeyboard.Scheduler.ticker_act`). So the calls of a history are the same for every ticker.
They can be read off a ticker that does nothing but keep a record (`MorseKeyboard.TickerRecord`),
and any other ticker ends up where the calls on record lead it (`MorseKeyboard.Scheduler.Obeys`). On
record starts and stops come by turns, a start first, and the last call is a start exactly while
there are jobs (`MorseKeyboard.Scheduler.Balanced`).
-/

namespace MorseKeyboard

/-! ### What is asked of a ticker -/

namespace Ticker

/-- Something asked of a ticker. -/
inductive Call where
  | start
  | stop
  deriving DecidableEq, Repr

/-- What is asked of a ticker when the scheduler had jobs or had none, and now has some or has
none. -/
def Call.between : Bool → Bool → List Call
  | false, true => [start]
  | true, false => [stop]
  | false, false | true, true => []

/-- Do what is asked. -/
def obey {τ : Type} [Ticker τ] (ticker : τ) : Call → τ
  | .start => Ticker.start ticker
  | .stop => Ticker.stop ticker

end Ticker

/-- A ticker that does nothing but keep a record of what is asked of it. -/
structure TickerRecord where
  calls : List Ticker.Call
  deriving DecidableEq, Repr

namespace TickerRecord

/-- Nothing has been asked yet. -/
def blank : TickerRecord := ⟨[]⟩

instance : Ticker TickerRecord where
  start r := ⟨r.calls ++ [.start]⟩
  stop r := ⟨r.calls ++ [.stop]⟩

end TickerRecord

namespace PolledTicker

/-- A polled ticker runs if it was started last. -/
theorem isRunning_foldl_obey (calls : List Ticker.Call) :
    (calls.foldl Ticker.obey free).isRunning = decide (calls.getLast? = some .start) := by
  induction calls using List.reverseRecOn with
  | nil => rfl
  | append_singleton calls call =>
    rw [List.foldl_append, List.getLast?_concat]
    cases call <;> rfl

/-- A polled ticker counts its calls, as far as its counters go. -/
theorem count_foldl_obey (calls : List Ticker.Call) :
    (calls.foldl Ticker.obey free).startCount.toNat = calls.count .start % UInt32.size ∧
      (calls.foldl Ticker.obey free).stopCount.toNat = calls.count .stop % UInt32.size := by
  induction calls using List.reverseRecOn with
  | nil => exact ⟨rfl, rfl⟩
  | append_singleton calls call ih =>
    obtain ⟨hstart, hstop⟩ := ih
    rw [List.foldl_append, List.foldl_cons, List.foldl_nil, List.count_append, List.count_append]
    cases call with
    | start =>
      refine ⟨?_, hstop⟩
      show ((calls.foldl Ticker.obey free).startCount + 1).toNat = _
      rw [UInt32.toNat_add, hstart, List.count_singleton_self, UInt32.toNat_one, Nat.mod_add_mod]
    | stop =>
      refine ⟨hstart, ?_⟩
      show ((calls.foldl Ticker.obey free).stopCount + 1).toNat = _
      rw [UInt32.toNat_add, hstop, List.count_singleton_self, UInt32.toNat_one, Nat.mod_add_mod]

end PolledTicker

namespace Scheduler

variable {τ : Type}

/-! ### Active schedulers -/

theorem isActive_iff {s : Scheduler τ} :
    s.isActive = true ↔ ∃ slot, s.isOccupied slot = true := by
  simp [isActive, PerSlot.toList, Slot.mem_all, isOccupied, job?]

/-- The scheduler is active or not by its jobs alone. -/
theorem isActive_congr {σ : Type} {s : Scheduler τ} {r : Scheduler σ}
    (h : ∀ slot, s.isOccupied slot = r.isOccupied slot) : s.isActive = r.isActive := by
  rw [Bool.eq_iff_iff, isActive_iff, isActive_iff]
  exact exists_congr fun slot => by rw [h slot]

theorem isOccupied_tick (s : Scheduler τ) (slot : Slot) :
    s.tick.2.isOccupied slot = s.isOccupied slot := by
  rw [isOccupied, job?_tick, Option.isSome_map, isOccupied]

theorem isActive_tick (s : Scheduler τ) : s.tick.2.isActive = s.isActive :=
  isActive_congr s.isOccupied_tick

variable [Ticker τ]

/-- Registering fills the slot and no other. -/
theorem isOccupied_register (s : Scheduler τ) (slot : Slot) (period : UInt16) (other : Slot) :
    (s.register slot period).isOccupied other = (decide (slot = other) || s.isOccupied other) := by
  by_cases heq : slot = other
  · subst heq
    obtain ⟨job, hjob, -⟩ := (s.waits_register_max slot period).exists_job
    rw [isOccupied, hjob, decide_eq_true rfl, Option.isSome_some, Bool.true_or]
  · rw [isOccupied, job?_register_of_ne s heq, decide_eq_false heq, Bool.false_or, isOccupied]

theorem isActive_register (s : Scheduler τ) (slot : Slot) (period : UInt16) :
    (s.register slot period).isActive = true :=
  isActive_iff.mpr ⟨slot, by rw [isOccupied_register, decide_eq_true rfl, Bool.true_or]⟩

/-! ### What an act asks of the ticker -/

theorem jobs_unregister (s : Scheduler τ) (slot : Slot) :
    (s.unregister slot).jobs = if s.isOccupied slot then s.jobs.set slot none else s.jobs := by
  rw [unregister]
  split
  · dsimp only
    split <;> rfl
  · rfl

/-- **The jobs alone decide what is asked of the ticker.** -/
theorem ticker_act (s : Scheduler τ) (a : Act) :
    (s.act a).ticker =
      (Ticker.Call.between s.isActive (s.act a).isActive).foldl Ticker.obey s.ticker := by
  cases a with
  | register slot period =>
    rw [act, isActive_register, register]
    cases s.isActive <;> rfl
  | tick =>
    rw [act, isActive_tick]
    cases s.isActive <;> rfl
  | unregister slot =>
    rw [act, unregister]
    split
    · next hslot =>
      have hbefore : s.isActive = true := isActive_iff.mpr ⟨slot, hslot⟩
      dsimp only
      split
      · next hafter => rw [hbefore, hafter]; rfl
      · next hafter =>
        have hnone : ({ s with jobs := s.jobs.set slot none } : Scheduler τ).isActive = false :=
          Bool.eq_false_iff.mpr hafter
        show Ticker.stop s.ticker = (Ticker.Call.between s.isActive
          ({ s with jobs := s.jobs.set slot none } : Scheduler τ).isActive).foldl _ _
        rw [hbefore, hnone]
        rfl
    -- a slot that is free is not touched
    · cases s.isActive <;> rfl

/-! ### The calls of a history -/

/-- **Two schedulers go the same way**, one of which only keeps a record of its calls: they have the
same clock and the same jobs, and the ticker of the other one has done what is on record. -/
structure Obeys (s : Scheduler τ) (ticker : τ) (r : Scheduler TickerRecord) : Prop where
  now : s.now = r.now
  jobs : s.jobs = r.jobs
  ticker : s.ticker = r.ticker.calls.foldl Ticker.obey ticker

variable {s : Scheduler τ} {ticker : τ} {r : Scheduler TickerRecord}

omit [Ticker τ] in
theorem isOccupied_congr (h : s.jobs = r.jobs) (slot : Slot) :
    s.isOccupied slot = r.isOccupied slot := by
  rw [isOccupied, isOccupied, job?, job?, h]

/-- What a call adds to a record. -/
theorem calls_act (r : Scheduler TickerRecord) (a : Act) :
    (r.act a).ticker.calls =
      r.ticker.calls ++ Ticker.Call.between r.isActive (r.act a).isActive := by
  rw [ticker_act]
  cases r.isActive <;> cases (r.act a).isActive <;>
    simp [Ticker.Call.between, Ticker.obey, Ticker.start, Ticker.stop]

theorem Obeys.act (h : s.Obeys ticker r) (a : Act) : (s.act a).Obeys ticker (r.act a) := by
  have hslots := isOccupied_congr h.jobs
  have hnow : (s.act a).now = (r.act a).now := by
    cases a with
    | register slot period => exact h.now
    | unregister slot =>
      exact (now_unregister s slot).trans (h.now.trans (now_unregister r slot).symm)
    | tick => exact congrArg (· + 1) h.now
  have hjobs : (s.act a).jobs = (r.act a).jobs := by
    cases a with
    | register slot period =>
      show s.jobs.set slot _ = r.jobs.set slot _
      rw [h.jobs, h.now]
    | unregister slot =>
      rw [Scheduler.act, Scheduler.act, jobs_unregister, jobs_unregister, hslots, h.jobs]
    | tick =>
      show PerSlot.ofFn (fun slot => (s.job? slot).map (·.pass (s.now + 1))) =
        PerSlot.ofFn fun slot => (r.job? slot).map (·.pass (r.now + 1))
      simp only [job?, h.jobs, h.now]
  refine ⟨hnow, hjobs, ?_⟩
  rw [ticker_act, calls_act, List.foldl_append, ← h.ticker, isActive_congr hslots,
    isActive_congr (isOccupied_congr hjobs)]

/-- **Every ticker ends up where the calls on record lead it.** -/
theorem Obeys.run (h : s.Obeys ticker r) (acts : List Act) :
    (s.run acts).Obeys ticker (r.run acts) := by
  induction acts generalizing s r with
  | nil => exact h
  | cons a acts ih => exact ih (h.act a)

/-- **The calls on record are in balance with the jobs.** -/
structure Balanced (r : Scheduler TickerRecord) : Prop where
  /-- No call comes twice running. -/
  byTurns : r.ticker.calls.IsChain (· ≠ ·)
  /-- A stop is not the first. -/
  head : r.ticker.calls.head? ≠ some .stop
  /-- A start is the last while there are jobs. -/
  last : r.ticker.calls.getLast? = some .start ↔ r.isActive = true
  /-- While there are jobs there is one more start. -/
  count : r.ticker.calls.count .start = r.ticker.calls.count .stop + r.isActive.toNat

theorem balanced_blank : (ofTicker TickerRecord.blank).Balanced where
  byTurns := List.IsChain.nil
  head := by decide
  last := by decide
  count := by decide

/-- An act that calls for nothing keeps the balance. -/
theorem Balanced.keep (h : r.Balanced) {r' : Scheduler TickerRecord}
    (hcalls : r'.ticker.calls = r.ticker.calls) (hactive : r'.isActive = r.isActive) :
    r'.Balanced := by
  refine ⟨?_, ?_, ?_, ?_⟩ <;> rw [hcalls]
  · exact h.byTurns
  · exact h.head
  · rw [hactive]
    exact h.last
  · rw [hactive]
    exact h.count

/-- A call that is not the last one again keeps the calls by turns. -/
theorem Balanced.isChain_concat (h : r.Balanced) {call : Ticker.Call}
    (hlast : r.ticker.calls.getLast? ≠ some call) :
    (r.ticker.calls ++ [call]).IsChain (· ≠ ·) := by
  refine List.isChain_append.mpr ⟨h.byTurns, List.isChain_singleton call, ?_⟩
  intro last hmem next hnext heq
  obtain rfl : call = next := Option.some.inj hnext
  exact hlast (heq ▸ hmem)

/-- **A start does not follow on a start**: there were no jobs. -/
theorem Balanced.start (h : r.Balanced) {r' : Scheduler TickerRecord}
    (hcalls : r'.ticker.calls = r.ticker.calls ++ [.start]) (hbefore : r.isActive = false)
    (hafter : r'.isActive = true) : r'.Balanced := by
  have hlast : r.ticker.calls.getLast? ≠ some .start := by
    rw [Ne, h.last, hbefore]
    exact Bool.false_ne_true
  have hcount := h.count
  rw [hbefore, Bool.toNat_false, Nat.add_zero] at hcount
  refine ⟨?_, ?_, ?_, ?_⟩ <;> rw [hcalls]
  · exact h.isChain_concat hlast
  · rw [List.head?_append]
    intro hhead
    rcases Option.or_eq_some_iff.mp hhead with hhead | ⟨-, hhead⟩
    · exact h.head hhead
    · cases hhead
  · rw [List.getLast?_concat, hafter]
    exact iff_of_true rfl rfl
  · rw [hafter]
    simp [hcount]

/-- **A stop follows on a start**: there were jobs. -/
theorem Balanced.stop (h : r.Balanced) {r' : Scheduler TickerRecord}
    (hcalls : r'.ticker.calls = r.ticker.calls ++ [.stop]) (hbefore : r.isActive = true)
    (hafter : r'.isActive = false) : r'.Balanced := by
  have hlast : r.ticker.calls.getLast? = some .start := h.last.mpr hbefore
  have hcount := h.count
  rw [hbefore, Bool.toNat_true] at hcount
  refine ⟨?_, ?_, ?_, ?_⟩ <;> rw [hcalls]
  · exact h.isChain_concat (by rw [hlast]; decide)
  -- there is a first call already
  · have hsome : r.ticker.calls ≠ [] := by
      intro hnil
      rw [hnil] at hlast
      cases hlast
    rw [List.head?_append_of_ne_nil _ hsome]
    exact h.head
  · rw [List.getLast?_concat, hafter]
    decide
  · rw [hafter]
    simp [hcount]

/-- **Every act keeps the balance.** -/
theorem Balanced.act (h : r.Balanced) (a : Act) : (r.act a).Balanced := by
  have hcalls := calls_act r a
  rcases hbefore : r.isActive with _ | _ <;> rcases hafter : (r.act a).isActive with _ | _ <;>
    rw [hbefore, hafter, Ticker.Call.between] at hcalls
  · exact h.keep (hcalls.trans (List.append_nil _)) (hafter.trans hbefore.symm)
  · exact h.start hcalls hbefore hafter
  · exact h.stop hcalls hbefore hafter
  · exact h.keep (hcalls.trans (List.append_nil _)) (hafter.trans hbefore.symm)

/-- **Every history keeps the balance.** -/
theorem Balanced.run (h : r.Balanced) (acts : List Act) : (r.run acts).Balanced := by
  induction acts generalizing r with
  | nil => exact h
  | cons a acts ih => exact ih (h.act a)

/-- **The ticker runs exactly while a slot holds a job.** In any history of a new scheduler over a
polled ticker that nobody owns, the ticker has done what a record of the calls says. On record no
start follows on a start and no stop on a stop, and a stop is not the first. So after every act the
ticker runs if the scheduler has jobs and not otherwise; and as long as there were fewer starts than
its counters can tell, they show one more start than stops while there are jobs, and as many while
there are none. -/
theorem isRunning_run (acts : List Act) :
    let s := (ofTicker PolledTicker.free).run acts
    let calls := ((ofTicker TickerRecord.blank).run acts).ticker.calls
    s.ticker = calls.foldl Ticker.obey PolledTicker.free ∧
      calls.IsChain (· ≠ ·) ∧ calls.head? ≠ some .stop ∧
      s.ticker.isRunning = s.isActive ∧
      (calls.count .start < UInt32.size →
        s.ticker.startCount.toNat = s.ticker.stopCount.toNat + s.isActive.toNat) := by
  intro s calls
  have hbegin : (ofTicker PolledTicker.free).Obeys PolledTicker.free
      (ofTicker TickerRecord.blank) := ⟨rfl, rfl, rfl⟩
  have hobeys : s.Obeys PolledTicker.free ((ofTicker TickerRecord.blank).run acts) :=
    hbegin.run acts
  have hbalanced := balanced_blank.run acts
  have hactive := isActive_congr (isOccupied_congr hobeys.jobs)
  obtain ⟨hstart, hstop⟩ := PolledTicker.count_foldl_obey calls
  refine ⟨hobeys.ticker, hbalanced.byTurns, hbalanced.head, ?_, ?_⟩
  · rw [hobeys.ticker, PolledTicker.isRunning_foldl_obey, hactive, Bool.eq_iff_iff,
      decide_eq_true_iff]
    exact hbalanced.last
  · intro hfew
    have hcount : calls.count .start = calls.count .stop + s.isActive.toNat := by
      rw [hactive]
      exact hbalanced.count
    rw [hobeys.ticker, hstart, hstop, Nat.mod_eq_of_lt hfew, Nat.mod_eq_of_lt (by omega)]
    exact hcount

/-- Two slots are registered, one of them twice, and then unregistered, one of them twice. The
ticker is started once and stopped once. -/
theorem isRunning_run_two :
    let acts : List Act := [.register .keyer 1, .register .host 10, .register .keyer 5,
      .unregister .keyer, .unregister .keyer, .unregister .host]
    let s := (ofTicker PolledTicker.free).run acts
    ((ofTicker TickerRecord.blank).run acts).ticker.calls = [.start, .stop] ∧
      s.ticker.isRunning = s.isActive ∧
      s.ticker.startCount.toNat = s.ticker.stopCount.toNat + s.isActive.toNat := by
  intro acts s
  have hcalls : ((ofTicker TickerRecord.blank).run acts).ticker.calls = [.start, .stop] := by
    decide
  obtain ⟨-, -, -, hrunning, hcount⟩ := isRunning_run acts
  exact ⟨hcalls, hrunning, hcount (by rw [hcalls]; decide)⟩

end Scheduler

end MorseKeyboard
