import MorseKeyboard.Proofs.Keyboard.MakingUp
import MorseKeyboard.Proofs.Keyboard.Routing

/-!
# Announcing that the keyboard fell behind

A keyboard records two faults: that its ticker was in use when it was to be started, and that it
fell behind its clock, which it announces with a notice when it is asked to. The faults recorded
since the last announcement are a *batch* (`MorseKeyboard.Keyboard.unannounced`). Of a batch, the
register keeps the number and the **latest fault only**
(`MorseKeyboard.FaultRegister.Owes`), and the number in 32 bits. So a notice is due not if there is
an overrun in the batch but **if the last fault of the batch is one**, unless there are so many
faults that the number has come round to zero (`MorseKeyboard.Keyboard.announced_run`).

An overrun is passed over, therefore, if a start is refused after it
(`MorseKeyboard.Keyboard.unannounced_refusedStart`).
-/

namespace MorseKeyboard

/-! ### What a register owes -/

namespace FaultRegister

variable {r : FaultRegister} {batch : List Fault}

/-- **What a register keeps of a batch of faults** that are not acknowledged: their number, as the
difference of the counters, and the last of them. -/
structure Owes (r : FaultRegister) (batch : List Fault) : Prop where
  raised_eq : r.raised = r.seen + UInt32.ofNat batch.length
  fault_eq : ∀ f, batch.getLast? = some f → r.fault = f

/-- After an acknowledgement nothing is owed. -/
theorem owes_acknowledge (r : FaultRegister) : r.acknowledge.2.Owes [] where
  raised_eq := (UInt32.add_zero _).symm
  fault_eq _ h := nomatch h

/-- A register with no news owes nothing. -/
theorem owes_nil (h : r.acknowledge.1 = false) : r.Owes [] where
  raised_eq := ((bne_eq_false_iff_eq.mp h).symm).trans (UInt32.add_zero _).symm
  fault_eq _ h := nomatch h

/-- **A fault comes last in the batch**, and the register keeps it instead of the one before it. -/
theorem Owes.raise (h : r.Owes batch) (fault : Fault) (detail : UInt32) :
    (r.raise fault detail).Owes (batch ++ [fault]) where
  raised_eq := by
    show r.raised + 1 = r.seen + UInt32.ofNat (batch ++ [fault]).length
    rw [h.raised_eq, List.length_append, UInt32.ofNat_add, UInt32.add_assoc]
    rfl
  fault_eq f hf := by
    rw [List.getLast?_concat] at hf
    rw [fault_raise, Option.some_inj.mp hf]

/-- **There is news unless the number of the faults has come round to zero.** -/
theorem Owes.acknowledge_iff (h : r.Owes batch) :
    r.acknowledge.1 = true ↔ ¬2 ^ 32 ∣ batch.length := by
  show (r.seen != r.raised) = true ↔ _
  rw [bne_iff_ne, h.raised_eq, ne_comm, ne_eq, UInt32.add_eq_left, ← UInt32.toNat_inj,
    UInt32.toNat_ofNat', Nat.dvd_iff_mod_eq_zero]
  rfl

/-- **There is news of an overrun** if the last fault of the batch is one, unless the number of the
faults has come round to zero. -/
theorem Owes.overrun_iff (h : r.Owes batch) :
    (r.acknowledge.1 && r.acknowledge.2.fault == .tickOverrun) = true ↔
      batch.getLast? = some .tickOverrun ∧ ¬2 ^ 32 ∣ batch.length := by
  rw [Bool.and_eq_true, h.acknowledge_iff, beq_iff_eq, and_comm]
  refine and_congr_left fun hnews => ?_
  show r.fault = .tickOverrun ↔ _
  rcases hlast : batch.getLast? with _ | f
  -- no fault is no news
  · rw [List.getLast?_eq_none_iff.mp hlast] at hnews
    exact absurd (Nat.dvd_zero _) hnews
  · rw [h.fault_eq f hlast, Option.some_inj]

end FaultRegister

namespace Keyboard

variable {τ : Type} [Ticker τ]

/-! ### Batches of faults -/

/-- The fault that an act records, if it does: that several milliseconds had to be made up for, or
that the ticker was in use when the keyboard was to be started. -/
def fault? (kb : Keyboard τ) : Act τ → Option Fault
  | .operate (.makeUp n) => if 1 < n then some .tickOverrun else none
  | .operate (.request .start) =>
    match kb.scheduler.claim with
    | .ok _ => none
    | .error _ => some .tickerInUse
  | _ => none

/-- The faults that are not announced yet after an act, if these were not before it. -/
def leftUnannounced (kb : Keyboard τ) (batch : List Fault) : Act τ → List Fault
  | .operate (.request .announceOverruns) => []
  | a => batch ++ (kb.fault? a).toList

theorem leftUnannounced_of_ne {kb : Keyboard τ} {batch : List Fault} {a : Act τ}
    (ha : a ≠ .operate (.request .announceOverruns)) :
    kb.leftUnannounced batch a = batch ++ (kb.fault? a).toList := by
  rw [leftUnannounced]
  exact ha

/-- **The faults recorded since the last announcement** in the course of some acts, after those that
were not announced before. -/
def unannounced (kb : Keyboard τ) (batch : List Fault) : List (Act τ) → List Fault
  | [] => batch
  | a :: acts => (kb.act a).unannounced (kb.leftUnannounced batch a) acts

/-! ### What the acts record -/

theorem faults_reload (kb : Keyboard τ) : kb.reload.faults = kb.faults := by
  rw [reload, retime]
  split <;> rfl

/-- Only a start and an announcement concern the register. -/
theorem faults_handle (kb : Keyboard τ) {r : Request} (hstart : r ≠ .start)
    (hannounce : r ≠ .announceOverruns) : (kb.handle r).2.faults = kb.faults := by
  cases r with
  | start => exact absurd rfl hstart
  | announceOverruns => exact absurd rfl hannounce
  | send | playCallsign | storeCallsign | changeOver | edge => rfl
  | reload | tune | exchangePaddles => exact faults_reload _
  | play | storeMessage | repeatMessage | storePreset =>
    refine (congrArg faults (snd_settle_ite _ _ _ _)).trans ?_
    split <;> rfl
  | recallPreset =>
    refine (congrArg faults (snd_settle_ite _ _ _ _)).trans ?_
    split
    · exact faults_reload _
    · rfl

/-- **Everything but an announcement adds a fault to the register, or nothing.** -/
theorem faults_act (kb : Keyboard τ) {a : Act τ} (ha : a ≠ .operate (.request .announceOverruns)) :
    (∃ fault detail, kb.fault? a = some fault ∧
        (kb.act a).faults = kb.faults.raise fault detail) ∨
      kb.fault? a = none ∧ (kb.act a).faults = kb.faults := by
  cases a with
  | reschedule scheduler => exact Or.inr ⟨rfl, rfl⟩
  | operate op =>
    cases op with
    | tick => exact Or.inr ⟨rfl, kb.faults_tick⟩
    | makeUp n =>
      have hfaults := kb.faults_makeUp n
      by_cases hn : 1 < n
      · exact Or.inl ⟨.tickOverrun, n - 1, if_pos hn, hfaults.trans (if_pos hn)⟩
      · exact Or.inr ⟨if_neg hn, hfaults.trans (if_neg hn)⟩
    | queueEdge | changeSettings | readKeystroke | readMenu | takeSignals => exact Or.inr ⟨rfl, rfl⟩
    | register slot period | unregister slot =>
      refine Or.inr ⟨rfl, ?_⟩
      rw [act, operate]
      split <;> rfl
    | request r =>
      cases r with
      | start =>
        rw [fault?, act, operate, handle, start]
        cases kb.scheduler.claim with
        | ok scheduler => exact Or.inr ⟨rfl, rfl⟩
        | error refusal => exact Or.inl ⟨.tickerInUse, 0, rfl, rfl⟩
      | announceOverruns => exact absurd rfl ha
      | _ => exact Or.inr ⟨rfl, kb.faults_handle (by simp) (by simp)⟩

omit [Ticker τ] in
/-- An announcement acknowledges the faults. -/
theorem faults_announceOverruns (kb : Keyboard τ) :
    kb.announceOverruns.faults = kb.faults.acknowledge.2 := by
  rw [announceOverruns]
  dsimp only
  split <;> rfl

/-- **The register keeps what is to be kept of the batch**, whatever is done to the keyboard. -/
theorem owes_act {kb : Keyboard τ} {batch : List Fault} (h : kb.faults.Owes batch) (a : Act τ) :
    (kb.act a).faults.Owes (kb.leftUnannounced batch a) := by
  by_cases ha : a = .operate (.request .announceOverruns)
  · subst ha
    show kb.announceOverruns.faults.Owes []
    exact kb.faults_announceOverruns ▸ kb.faults.owes_acknowledge
  · rw [leftUnannounced_of_ne ha]
    obtain ⟨fault, detail, hfault, hfaults⟩ | ⟨hfault, hfaults⟩ := kb.faults_act ha
    · rw [hfault, hfaults]
      exact h.raise fault detail
    · rwa [hfault, hfaults, Option.toList_none, List.append_nil]

theorem owes_run {kb : Keyboard τ} {batch : List Fault} (h : kb.faults.Owes batch)
    (acts : List (Act τ)) : (kb.run acts).faults.Owes (kb.unannounced batch acts) := by
  induction acts generalizing kb batch with
  | nil => exact h
  | cons a acts ih => exact ih (owes_act h a)

/-! ### Announcements -/

/-- **The overruns are announced exactly if the latest fault is one.** A keyboard is built over
queues in order and a register with no news, and anything is done to it. An announcement then queues
the notice behind the characters that wait, of which the oldest are given up if there is no room, in
case the last fault recorded since the announcement before is an overrun and the number of these
faults is not a multiple of `2 ^ 32`. It queues nothing otherwise, and it does nothing else but
acknowledge the faults. -/
theorem announced_run (ticker : τ) {queues : Queues} (hqueues : queues.WellFormed)
    {faults : FaultRegister} (hfaults : faults.acknowledge.1 = false) (settings : Settings)
    (log : Logbook) (acts : List (Act τ)) :
    let kb := ofParts ticker queues faults settings log
    let last := kb.run acts
    let batch := kb.unannounced [] acts
    let told := (last.handle .announceOverruns).2
    told = { last with
        faults := last.faults.acknowledge.2
        queues := { last.queues with chars := told.queues.chars } } ∧
      told.queues.chars.toList =
        if batch.getLast? = some .tickOverrun ∧ ¬2 ^ 32 ∣ batch.length then
          Ring.newest 128 (last.queues.chars.toList ++ Text.bytes overrunText)
        else last.queues.chars.toList := by
  intro kb last batch told
  have hkb : kb.queues.WellFormed := (spares_reload _).wellFormed hqueues
  have hchars : last.queues.chars.WellFormed := (wellFormed_run hkb acts).chars
  have howes : last.faults.Owes batch := by
    refine owes_run ?_ acts
    rw [show kb.faults = faults from faults_reload _]
    exact FaultRegister.owes_nil hfaults
  let acknowledged : Keyboard τ := { last with faults := last.faults.acknowledge.2 }
  have htold : told = if batch.getLast? = some .tickOverrun ∧ ¬2 ^ 32 ∣ batch.length then
      acknowledged.send overrunText else acknowledged := by
    rw [← if_congr howes.overrun_iff rfl rfl]
    rfl
  rw [htold]
  split
  · exact ⟨rfl, Ring.toList_pushAll hchars _⟩
  · exact ⟨rfl, rfl⟩

/-- A keyboard whose ticker is in use, and stays so. -/
def unstartable : Keyboard PolledTicker := fresh .owned

/-- A start is refused, and then the keyboard falls behind by four milliseconds: the overrun is the
latest fault, and the notice is queued. -/
theorem announced_run_afterRefusal :
    let late : List (Act PolledTicker) := [.operate (.request .start), .operate (.makeUp 5)]
    let told := ((unstartable.run late).handle .announceOverruns).2
    ({} : Queues).WellFormed ∧ FaultRegister.fresh.acknowledge.1 = false ∧
      unstartable.unannounced [] late = [.tickerInUse, .tickOverrun] ∧
      told.queues.chars.toList = Text.bytes overrunText := by
  intro late told
  have hqueues : ({} : Queues).WellFormed := Queues.wellFormed_fresh
  have hfaults : FaultRegister.fresh.acknowledge.1 = false := rfl
  have hbatch : unstartable.unannounced [] late = [.tickerInUse, .tickOverrun] := by
    decide +kernel
  have hbefore : (unstartable.run late).queues.chars.toList = [] := by decide +kernel
  obtain ⟨-, htold⟩ := announced_run PolledTicker.owned hqueues hfaults .standard .empty late
  have hnotice : told.queues.chars.toList = Text.bytes overrunText :=
    calc told.queues.chars.toList
        = Ring.newest 128 ((unstartable.run late).queues.chars.toList ++ Text.bytes overrunText) :=
          htold.trans (if_pos (hbatch ▸ by decide))
      _ = Text.bytes overrunText := by rw [hbefore]; decide
  exact ⟨hqueues, hfaults, hbatch, hnotice⟩

/-- **An overrun may never be announced.** The keyboard falls behind by four milliseconds, and then
it is to be started while its ticker is in use. There is an overrun that was not announced, but an
announcement queues nothing, and neither does another one. -/
theorem unannounced_refusedStart :
    let late : List (Act PolledTicker) := [.operate (.makeUp 5), .operate (.request .start)]
    let told := ((unstartable.run late).handle .announceOverruns).2
    let again := (told.handle .announceOverruns).2
    .tickOverrun ∈ unstartable.unannounced [] late ∧
      (unstartable.run late).queues.chars.toList = [] ∧
      told.queues.chars.toList = [] ∧ again.queues.chars.toList = [] := by
  exact ⟨by decide +kernel, by decide +kernel, by decide +kernel, by decide +kernel⟩

end Keyboard

end MorseKeyboard
