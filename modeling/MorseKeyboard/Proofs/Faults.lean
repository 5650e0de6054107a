import Mathlib.Data.List.DropRight
import Mathlib.Data.Nat.Bitwise
import MorseKeyboard.Fault

/-!
# The register of faults as a record

A register packs the latest fault into one word, so what it tells is a matter of shifts and masks.
Read as a number, the word has **the detail in its lowest 24 bits, the value of the fault in the
next seven, and its standing in the last one** (`MorseKeyboard.FaultRegister.toNat_pack`), and to
let a fault stand no longer is to take the remainder by `2 ^ 31`
(`MorseKeyboard.FaultRegister.toNat_word_clear`). So each part is written and read by itself, and a
register tells what a record with a field for each part tells
(`MorseKeyboard.FaultRegister.reads_run`).

Whether a fault was raised since the last acknowledgement is not written down anywhere. It is seen
from two counters, and **the counters differ by the number of faults that are not acknowledged yet**
(`MorseKeyboard.FaultRegister.raised_run`). Nobody can raise so many of them that the counters come
round, as long as the faults ever raised can be counted in 32 bits.
-/

namespace MorseKeyboard

/-! ### The plain record -/

/-- The latest fault and the number of faults, each part in a field of its own and no number with a
greatest value. -/
structure FaultRecord where
  standing : Bool := false
  fault : Fault := .none
  detail : Nat := 0
  count : Nat := 0
  deriving DecidableEq, Repr

namespace FaultRegister

/-- Something done to a register. -/
inductive Act where
  | raise (fault : Fault) (detail : UInt32)
  | clear
  | acknowledge
  deriving DecidableEq, Repr

/-- Whether a fault is raised. -/
def Act.isRaise : Act → Bool
  | raise _ _ => true
  | _ => false

/-- What becomes of a register in an act. -/
def act (r : FaultRegister) : Act → FaultRegister
  | .raise fault detail => r.raise fault detail
  | .clear => r.clear
  | .acknowledge => r.acknowledge.2

/-- What becomes of a register in one act after another. -/
def run (r : FaultRegister) (acts : List Act) : FaultRegister := acts.foldl act r

end FaultRegister

open FaultRegister in
/-- What becomes of a record in an act: a fault takes the place of the one before it, with a detail
of 24 bits at most, and an acknowledgement is none of its business. -/
def FaultRecord.act (p : FaultRecord) : Act → FaultRecord
  | .raise fault detail =>
    { standing := true, fault, detail := min detail.toNat (2 ^ 24 - 1), count := p.count + 1 }
  | .clear => { p with standing := false }
  | .acknowledge => p

open FaultRegister in
/-- What becomes of a record in one act after another. -/
def FaultRecord.run (p : FaultRecord) (acts : List Act) : FaultRecord := acts.foldl act p

namespace FaultRegister

variable {r : FaultRegister} {p : FaultRecord}

/-! ### The word as a number -/

/-- **A fault that stands, as a number.** -/
theorem toNat_pack (fault : Fault) (detail : UInt32) :
    (pack fault detail).toNat =
      2 ^ 24 * (2 ^ 7 + fault.value.toNat) + min detail.toNat (2 ^ 24 - 1) := by
  have hhigh : (standingBit ||| (fault.value <<< 24)).toNat =
      2 ^ 24 * (2 ^ 7 + fault.value.toNat) := by
    cases fault <;> decide
  have hlow : min detail.toNat (2 ^ 24 - 1) < 2 ^ 24 := by omega
  rw [pack, UInt32.toNat_or, hhigh, UInt32.toNat_min, Nat.two_pow_add_eq_or_of_lt hlow]
  rfl

/-- **Letting a fault stand no longer takes the last bit away.** -/
theorem toNat_word_clear (r : FaultRegister) : r.clear.word.toNat = r.word.toNat % 2 ^ 31 := by
  have hmask : (~~~standingBit).toNat = 2 ^ 31 - 1 := by decide
  rw [clear, UInt32.toNat_and, hmask, Nat.and_two_pow_sub_one_eq_mod]

theorem isStanding_eq (r : FaultRegister) : r.isStanding = r.word.toNat.testBit 31 := by
  have hbit : (r.word &&& standingBit).toNat = (r.word.toNat.testBit 31).toNat * 2 ^ 31 := by
    rw [UInt32.toNat_and, ← Nat.and_two_pow]
    rfl
  rw [isStanding, Bool.eq_iff_iff, bne_iff_ne, ne_eq, ← UInt32.toNat_inj, hbit]
  cases r.word.toNat.testBit 31 <;> decide

theorem toNat_value (r : FaultRegister) :
    ((r.word >>> 24) &&& valueMask).toNat = r.word.toNat / 2 ^ 24 % 2 ^ 7 := by
  have hmask : valueMask.toNat = 2 ^ 7 - 1 := rfl
  rw [UInt32.toNat_and, hmask, Nat.and_two_pow_sub_one_eq_mod, UInt32.toNat_shiftRight,
    Nat.shiftRight_eq_div_pow]
  rfl

theorem toNat_detail (r : FaultRegister) : r.detail.toNat = r.word.toNat % 2 ^ 24 := by
  have hmask : detailMax.toNat = 2 ^ 24 - 1 := rfl
  rw [detail, UInt32.toNat_and, hmask, Nat.and_two_pow_sub_one_eq_mod]

/-! ### What is told after a fault -/

theorem isStanding_raise (r : FaultRegister) (fault : Fault) (detail : UInt32) :
    (r.raise fault detail).isStanding = true := by
  rw [isStanding_eq, raise, toNat_pack, Nat.testBit_eq_decide_div_mod_eq, decide_eq_true_eq]
  have hvalue : fault.value.toNat < 2 ^ 7 := by cases fault <;> decide
  omega

theorem fault_raise (r : FaultRegister) (fault : Fault) (detail : UInt32) :
    (r.raise fault detail).fault = fault := by
  have hvalue : fault.value.toNat < 2 ^ 7 := by cases fault <;> decide
  have hread : ((r.raise fault detail).word >>> 24) &&& valueMask = fault.value := by
    rw [← UInt32.toNat_inj, toNat_value, raise, toNat_pack]
    omega
  rw [FaultRegister.fault, hread, Fault.ofValue_value]

/-- **The detail stops at its greatest value** and never runs into the value of the fault. -/
theorem toNat_detail_raise (r : FaultRegister) (fault : Fault) (detail : UInt32) :
    (r.raise fault detail).detail.toNat = min detail.toNat (2 ^ 24 - 1) := by
  rw [toNat_detail, raise, toNat_pack]
  omega

/-! ### What is told after it was cleared -/

theorem isStanding_clear (r : FaultRegister) : r.clear.isStanding = false := by
  rw [isStanding_eq, toNat_word_clear, Nat.testBit_mod_two_pow]
  rfl

theorem fault_clear (r : FaultRegister) : r.clear.fault = r.fault := by
  have hread : (r.clear.word >>> 24) &&& valueMask = (r.word >>> 24) &&& valueMask := by
    rw [← UInt32.toNat_inj, toNat_value, toNat_value, toNat_word_clear]
    omega
  rw [FaultRegister.fault, FaultRegister.fault, hread]

theorem toNat_detail_clear (r : FaultRegister) : r.clear.detail.toNat = r.detail.toNat := by
  rw [toNat_detail, toNat_detail, toNat_word_clear]
  omega

/-! ### The register and the record -/

/-- **A register tells what stands in a record.** Its counter may have come round. -/
structure Reads (r : FaultRegister) (p : FaultRecord) : Prop where
  isStanding_eq : r.isStanding = p.standing
  fault_eq : r.fault = p.fault
  detail_eq : r.detail.toNat = p.detail
  raised_eq : r.raised = UInt32.ofNat p.count

theorem reads_fresh : fresh.Reads {} where
  isStanding_eq := by decide
  fault_eq := by decide
  detail_eq := by decide
  raised_eq := rfl

theorem Reads.act (h : r.Reads p) (a : Act) : (r.act a).Reads (p.act a) := by
  cases a with
  | raise fault detail =>
    refine ⟨r.isStanding_raise fault detail, r.fault_raise fault detail,
      r.toNat_detail_raise fault detail, ?_⟩
    show r.raised + 1 = UInt32.ofNat (p.count + 1)
    rw [h.raised_eq, UInt32.ofNat_add]
    rfl
  | clear =>
    exact ⟨r.isStanding_clear, r.fault_clear.trans h.fault_eq,
      r.toNat_detail_clear.trans h.detail_eq, h.raised_eq⟩
  | acknowledge => exact ⟨h.isStanding_eq, h.fault_eq, h.detail_eq, h.raised_eq⟩

/-- **A register tells what stands in the record** of all that was done to it. -/
theorem reads_run (acts : List Act) : (fresh.run acts).Reads (FaultRecord.run {} acts) := by
  induction acts using List.reverseRecOn with
  | nil => exact reads_fresh
  | append_singleton acts a ih =>
    rw [run, FaultRecord.run, List.foldl_concat, List.foldl_concat]
    exact ih.act a

theorem count_run (acts : List Act) :
    (FaultRecord.run {} acts).count = acts.countP Act.isRaise := by
  induction acts using List.reverseRecOn with
  | nil => rfl
  | append_singleton acts a ih =>
    rw [FaultRecord.run, List.foldl_concat, List.countP_append, ← ih]
    cases a <;> rfl

/-! ### Acknowledgements -/

/-- What was done since the last acknowledgement, or from the beginning. -/
def sinceAcknowledged (acts : List Act) : List Act := acts.rtakeWhile (· ≠ .acknowledge)

theorem sinceAcknowledged_concat {acts : List Act} {a : Act} (h : a ≠ .acknowledge) :
    sinceAcknowledged (acts ++ [a]) = sinceAcknowledged acts ++ [a] :=
  List.rtakeWhile_concat_pos _ _ _ (decide_eq_true h)

/-- **The counters differ by the number of faults that are not acknowledged yet.** -/
theorem raised_run (acts : List Act) :
    (fresh.run acts).raised =
      (fresh.run acts).seen + UInt32.ofNat ((sinceAcknowledged acts).countP Act.isRaise) := by
  induction acts using List.reverseRecOn with
  | nil => rfl
  | append_singleton acts a ih =>
    rw [run, List.foldl_concat, ← run]
    cases a with
    | raise fault detail =>
      have hmore : (fresh.run acts).raised + 1 = (fresh.run acts).seen +
          UInt32.ofNat ((sinceAcknowledged acts).countP Act.isRaise + 1) := by
        rw [ih, UInt32.ofNat_add, UInt32.add_assoc]
        rfl
      rw [sinceAcknowledged_concat (by simp), List.countP_append]
      exact hmore
    | clear =>
      rw [sinceAcknowledged_concat (by simp), List.countP_append]
      exact ih
    | acknowledge =>
      rw [sinceAcknowledged, List.rtakeWhile_concat_neg _ _ _ (by decide)]
      exact (UInt32.add_zero _).symm

/-- **An acknowledgement tells whether a fault was raised since the one before it.** -/
theorem acknowledge_iff (acts : List Act) (hfew : acts.countP Act.isRaise < 2 ^ 32) :
    (fresh.run acts).acknowledge.1 = true ↔ ∃ a ∈ sinceAcknowledged acts, a.isRaise = true := by
  have hle : (sinceAcknowledged acts).countP Act.isRaise ≤ acts.countP Act.isRaise :=
    (List.rtakeWhile_suffix _ acts).sublist.countP_le
  have hmod : (UInt32.ofNat ((sinceAcknowledged acts).countP Act.isRaise)).toNat =
      (sinceAcknowledged acts).countP Act.isRaise := by
    rw [UInt32.toNat_ofNat', Nat.mod_eq_of_lt (Nat.lt_of_le_of_lt hle hfew)]
  show ((fresh.run acts).seen != (fresh.run acts).raised) = true ↔ _
  rw [bne_iff_ne, raised_run, ne_comm, ne_eq, UInt32.add_eq_left, ← UInt32.toNat_inj, hmod,
    ← List.countP_pos_iff, Nat.pos_iff_ne_zero]
  rfl

/-- **The faults are told as from a plain record.** Faults are raised, cleared and acknowledged in
any order, fewer than `2 ^ 32` of them. Whether one stands, which one it is, its detail and the
number of faults are then, taken one by one or all at once, what stands in a record that keeps each
of them in a field of its own: a fault replaces the one before it, with a detail of `2 ^ 24 - 1` at
most, and clearing only lets it stand no longer. And an acknowledgement tells that there are new
faults exactly if one was raised since the acknowledgement before it. -/
theorem told_as_record (acts : List Act) (hfew : acts.countP Act.isRaise < 2 ^ 32) :
    let r := fresh.run acts
    let p := FaultRecord.run {} acts
    r.isStanding = p.standing ∧ r.fault = p.fault ∧ r.detail.toNat = p.detail ∧
      r.raised.toNat = p.count ∧
      r.report = ⟨p.standing, p.fault, UInt32.ofNat p.detail, UInt32.ofNat p.count⟩ ∧
      (r.acknowledge.1 = true ↔ ∃ a ∈ sinceAcknowledged acts, a.isRaise = true) := by
  intro r p
  have hreads : r.Reads p := reads_run acts
  have hraised : r.raised.toNat = p.count := by
    rw [hreads.raised_eq, UInt32.toNat_ofNat', Nat.mod_eq_of_lt]
    rwa [count_run]
  refine ⟨hreads.isStanding_eq, hreads.fault_eq, hreads.detail_eq, hraised, ?_,
    acknowledge_iff acts hfew⟩
  rw [report, hreads.isStanding_eq, hreads.fault_eq, ← hreads.detail_eq, ← hreads.raised_eq,
    UInt32.ofNat_toNat]

/-- A fault that was acknowledged is replaced by one with a detail beyond the greatest, which is
cleared then. It can still be read, and it is news. -/
theorem told_as_record_replaced :
    let acts : List Act :=
      [.raise .tickerInUse 7, .acknowledge, .raise .tickOverrun 0xFFFFFFFF, .clear]
    let r := fresh.run acts
    acts.countP Act.isRaise < 2 ^ 32 ∧
      r.isStanding = false ∧ r.fault = .tickOverrun ∧ r.detail.toNat = 2 ^ 24 - 1 ∧
      r.raised.toNat = 2 ∧ r.acknowledge.1 = true := by
  intro acts r
  have hfew : acts.countP Act.isRaise < 2 ^ 32 := by decide
  obtain ⟨hstanding, hfault, hdetail, hraised, -, hnews⟩ := told_as_record acts hfew
  exact ⟨hfew, hstanding, hfault, hdetail, hraised, hnews.mpr (by decide)⟩

end FaultRegister

end MorseKeyboard
