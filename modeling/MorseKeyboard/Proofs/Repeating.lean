import Mathlib.Data.List.Infix
import Mathlib.Data.Nat.ModEq
import MorseKeyboard.Repeater

/-!
# The rota of the repeated messages

A repeater keeps no calendar. For each slot it has one number, the minutes left, which may come from
an interval that was longer, shorter or none at all; with every minute it reloads the number if it
has run out or is too large, and takes one away. What it reports is nevertheless a calendar.
**How long a slot has to wait** (`MorseKeyboard.Rota.untilDue`) is a number from one to the
interval, whatever was left behind, and from there on every minute makes it one less, or the
interval again after a report (`MorseKeyboard.Rota.untilDue_minute`). So while an interval stays as
it is, the slot is reported in one minute of as many (`MorseKeyboard.Rota.countP_reports`), and the
minutes are told by their remainder (`MorseKeyboard.Rota.mem_reports_iff`).

All of this concerns one slot at a time: two rotas that are alike for a slot stay alike for it, and
what concerns other slots only can be left out (`MorseKeyboard.Rota.Alike`).
-/

namespace MorseKeyboard

/-- Reading a vector in which an entry was replaced, with a default for what does not exist. -/
theorem getD_setIfInBounds {α : Type} {n : Nat} (xs : Vector α n) (i j : Nat) (x y : α) :
    (xs.setIfInBounds i x)[j]?.getD y = if i = j ∧ i < n then x else xs[j]?.getD y := by
  rw [Vector.getElem?_setIfInBounds]
  split
  · next hi =>
    subst hi
    split
    · next hlt => rw [if_pos ⟨rfl, hlt⟩, Option.getD_some]
    · next hge =>
      rw [if_neg fun h => hge h.2, Vector.getElem?_eq_none (Nat.le_of_not_lt hge)]
  · next hi => rw [if_neg fun h => hi h.1]

/-! ### The settings of a slot -/

namespace Settings

/-- The slot that a change names, if it names one. -/
def Change.slot? : Change → Option Nat
  | .message i _ | .interval i _ => some i
  | _ => none

/-- The minutes that a change sets for a slot, if it does. -/
def Change.interval? (slot : Nat) : Change → Option Nat
  | .interval i minutes => if i = slot ∧ i < messageSlots then some minutes else none
  | _ => none

/-- The message that a change puts into a slot, if it does. -/
def Change.message? (slot : Nat) : Change → Option String
  | .message i text =>
    if i = slot ∧ i < messageSlots then some (Text.cut messageBytes text) else none
  | _ => none

theorem interval_apply (s : Settings) (c : Change) (slot : Nat) :
    (s.apply c).interval slot = (c.interval? slot).getD (s.interval slot) := by
  cases c with
  | interval i minutes =>
    rw [interval, apply, getD_setIfInBounds, Change.interval?]
    split <;> rfl
  | _ =>
    first
      | rfl
      | rw [apply]
        split <;> rfl

theorem message_apply (s : Settings) (c : Change) (slot : Nat) :
    (s.apply c).message slot = (c.message? slot).getD (s.message slot) := by
  cases c with
  | message i text =>
    rw [message, apply, getD_setIfInBounds, Change.message?]
    split <;> rfl
  | _ =>
    first
      | rfl
      | rw [apply]
        split <;> rfl

/-- A change that does not name a slot leaves its interval and its message. -/
theorem Change.interval?_eq_none {c : Change} {slot : Nat} (h : c.slot? ≠ some slot) :
    c.interval? slot = none := by
  cases c with
  | interval i minutes => exact if_neg fun hi => h (congrArg some hi.1)
  | _ => rfl

theorem Change.message?_eq_none {c : Change} {slot : Nat} (h : c.slot? ≠ some slot) :
    c.message? slot = none := by
  cases c with
  | message i text => exact if_neg fun hi => h (congrArg some hi.1)
  | _ => rfl

theorem interval_of_le (s : Settings) {slot : Nat} (h : messageSlots ≤ slot) :
    s.interval slot = 0 := by
  rw [interval, Vector.getElem?_eq_none h, Option.getD_none]

end Settings

/-! ### One minute -/

namespace Repeater

variable {left m slot : Nat}

theorem current_zero (m : Nat) : current 0 m = m := if_pos (Or.inl rfl)

theorem current_of_le (hpos : 0 < left) (hle : left ≤ m) : current left m = left :=
  if_neg (by omega)

theorem current_le (left m : Nat) : current left m ≤ m := by
  unfold current
  split <;> omega

/-- **There is always a minute to take away.** -/
theorem current_pos (left : Nat) (h : 0 < m) : 0 < current left m := by
  unfold current
  split <;> omega

theorem countDown_zero (left : Nat) : countDown left 0 = (false, 0) := if_pos rfl

theorem countDown_of_pos (left : Nat) (h : 0 < m) :
    countDown left m =
      (decide (current left m = 1), if current left m = 1 then m else current left m - 1) := by
  rw [countDown, if_neg (Nat.ne_of_gt h)]
  split
  · next hone => rw [decide_eq_true hone]
  · next hmore => rw [decide_eq_false hmore]

/-- **No countdown is longer than its interval.** -/
theorem countDown_le (left m : Nat) : (countDown left m).2 ≤ m := by
  rcases Nat.eq_zero_or_pos m with rfl | hpos
  · rw [countDown_zero]
  · have hle := current_le left m
    rw [countDown_of_pos left hpos]
    dsimp only
    split <;> omega

theorem minutesLeft_of_le (r : Repeater) (h : Settings.messageSlots ≤ slot) :
    r.minutesLeft slot = 0 := by
  rw [minutesLeft, Vector.getElem?_eq_none h, Option.getD_none]

theorem minutesLeft_fresh (slot : Nat) : fresh.minutesLeft slot = 0 := by
  rw [minutesLeft, fresh, Vector.getElem?_replicate]
  split <;> rfl

theorem minutesLeft_restart (r : Repeater) (i slot : Nat) :
    (r.restart i).minutesLeft slot = if i = slot then 0 else r.minutesLeft slot := by
  rw [minutesLeft, restart, getD_setIfInBounds, ← minutesLeft]
  by_cases hi : i = slot
  · subst hi
    rw [if_pos rfl]
    split
    · rfl
    · next hlt => exact r.minutesLeft_of_le (by simpa using hlt)
  · rw [if_neg hi, if_neg fun h => hi h.1]

/-- **A minute counts every slot down by itself.** -/
theorem minutesLeft_passMinute (r : Repeater) (s : Settings) (slot : Nat) :
    (r.passMinute s).2.minutesLeft slot =
      (countDown (r.minutesLeft slot) (s.interval slot)).2 := by
  by_cases hlt : slot < Settings.messageSlots
  · rw [minutesLeft, passMinute, Vector.getElem?_mapIdx, minutesLeft,
      Vector.getElem?_eq_getElem hlt]
    rfl
  · have hle := Nat.le_of_not_lt hlt
    rw [minutesLeft_of_le _ hle, s.interval_of_le hle, countDown_zero]

/-- **When a slot is reported.** -/
theorem mem_passMinute_iff (r : Repeater) (s : Settings) (slot : Nat) :
    slot ∈ (r.passMinute s).1 ↔
      0 < s.interval slot ∧ s.message slot ≠ "" ∧
        current (r.minutesLeft slot) (s.interval slot) = 1 := by
  rw [passMinute, List.mem_filter, List.mem_range, isDue]
  rcases Nat.eq_zero_or_pos (s.interval slot) with hzero | hpos
  · simp [hzero, countDown_zero]
  · have hlt : slot < Settings.messageSlots := by
      by_contra hge
      exact Nat.ne_of_gt hpos (s.interval_of_le (Nat.le_of_not_lt hge))
    simp [hlt, hpos, countDown_of_pos, and_comm]

/-- Slots are reported in order. -/
theorem pairwise_passMinute (r : Repeater) (s : Settings) :
    (r.passMinute s).1.Pairwise (· < ·) :=
  List.pairwise_lt_range.filter _

end Repeater

/-! ### Rotas -/

/-- A repeater and the settings that it goes by. -/
structure Rota where
  settings : Settings
  repeater : Repeater

namespace Rota

open Repeater

/-- Something that happens to a rota. -/
inductive Act where
  /-- The settings are changed. -/
  | change (c : Settings.Change)
  /-- The countdown of a slot begins afresh. -/
  | restart (slot : Nat)
  /-- A minute passes. -/
  | minute
  deriving DecidableEq, Repr

/-- Whether an act has to do with a slot. -/
def Act.concerns (slot : Nat) : Act → Bool
  | .change c => c.slot? == some slot
  | .restart i => i == slot
  | .minute => true

/-- The slots that are reported when a minute passes now. -/
def due (d : Rota) : List Nat := (d.repeater.passMinute d.settings).1

/-- What becomes of a rota in an act. -/
def act (d : Rota) : Act → Rota
  | .change c => { d with settings := d.settings.apply c }
  | .restart slot => { d with repeater := d.repeater.restart slot }
  | .minute => { d with repeater := (d.repeater.passMinute d.settings).2 }

/-- What becomes of a rota in one act after another. -/
def perform (d : Rota) (acts : List Act) : Rota := acts.foldl act d

/-- What is reported in an act, if it is a minute. -/
def tells (d : Rota) : Act → List (List Nat)
  | .minute => [d.due]
  | .change _ | .restart _ => []

/-- The reports of the minutes in one act after another. -/
def reports (d : Rota) : List Act → List (List Nat)
  | [] => []
  | a :: acts => d.tells a ++ (d.act a).reports acts

variable {d d' : Rota} {a : Act} {acts : List Act} {slot m : Nat}

/-- **With which minute a slot is due**, if nothing is changed: the minutes left, or the whole
interval if there are none or too many. -/
def untilDue (d : Rota) (slot : Nat) : Nat :=
  current (d.repeater.minutesLeft slot) (d.settings.interval slot)

/-! ### One slot at a time -/

/-- **Two rotas are alike for a slot.** -/
structure Alike (slot : Nat) (d d' : Rota) : Prop where
  interval_eq : d.settings.interval slot = d'.settings.interval slot
  message_eq : d.settings.message slot = d'.settings.message slot
  minutesLeft_eq : d.repeater.minutesLeft slot = d'.repeater.minutesLeft slot

namespace Alike

theorem refl (slot : Nat) (d : Rota) : Alike slot d d := ⟨rfl, rfl, rfl⟩

theorem trans {d'' : Rota} (h : Alike slot d d') (h' : Alike slot d' d'') : Alike slot d d'' :=
  ⟨h.interval_eq.trans h'.interval_eq, h.message_eq.trans h'.message_eq,
    h.minutesLeft_eq.trans h'.minutesLeft_eq⟩

theorem mem_due_iff (h : Alike slot d d') : slot ∈ d.due ↔ slot ∈ d'.due := by
  rw [due, due, mem_passMinute_iff, mem_passMinute_iff, h.interval_eq, h.message_eq,
    h.minutesLeft_eq]

/-- **An act keeps rotas alike.** -/
theorem act (h : Alike slot d d') (a : Act) : Alike slot (d.act a) (d'.act a) := by
  cases a with
  | change c =>
    refine ⟨?_, ?_, h.minutesLeft_eq⟩
    · rw [Rota.act, Rota.act, Settings.interval_apply, Settings.interval_apply, h.interval_eq]
    · rw [Rota.act, Rota.act, Settings.message_apply, Settings.message_apply, h.message_eq]
  | restart i =>
    refine ⟨h.interval_eq, h.message_eq, ?_⟩
    rw [Rota.act, Rota.act, minutesLeft_restart, minutesLeft_restart, h.minutesLeft_eq]
  | minute =>
    refine ⟨h.interval_eq, h.message_eq, ?_⟩
    rw [Rota.act, Rota.act, minutesLeft_passMinute, minutesLeft_passMinute, h.minutesLeft_eq,
      h.interval_eq]

/-- **An act that has nothing to do with a slot does nothing to it.** -/
theorem act_left (h : Alike slot d d') (ha : a.concerns slot = false) :
    Alike slot (d.act a) d' := by
  refine trans ?_ h
  cases a with
  | change c =>
    have hslot : c.slot? ≠ some slot := by simpa [Act.concerns] using ha
    refine ⟨?_, ?_, rfl⟩
    · rw [Rota.act, Settings.interval_apply, Settings.Change.interval?_eq_none hslot,
        Option.getD_none]
    · rw [Rota.act, Settings.message_apply, Settings.Change.message?_eq_none hslot,
        Option.getD_none]
  | restart i =>
    refine ⟨rfl, rfl, ?_⟩
    rw [Rota.act, minutesLeft_restart, if_neg (by simpa [Act.concerns] using ha)]
  | minute => cases ha

/-- **The minutes of two rotas that are alike for a slot say the same of it**, if one of them goes
through what has to do with the slot only. -/
theorem filter (h : Alike slot d d') (acts : List Act) :
    Alike slot (d.perform acts) (d'.perform (acts.filter (·.concerns slot))) ∧
      (d.reports acts).Forall₂ (fun due due' => slot ∈ due ↔ slot ∈ due')
        (d'.reports (acts.filter (·.concerns slot))) := by
  induction acts generalizing d d' with
  | nil => exact ⟨h, .nil⟩
  | cons a acts ih =>
    cases ha : a.concerns slot with
    | true =>
      obtain ⟨halike, hreports⟩ := ih (h.act a)
      rw [List.filter_cons_of_pos ha]
      refine ⟨halike, ?_⟩
      cases a with
      | minute => exact .cons h.mem_due_iff hreports
      | change | restart => exact hreports
    | false =>
      obtain ⟨halike, hreports⟩ := ih (h.act_left ha)
      rw [List.filter_cons_of_neg (by rw [ha]; exact Bool.false_ne_true)]
      refine ⟨halike, ?_⟩
      cases a with
      | minute => cases ha
      | change | restart => exact hreports

end Alike

/-! ### The calendar of a slot -/

/-- **A slot is left as it is in the course of some acts**: its interval is so many minutes, it has
a message, and its countdown does not begin afresh. -/
structure Steady (d : Rota) (slot m : Nat) (acts : List Act) : Prop where
  interval_eq : ∀ part, part <+: acts → (d.perform part).settings.interval slot = m
  message_ne : ∀ part, part <+: acts → (d.perform part).settings.message slot ≠ ""
  not_restart : .restart slot ∉ acts

theorem untilDue_pos (h : 0 < d.settings.interval slot) : 0 < d.untilDue slot := current_pos _ h

theorem untilDue_le (d : Rota) (slot : Nat) : d.untilDue slot ≤ d.settings.interval slot :=
  current_le _ _

/-- **A minute brings a slot nearer**, or its interval begins again. -/
theorem untilDue_minute (hm : 0 < m) (h : d.settings.interval slot = m) :
    (d.act .minute).untilDue slot =
      if d.untilDue slot = 1 then m else d.untilDue slot - 1 := by
  have hpos := current_pos (d.repeater.minutesLeft slot) hm
  have hle := current_le (d.repeater.minutesLeft slot) m
  rw [untilDue, untilDue, act, minutesLeft_passMinute, h, countDown_of_pos _ hm]
  dsimp only
  split
  · exact current_of_le hm (Nat.le_refl m)
  · exact current_of_le (by omega) (by omega)

namespace Steady

theorem interval (h : d.Steady slot m acts) : d.settings.interval slot = m :=
  h.interval_eq [] List.nil_prefix

theorem tail (h : d.Steady slot m (a :: acts)) : (d.act a).Steady slot m acts where
  interval_eq part hpart := h.interval_eq (a :: part) ((List.prefix_cons_inj a).mpr hpart)
  message_ne part hpart := h.message_ne (a :: part) ((List.prefix_cons_inj a).mpr hpart)
  not_restart hmem := h.not_restart (List.mem_cons_of_mem a hmem)

theorem left {more : List Act} (h : d.Steady slot m (acts ++ more)) : d.Steady slot m acts where
  interval_eq part hpart := h.interval_eq part (hpart.trans (List.prefix_append _ _))
  message_ne part hpart := h.message_ne part (hpart.trans (List.prefix_append _ _))
  not_restart hmem := h.not_restart (List.mem_append_left _ hmem)

theorem right {more : List Act} (h : d.Steady slot m (acts ++ more)) :
    (d.perform acts).Steady slot m more := by
  induction acts generalizing d with
  | nil => exact h
  | cons a acts ih => exact ih h.tail

/-- **What an act does while a slot is left as it is**: a minute reports it if its time has come and
brings the next time nearer, and nothing else matters. -/
theorem act_cases (h : d.Steady slot m (a :: acts)) (hm : 0 < m) :
    (a = .minute ∧ (slot ∈ d.due ↔ d.untilDue slot = 1) ∧
      (d.act a).untilDue slot = if d.untilDue slot = 1 then m else d.untilDue slot - 1) ∨
    (d.tells a = [] ∧ (d.act a).untilDue slot = d.untilDue slot) := by
  have hinterval := h.interval
  cases a with
  | minute =>
    refine Or.inl ⟨rfl, ?_, untilDue_minute hm hinterval⟩
    have hmessage := h.message_ne [] List.nil_prefix
    rw [due, mem_passMinute_iff, hinterval, untilDue, hinterval]
    exact ⟨fun hdue => hdue.2.2, fun hone => ⟨hm, hmessage, hone⟩⟩
  | change c =>
    refine Or.inr ⟨rfl, ?_⟩
    rw [untilDue, untilDue, h.tail.interval, hinterval]
    rfl
  | restart i =>
    refine Or.inr ⟨rfl, ?_⟩
    have hi : i ≠ slot := fun heq => h.not_restart (heq ▸ List.mem_cons_self)
    rw [untilDue, untilDue, act, minutesLeft_restart, if_neg hi]

end Steady

/-- Of the numbers up to the interval only one has the remainder of one. -/
theorem one_modEq_iff {c : Nat} (hpos : 0 < c) (hle : c ≤ m) : 1 ≡ c [MOD m] ↔ c = 1 := by
  constructor
  · intro h
    have hdvd := (Nat.modEq_iff_dvd' hpos).mp h
    have hzero := Nat.eq_zero_of_dvd_of_lt hdvd (by omega)
    omega
  · rintro rfl
    rfl

/-- **The minutes in which a slot is reported** are told by their remainder. -/
theorem mem_reports_iff (hm : 0 < m) (h : d.Steady slot m acts) {n : Nat} {due : List Nat}
    (hn : (d.reports acts)[n]? = some due) : slot ∈ due ↔ n + 1 ≡ d.untilDue slot [MOD m] := by
  induction acts generalizing d n with
  | nil => cases hn
  | cons a acts ih =>
    rcases h.act_cases hm with ⟨rfl, hmem, hnext⟩ | ⟨htells, hsame⟩
    · have hpos : 0 < d.untilDue slot := untilDue_pos (h.interval ▸ hm)
      have hle : d.untilDue slot ≤ m := h.interval ▸ d.untilDue_le slot
      cases n with
      | zero =>
        obtain rfl : d.due = due := Option.some.inj hn
        rw [hmem, Nat.zero_add, one_modEq_iff hpos hle]
      | succ n =>
        -- a minute later the wait is one less, or the whole interval instead of nothing
        have hcount : d.untilDue slot ≡ (d.act .minute).untilDue slot + 1 [MOD m] := by
          rw [hnext]
          split
          · next hone =>
            rw [hone]
            exact (Nat.modEq_zero_iff_dvd.mpr (Nat.dvd_refl m)).symm.add_right 1
          · rw [Nat.sub_add_cancel hpos]
        rw [ih h.tail hn]
        exact ⟨fun h => (h.add_right 1).trans hcount.symm,
          fun h => Nat.ModEq.add_right_cancel' 1 (h.trans hcount)⟩
    · rw [reports, htells] at hn
      rw [ih h.tail hn, hsame]

/-- **A slot is reported once in its interval.** -/
theorem countP_reports (hm : 0 < m) (h : d.Steady slot m acts) :
    (d.reports acts).countP (slot ∈ ·) =
      ((d.reports acts).length + (m - d.untilDue slot)) / m := by
  induction acts generalizing d with
  | nil =>
    have hpos : 0 < d.untilDue slot := untilDue_pos (h.interval ▸ hm)
    exact (Nat.div_eq_of_lt (by simp only [reports, List.length_nil]; omega)).symm
  | cons a acts ih =>
    rcases h.act_cases hm with ⟨rfl, hmem, hnext⟩ | ⟨htells, hsame⟩
    · have hpos : 0 < d.untilDue slot := untilDue_pos (h.interval ▸ hm)
      have hle : d.untilDue slot ≤ m := h.interval ▸ d.untilDue_le slot
      have hrest := ih h.tail
      rw [hnext] at hrest
      rw [reports, tells, List.singleton_append, List.countP_cons, hrest, List.length_cons]
      by_cases hone : d.untilDue slot = 1
      · rw [if_pos hone, if_pos (decide_eq_true (hmem.mpr hone)), hone, Nat.sub_self,
          ← Nat.add_div_right _ hm]
        congr 1
        omega
      · rw [if_neg hone, if_neg (by simpa [hmem] using hone), Nat.add_zero]
        congr 1
        omega
    · rw [reports, htells, List.nil_append, ih h.tail, hsame]

/-- **Reports that come one after another** come from acts that come one after another. -/
theorem exists_of_reports_eq_append {first rest : List (List Nat)}
    (h : d.reports acts = first ++ rest) :
    ∃ part more, acts = part ++ more ∧ d.reports part = first ∧
      (d.perform part).reports more = rest := by
  induction acts generalizing d first with
  | nil =>
    obtain ⟨rfl, rfl⟩ := List.append_eq_nil_iff.mp h.symm
    exact ⟨[], [], rfl, rfl, rfl⟩
  | cons a acts ih =>
    rcases first with _ | ⟨due, first⟩
    · exact ⟨[], a :: acts, rfl, rfl, h⟩
    have hsplit : ∃ later, d.tells a ++ later = due :: first ∧
        (d.act a).reports acts = later ++ rest := by
      cases a with
      | minute =>
        obtain ⟨rfl, hrest⟩ := List.cons_eq_cons.mp h
        exact ⟨first, rfl, hrest⟩
      | change | restart => exact ⟨due :: first, rfl, h⟩
    obtain ⟨later, hfirst, hlater⟩ := hsplit
    obtain ⟨part, more, rfl, hpart, hmore⟩ := ih hlater
    exact ⟨a :: part, more, rfl, by rw [reports, hpart, hfirst], hmore⟩

/-- **In as many minutes as its interval has a slot is reported once**, whenever one begins to
count. -/
theorem countP_window (hm : 0 < m) (h : d.Steady slot m acts) {window : List (List Nat)}
    (hwindow : window <:+: d.reports acts) (hlength : window.length = m) :
    window.countP (slot ∈ ·) = 1 := by
  obtain ⟨before, after, heq⟩ := hwindow
  rw [List.append_assoc] at heq
  obtain ⟨part, more, rfl, -, hmore⟩ := exists_of_reports_eq_append heq.symm
  obtain ⟨during, later, rfl, hduring, -⟩ := exists_of_reports_eq_append hmore
  have hsteady := h.right.left
  have hpos : 0 < (d.perform part).untilDue slot := untilDue_pos (hsteady.interval ▸ hm)
  have hcount := countP_reports hm hsteady
  rw [hduring, hlength, Nat.add_div_left _ hm, Nat.div_eq_of_lt (by omega)] at hcount
  exact hcount

/-- **Intervals are kept.** Settings are changed, countdowns begin afresh, and minutes pass, in any
order. In the course of it one slot may be left as it is, with an interval of at least a minute and
with a message. Then, whatever its countdown was, it is reported once in any run of as many minutes,
and in the minutes of one remainder. With no countdown begun, as it is at first and after a new
start, it is reported with every last minute of its interval. What happens to the other slots makes
no difference. A slot without an interval or without a message is not reported; a report names the
slots in increasing order; and the countdown that a minute is taken from is never zero, nor is the
one that it leaves longer than the interval. -/
theorem intervals_kept (d : Rota) (slot : Nat) :
    (∀ m acts, 0 < m → d.Steady slot m acts →
      (∀ window, window <:+: d.reports acts → window.length = m →
        window.countP (slot ∈ ·) = 1) ∧
      (∀ n due, (d.reports acts)[n]? = some due →
        (slot ∈ due ↔ n + 1 ≡ d.untilDue slot [MOD m])) ∧
      (d.repeater.minutesLeft slot = 0 → ∀ n due, (d.reports acts)[n]? = some due →
        (slot ∈ due ↔ m ∣ n + 1))) ∧
    Repeater.fresh.minutesLeft slot = 0 ∧
    (d.act (.restart slot)).repeater.minutesLeft slot = 0 ∧
    (∀ acts, let own := acts.filter (·.concerns slot)
      Alike slot (d.perform acts) (d.perform own) ∧
        (d.reports acts).Forall₂ (fun due due' => slot ∈ due ↔ slot ∈ due') (d.reports own)) ∧
    (d.settings.interval slot = 0 ∨ d.settings.message slot = "" → slot ∉ d.due) ∧
    d.due.Pairwise (· < ·) ∧
    (0 < d.settings.interval slot → 0 < d.untilDue slot) ∧
    (d.act .minute).repeater.minutesLeft slot ≤ d.settings.interval slot := by
  refine ⟨?_, minutesLeft_fresh slot, ?_, ?_, ?_, pairwise_passMinute _ _, untilDue_pos, ?_⟩
  · intro m acts hm h
    refine ⟨fun window hwindow => countP_window hm h hwindow,
      fun n due hn => mem_reports_iff hm h hn, ?_⟩
    intro hnone n due hn
    have huntil : d.untilDue slot = m := by rw [untilDue, hnone, current_zero, h.interval]
    have hzero : m ≡ 0 [MOD m] := Nat.modEq_zero_iff_dvd.mpr (Nat.dvd_refl m)
    rw [mem_reports_iff hm h hn, huntil, ← Nat.modEq_zero_iff_dvd]
    exact ⟨fun h => h.trans hzero, fun h => h.trans hzero.symm⟩
  · rw [act, minutesLeft_restart, if_pos rfl]
  · exact fun acts => (Alike.refl slot d).filter acts
  · rw [due, mem_passMinute_iff]
    rintro (hinterval | hmessage) ⟨hpos, hne, -⟩
    · exact Nat.ne_of_gt hpos hinterval
    · exact hne hmessage
  · rw [act, minutesLeft_passMinute]
    exact countDown_le _ _

/-- A message is repeated every three minutes, and another one comes and is repeated every minute. -/
theorem intervals_kept_three :
    let d : Rota := ⟨(Settings.standard.apply (.message 4 "qrl?")).apply (.interval 4 3), .fresh⟩
    let acts : List Act := [.minute, .change (.interval 0 1), .minute, .change (.message 0 "cq"),
      .restart 0, .minute, .change (.wpm 25), .minute, .minute, .minute]
    d.Steady 4 3 acts ∧ d.reports acts = [[], [], [0, 4], [0], [0], [0, 4]] ∧
      (∀ window, window <:+: d.reports acts → window.length = 3 →
        window.countP (4 ∈ ·) = 1) ∧
      ∀ n due, (d.reports acts)[n]? = some due → (4 ∈ due ↔ 3 ∣ n + 1) := by
  intro d acts
  have hinterval : ∀ part ∈ acts.inits, (d.perform part).settings.interval 4 = 3 := by decide
  have hmessage : ∀ part ∈ acts.inits, (d.perform part).settings.message 4 ≠ "" := by decide
  have hsteady : d.Steady 4 3 acts :=
    ⟨fun part hpart => hinterval part ((List.mem_inits part acts).mpr hpart),
      fun part hpart => hmessage part ((List.mem_inits part acts).mpr hpart), by decide⟩
  obtain ⟨hkept, -⟩ := intervals_kept d 4
  obtain ⟨hwindow, -, hnew⟩ := hkept 3 acts (by decide) hsteady
  exact ⟨hsteady, by decide, hwindow, hnew (by decide)⟩

end Rota

end MorseKeyboard
