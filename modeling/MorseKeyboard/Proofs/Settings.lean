import Mathlib.Data.List.Induction
import MorseKeyboard.Proofs.Log.Lines
import MorseKeyboard.Settings.Store

/-!
# What the settings keep

The settings are changed in many ways, and nothing is refused: what cannot be kept is corrected or
left out. So **the settings never hold parameters that would have to be corrected**, neither as the
current ones nor in a preset (`MorseKeyboard.Settings.InRange.apply`).

A preset is written in two ways, from the current parameters or from parameters that are given, and
every change tells what it writes into which preset (`MorseKeyboard.Settings.Change.writes?`). What
is written stays there until the same preset is written again. So a preset holds **what was written
into it last** (`MorseKeyboard.Settings.preset?_foldl`), whatever became of the current parameters
and of the other presets in between. Likewise the chosen preset is the one that was loaded or saved
last (`MorseKeyboard.Settings.chosenPreset_foldl`).

A change that names a slot or a preset that does not exist has no effect on the settings at all. It
leaves a trace in the log of the main loop
(`MorseKeyboard.Settings.applyLogged_of_missing`).
-/

namespace MorseKeyboard

/-! ### Parameters in range -/

/-- **Parameters that need not be corrected.** -/
structure Parameters.InRange (p : Parameters) : Prop where
  wpm : 3 ≤ p.wpm ∧ p.wpm ≤ 99
  left : p.left.isElement = true
  hz : 80 ≤ p.hz ∧ p.hz ≤ 8000

namespace Parameters

variable {p : Parameters}

theorem inRange_corrected (p : Parameters) : p.corrected.InRange :=
  ⟨Speed.clamp_inRange p.wpm, p.isElement_left_corrected, Pitch.clamp_inRange p.hz⟩

theorem InRange.corrected_eq (h : p.InRange) : p.corrected = p := by
  rw [corrected, if_pos h.left, Pitch.clamp_of_inRange h.hz]
  have hwpm : Speed.clamp p.wpm = p.wpm := if_pos h.wpm
  rw [hwpm]

end Parameters

namespace Settings

/-- Settings whose parameters are in range, the current ones and those of every preset. -/
structure InRange (s : Settings) : Prop where
  current : s.current.InRange
  presets : ∀ index p, s.preset? index = some p → p.InRange

theorem inRange_standard : standard.InRange := by
  have hparameters : Parameters.standard.InRange := ⟨by decide, rfl, by decide⟩
  refine ⟨hparameters, fun index p hp => ?_⟩
  obtain ⟨hindex, rfl⟩ := Vector.getElem?_eq_some_iff.mp hp
  exact (Vector.getElem_replicate hindex).symm ▸ hparameters

variable {s : Settings}

/-- A preset holds what was stored in it, or else what it held before. -/
theorem InRange.store (h : s.InRange) {p : Parameters} (hp : p.InRange) (i : Nat) :
    ∀ (index : Nat) (q : Parameters), (s.presets.setIfInBounds i p)[index]? = some q →
      q.InRange := by
  intro index q hq
  rw [Vector.getElem?_setIfInBounds] at hq
  split at hq
  · split at hq
    · exact Option.some.inj hq ▸ hp
    · cases hq
  · exact h.presets index q hq

/-- **No change takes the parameters out of their range**, whatever it asks for. -/
theorem InRange.apply (h : s.InRange) (c : Change) : (s.apply c).InRange := by
  match c with
  | .wpm wpm => exact ⟨⟨Speed.clamp_inRange wpm, h.current.left, h.current.hz⟩, h.presets⟩
  | .hz hz => exact ⟨⟨h.current.wpm, h.current.left, Pitch.clamp_inRange hz⟩, h.presets⟩
  | .mode mode => exact ⟨⟨h.current.wpm, h.current.left, h.current.hz⟩, h.presets⟩
  | .left x =>
    rw [Settings.apply]
    split
    · next hx => exact ⟨⟨h.current.wpm, hx, h.current.hz⟩, h.presets⟩
    · exact h
  | .callsign _ | .message _ _ | .interval _ _ => exact ⟨h.current, h.presets⟩
  | .recall i =>
    rw [Settings.apply]
    split
    · next p hp => exact ⟨h.presets i p hp, h.presets⟩
    · exact h
  | .store i =>
    rw [Settings.apply]
    split
    · exact ⟨h.current, h.store h.current i⟩
    · exact h
  | .preset i p => exact ⟨h.current, h.store p.inRange_corrected i⟩
  | .current p => exact ⟨p.inRange_corrected, h.presets⟩

/-- **Settings that began as those of a new keyboard are in range.** -/
theorem inRange_foldl (changes : List Change) :
    (changes.foldl Settings.apply .standard).InRange := by
  induction changes using List.reverseRecOn with
  | nil => exact inRange_standard
  | append_singleton changes c ih =>
    rw [List.foldl_append]
    exact ih.apply c

/-! ### What is written into a preset -/

/-- What a change writes into a preset, if it does, while some parameters are the current ones. -/
def Change.writes? (index : Nat) (current : Parameters) : Change → Option Parameters
  | .store i => if i = index ∧ i < presetSlots then some current else none
  | .preset i p => if i = index ∧ i < presetSlots then some p.corrected else none
  | _ => none

/-- All that some changes write into a preset, the last at the end. -/
def writings (index : Nat) (s : Settings) : List Change → List Parameters
  | [] => []
  | c :: changes => (c.writes? index s.current).toList ++ (s.apply c).writings index changes

theorem preset?_eq_none (s : Settings) {index : Nat} (h : presetSlots ≤ index) :
    s.preset? index = none :=
  Vector.getElem?_eq_none h

theorem exists_preset? (s : Settings) {index : Nat} (h : index < presetSlots) :
    ∃ p, s.preset? index = some p :=
  ⟨s.presets[index], Vector.getElem?_eq_getElem h⟩

/-- A preset that is replaced, if it is the one that is asked for. -/
theorem getElem?_replaced (s : Settings) (i index : Nat) (p : Parameters) :
    (s.presets.setIfInBounds i p)[index]? =
      (if i = index ∧ i < presetSlots then some p else none).or (s.preset? index) := by
  rw [Vector.getElem?_setIfInBounds]
  by_cases hi : i = index
  · subst hi
    by_cases hlt : i < presetSlots
    · rw [if_pos rfl, if_pos hlt, if_pos ⟨rfl, hlt⟩]
      rfl
    · rw [if_pos rfl, if_neg hlt, if_neg fun h => hlt h.2, s.preset?_eq_none (by omega)]
      rfl
  · rw [if_neg hi, if_neg fun h => hi h.1]
    rfl

/-- **A preset holds what a change writes into it**, or else what it held before. -/
theorem preset?_apply (s : Settings) (c : Change) (index : Nat) :
    (s.apply c).preset? index = (c.writes? index s.current).or (s.preset? index) := by
  cases c with
  | store i =>
    rw [apply, Change.writes?]
    split
    · exact s.getElem?_replaced i index s.current
    · next hi => rw [if_neg fun h => hi h.2, Option.none_or]
  | preset i p => exact s.getElem?_replaced i index p.corrected
  | «recall» i =>
    show (s.apply (.recall i)).preset? index = s.preset? index
    rw [apply]
    split <;> rfl
  | left x =>
    show (s.apply (.left x)).preset? index = s.preset? index
    rw [apply]
    split <;> rfl
  | wpm | hz | mode | callsign | message | interval | current => rfl

/-- **A preset holds what was written into it last**, or else what it held at the beginning. -/
theorem preset?_foldl (s : Settings) (changes : List Change) (index : Nat) :
    (changes.foldl apply s).preset? index =
      (s.writings index changes).getLast?.or (s.preset? index) := by
  induction changes generalizing s with
  | nil => rfl
  | cons c changes ih =>
    have hlast : (c.writes? index s.current).toList.getLast? = c.writes? index s.current := by
      cases c.writes? index s.current <;> rfl
    rw [List.foldl_cons, ih, preset?_apply, writings, List.getLast?_append, hlast, Option.or_assoc]

/-! ### The chosen preset -/

/-- The preset that a change loads or saves, if it exists. -/
def Change.chooses? : Change → Option Nat
  | .recall i | .store i => if i < presetSlots then some i else none
  | _ => none

theorem chosenPreset_apply (s : Settings) (c : Change) :
    (s.apply c).chosenPreset = c.chooses?.getD s.chosenPreset := by
  cases c with
  | «recall» i =>
    rw [apply, Change.chooses?]
    by_cases hi : i < presetSlots
    · obtain ⟨p, hp⟩ := s.exists_preset? hi
      rw [hp, if_pos hi]
      rfl
    · rw [s.preset?_eq_none (by omega), if_neg hi]
      rfl
  | store i =>
    rw [apply, Change.chooses?]
    split <;> rfl
  | left =>
    rw [apply]
    split <;> rfl
  | wpm | hz | mode | callsign | message | interval | preset | current => rfl

/-- **The chosen preset is the one that was loaded or saved last.** -/
theorem chosenPreset_foldl (s : Settings) (changes : List Change) :
    (changes.foldl apply s).chosenPreset =
      (changes.filterMap Change.chooses?).getLast?.getD s.chosenPreset := by
  induction changes using List.reverseRecOn with
  | nil => rfl
  | append_singleton changes c ih =>
    rw [List.foldl_append, List.foldl_cons, List.foldl_nil, chosenPreset_apply, ih,
      List.filterMap_append, List.getLast?_append]
    cases hc : c.chooses? <;> simp [hc]

theorem Change.lt_of_mem_chooses {changes : List Change} {index : Nat}
    (h : index ∈ changes.filterMap Change.chooses?) : index < presetSlots := by
  obtain ⟨c, -, hc⟩ := List.mem_filterMap.mp h
  cases c with
  | «recall» i | store i =>
    rw [Change.chooses?] at hc
    split at hc
    · next hi => exact Option.some.inj hc ▸ hi
    · cases hc
  | wpm | hz | mode | left | callsign | message | interval | preset | current => cases hc

/-! ### Changes that name what does not exist -/

/-- The slot or preset that a change names, if it names one. -/
def Change.index? : Change → Option Nat
  | .message i _ | .interval i _ | .recall i | .store i | .preset i _ => some i
  | _ => none

/-- **A change with a bad index has no effect.** -/
theorem apply_of_badIndex (s : Settings) {c : Change} {bad : BadIndex}
    (h : c.badIndex? = some bad) : s.apply c = s := by
  cases c with
  | message i | interval i | preset i =>
    rw [Change.badIndex?] at h
    split at h
    · cases h
    · next hi => rw [apply, Vector.setIfInBounds_eq_of_size_le (Nat.le_of_not_lt hi)]
  | «recall» i =>
    rw [Change.badIndex?] at h
    split at h
    · cases h
    · next hi => rw [apply, s.preset?_eq_none (Nat.le_of_not_lt hi)]
  | store i =>
    rw [Change.badIndex?] at h
    split at h
    · cases h
    · next hi => rw [apply, if_neg hi]
  | wpm | hz | mode | left | callsign | current => cases h

/-- The log is no business of the settings. -/
theorem fst_applyLogged (s : Settings) (log : Logbook) (c : Change) :
    (s.applyLogged log c).1 = s.apply c := by
  rw [applyLogged]
  split
  · rfl
  · next bad hbad => exact (s.apply_of_badIndex hbad).symm

theorem exists_badIndex {c : Change} {index : Nat} (hindex : c.index? = some index)
    (hmissing : 10 ≤ index) : ∃ bad, c.badIndex? = some bad := by
  cases c with
  | message i | interval i =>
    obtain rfl := Option.some.inj hindex
    exact ⟨.slot i, if_neg (Nat.not_lt_of_le hmissing)⟩
  | «recall» i | store i | preset i =>
    obtain rfl := Option.some.inj hindex
    exact ⟨.preset i, if_neg (Nat.not_lt_of_le hmissing)⟩
  | wpm | hz | mode | left | callsign | current => cases hindex

/-- **A change that names what does not exist leaves a warning in the log of the main loop**, and
changes nothing else. -/
theorem applyLogged_of_missing (s : Settings) (log : Logbook) {c : Change} {index : Nat}
    (hindex : c.index? = some index) (hmissing : 10 ≤ index) :
    ∃ bad main, c.badIndex? = some bad ∧ s.applyLogged log c = (s, { log with main }) ∧
      log.main.Gains main log.most (.ofPieces log.clock .warn bad.complaint) := by
  obtain ⟨bad, hbad⟩ := exists_badIndex hindex hmissing
  refine ⟨bad, _, hbad, ?_, Log.Stream.gains_note (by decide) (by decide)⟩
  rw [applyLogged, hbad]
  rfl

/-! ### Runs -/

/-- The settings and the logbook after some changes. -/
def applyAll (s : Settings) (log : Logbook) : List Change → Settings × Logbook
  | [] => (s, log)
  | c :: changes => (s.applyLogged log c).1.applyAll (s.applyLogged log c).2 changes

theorem fst_applyAll (s : Settings) (log : Logbook) (changes : List Change) :
    (s.applyAll log changes).1 = changes.foldl apply s := by
  induction changes generalizing s log with
  | nil => rfl
  | cons c changes ih => rw [applyAll, ih, fst_applyLogged, List.foldl_cons]

/-- **The laws of the settings.** The settings of a new keyboard are changed in any way and any
number of times, whatever the changes ask for. Then the current parameters and the ten presets need
no correction. Each preset holds what was written into it last: the parameters that were the current
ones when it was saved, or those it was set to, as they are corrected, or the parameters of a new
keyboard if it was never written; and this is what loading it makes the current parameters. The
chosen preset is one of the ten, and it is the one that was loaded or saved last. A change that
names a slot or a preset from the tenth on changes nothing but the log of the main loop, which gains
a warning, if warnings pass the filter and a slot is free. -/
theorem presets_hold_last (changes : List Change) (before log : Logbook) :
    let s := (standard.applyAll before changes).1
    s.current.corrected = s.current ∧
    (∀ index < 10,
      let held := (standard.writings index changes).getLast?.getD .standard
      s.preset? index = some held ∧ held.corrected = held ∧
        (s.applyLogged log (.recall index)).1.current = held) ∧
    s.chosenPreset < 10 ∧
    s.chosenPreset = (changes.filterMap Change.chooses?).getLast?.getD 0 ∧
    ∀ c index, c.index? = some index → 10 ≤ index → ∃ bad main, c.badIndex? = some bad ∧
      s.applyLogged log c = (s, { log with main }) ∧
      log.main.Gains main log.most (.ofPieces log.clock .warn bad.complaint) := by
  intro s
  have hs : s = changes.foldl apply standard := standard.fst_applyAll before changes
  have hrange : s.InRange := hs ▸ inRange_foldl changes
  have hchosen : s.chosenPreset = (changes.filterMap Change.chooses?).getLast?.getD 0 :=
    hs ▸ standard.chosenPreset_foldl changes
  refine ⟨hrange.current.corrected_eq, ?_, ?_, hchosen, ?_⟩
  · intro index hindex held
    have hheld : s.preset? index = some held := by
      have hstandard : standard.preset? index = some .standard :=
        (Vector.getElem?_eq_getElem hindex).trans (congrArg some (Vector.getElem_replicate hindex))
      rw [hs, preset?_foldl, hstandard]
      cases h : (standard.writings index changes).getLast? <;> simp [held, h]
    refine ⟨hheld, (hrange.presets index held hheld).corrected_eq, ?_⟩
    rw [fst_applyLogged, apply, hheld]
  · rw [hchosen]
    cases hlast : (changes.filterMap Change.chooses?).getLast? with
    | none => decide
    | some index => exact Change.lt_of_mem_chooses (List.mem_of_getLast? hlast)
  · intro c index hindex hmissing
    exact s.applyLogged_of_missing log hindex hmissing

/-- A preset is saved, and then set to parameters that cannot be kept; another one that does not
exist is saved and loaded. The first one holds what it was set to, as it is corrected. -/
theorem presets_hold_last_three :
    let changes : List Change :=
      [.wpm 200, .left .dah, .store 3, .preset 3 { wpm := 28, left := .space, hz := 79 }, .store 99,
        .recall 10]
    let s := (standard.applyAll .empty changes).1
    s.preset? 3 = some { wpm := 28, left := .dit, hz := 220 } ∧ s.chosenPreset = 3 ∧
      s.current = { wpm := 13, left := .dah } ∧
      ∃ main, s.applyLogged .empty (.store 99) = (s, { Logbook.empty with main }) ∧
        main.contents = [⟨0, .warn, Text.bytes "settings: preset 99 out of range"⟩] := by
  intro changes s
  obtain ⟨-, hheld, -, hchosen, hmissing⟩ := presets_hold_last changes .empty .empty
  obtain ⟨bad, main, hbad, hsame, hgains⟩ := hmissing (.store 99) 99 rfl (by decide)
  obtain rfl : BadIndex.preset 99 = bad := Option.some.inj hbad
  refine ⟨(hheld 3 (by decide)).1, hchosen, by decide, main, hsame, ?_⟩
  rw [hgains.contents_eq]
  decide

end Settings

end MorseKeyboard
