import MorseKeyboard.Proofs.Keyer.Acts

/-!
# The counters of a keyer

A keyer counts milliseconds in words of sixteen bits, and two of its sums could go wrong there: a
counter that is at its greatest value stops, and a difference of periods stops at zero. Neither ever
happens. A counter is counted up only as long as its symbol is not due, and so below a period, and
no period is longer than 1600 milliseconds, at whatever speed. What an act does to a counter is one
of five things (`MorseKeyboard.Keyer.Counted`), and **each of them keeps the counter at 1600 at
most** (`MorseKeyboard.Keyer.Timely`), also when the speed changes in the middle of an element.

Together with the elements, which are in order (`MorseKeyboard.Keyer.Coherent`), this is what can be
relied upon of every keyer that somebody may find (`MorseKeyboard.Keyer.perform_invariant`).
-/

namespace MorseKeyboard.Keyer

/-! ### What becomes of a counter -/

/-- **What an act may make of the counter of a symbol**: leave it, count one millisecond, start it
afresh, or set it to the period of the symbol or to one period of a dit before that. -/
inductive Counted (k : Keyer) (s : Symbol) : Nat → Prop
  | stay : Counted k s (k.elapsed.get s)
  | count (hdue : k.isDue s = false) : Counted k s (k.elapsed.get s + 1)
  | restart {c : Nat} (hc : c ≤ 1) : Counted k s c
  | due : Counted k s (k.speed.period s)
  | rearm {c : Nat} (hc : c + k.speed.period .dit = k.speed.period s) : Counted k s c

/-- **No counter exceeds the longest period**, that of a dah at the lowest speed. -/
def Timely (k : Keyer) : Prop := ∀ s, k.elapsed.get s ≤ 1600

variable {k : Keyer} {s : Symbol}

theorem lt_period_of_not_due (h : k.isDue s = false) : k.elapsed.get s < k.speed.period s := by
  simpa [isDue] using h

/-- A counter that is counted up is not at its greatest value. -/
theorem countUp_of_not_due (h : k.isDue s = false) :
    countUp (k.elapsed.get s) = k.elapsed.get s + 1 :=
  Nat.min_eq_left (lt_counterMax (lt_period_of_not_due h))

theorem Timely.countUp_eq (h : k.Timely) (s : Symbol) :
    countUp (k.elapsed.get s) = k.elapsed.get s + 1 :=
  Nat.min_eq_left (Nat.lt_of_le_of_lt (h s) (by decide))

theorem Counted.le {c : Nat} (h : k.Counted s c) (hk : k.Timely) : c ≤ 1600 := by
  have hperiod := k.speed.period_le s
  cases h with
  | stay => exact hk s
  | count hdue => exact Nat.le_trans (lt_period_of_not_due hdue) hperiod
  | restart hc => exact Nat.le_trans hc (by decide)
  | due => exact hperiod
  | rearm hc => exact Nat.le_trans (Nat.le.intro hc) hperiod

/-- Setting the counter of a symbol leaves the others alone. -/
theorem counted_setElapsed {k' : Keyer} {r : Symbol} {c : Nat} (hk' : k'.elapsed = k.elapsed)
    (h : k.Counted r c) : k.Counted s ((k'.setElapsed r c).elapsed.get s) := by
  rw [setElapsed, hk', PerSymbol.get_set]
  split
  · next hs => exact hs ▸ h
  · exact .stay

theorem counted_age {k' : Keyer} {r : Symbol} (hk' : k'.elapsed = k.elapsed)
    (h : k.isDue r = false) : k.Counted s ((k'.age r).elapsed.get s) := by
  refine counted_setElapsed hk' ?_
  rw [hk', countUp_of_not_due h]
  exact .count h

/-- A counter that is started afresh counts the millisecond that passes. -/
theorem counted_restart {k' : Keyer} (r : Symbol) (hk' : k'.elapsed = k.elapsed) :
    k.Counted s (((k'.setElapsed r 0).age r).elapsed.get s) := by
  rw [age_setElapsed _ _ (by decide)]
  exact counted_setElapsed hk' (.restart (Nat.le_refl 1))

/-- **What an act makes of a counter is on the list.** -/
theorem counted_act (k : Keyer) (a : Act) (s : Symbol) :
    k.Counted s ((k.act a).2.elapsed.get s) := by
  cases a with
  | setMode | setSpeed => exact .stay
  | setLeft x =>
    rw [act, withLeft]
    split <;> exact .stay
  | give i =>
    have hr := k.response_step i
    rw [act]
    generalize k.step i = r at hr ⊢
    cases hr with
    | rest | refuse => exact .stay
    | pause _ _ hdue => exact counted_setElapsed rfl (.count hdue)
    | space | releaseLast => exact counted_setElapsed rfl (.restart (Nat.zero_le 1))
    | hold _ hdue | squeeze _ hdue => exact counted_age rfl hdue
    | sound | alternate => exact counted_restart _ rfl
    | pressFirst | pressSecond => exact counted_setElapsed rfl .due
    | releaseOne =>
      exact counted_setElapsed rfl (.rearm (Nat.sub_add_cancel (k.speed.period_dit_le _)))

/-- **No counter ever exceeds the longest period.** -/
theorem timely_perform (acts : List Act) : (fresh.perform acts).Timely := by
  refine perform_induction (P := Timely) ?_ ?_ acts
  · intro k a hk s
    exact (k.counted_act a s).le hk
  · intro s
    cases s <;> decide

/-! ### What is keyed -/

/-- **A space is keyed at rest, by a millisecond**, and in no other way. -/
theorem Sound.tick_of_keyed_space (h : k.Sound) {i : Input}
    (hkeyed : (k.step i).1 = some .space) : i = .tick ∧ k.state = .idle := by
  have hs : k.state = .idle := by
    by_contra hs
    cases h.isElement_keyed hs hkeyed
  refine ⟨?_, hs⟩
  have hr := k.response_step i
  generalize k.step i = r at hr hkeyed
  cases hr with
  | rest | pause | space | hold | sound | squeeze | alternate => rfl
  | releaseLast hheld => exact absurd (hheld.symm.trans hs) (State.holding_ne_idle _)
  | pressFirst | pressSecond | releaseOne | refuse => cases hkeyed

/-- A queue gets one symbol at most, and a space only if it is keyed. -/
theorem key_eq (symbols : SymbolRing) (keyed : Option Symbol) :
    symbols.key keyed = symbols ∨ ∃ s, keyed = some s ∧ symbols.key keyed = symbols.push s := by
  cases keyed with
  | none => exact Or.inl rfl
  | some s => exact Or.inr ⟨s, rfl, rfl⟩

/-- **What can be relied upon of every keyer that somebody may find.** Its left paddle has an
element, and what is pending is one; something is pending in a squeeze, and nothing at rest. No
counter exceeds 1600, and none becomes anything but what it is set to or counted up to. A
millisecond queues one symbol at most, which is a space at rest only, and an edge queues one element
at most. -/
theorem perform_invariant (acts : List Act) :
    let k := fresh.perform acts
    (k.left = .dit ∨ k.left = .dah) ∧
      (∀ s, k.pending = some s → s = .dit ∨ s = .dah) ∧
      (k.state = .bothHeld → k.pending ≠ none) ∧
      (k.state = .idle → k.pending = none) ∧
      (∀ s, k.elapsed.get s ≤ 1600 ∧ countUp (k.elapsed.get s) = k.elapsed.get s + 1) ∧
      (∀ a s, k.Counted s ((k.act a).2.elapsed.get s)) ∧
      (∀ symbols, (k.tickOnto symbols).2 = symbols ∨
        ∃ s, (s = .space → k.state = .idle) ∧ (k.tickOnto symbols).2 = symbols.push s) ∧
      ∀ e now symbols log, (k.edgeOnto e now symbols log).2.1 = symbols ∨
        ∃ s, s ≠ .space ∧ (k.edgeOnto e now symbols log).2.1 = symbols.push s := by
  intro k
  have h : k.Coherent := Coherent.perform acts
  have helement {s : Symbol} (hs : s.isElement = true) : s = .dit ∨ s = .dah := by
    cases s <;> simp_all [Symbol.isElement]
  have htimely : k.Timely := timely_perform acts
  refine ⟨helement h.left, fun s hs => helement (h.pending s hs), h.squeeze, h.idle,
    fun s => ⟨htimely s, htimely.countUp_eq s⟩, k.counted_act, ?_, ?_⟩
  · intro symbols
    rw [tickOnto_eq]
    refine (key_eq symbols (k.step .tick).1).imp_right ?_
    rintro ⟨s, hkeyed, hpush⟩
    refine ⟨s, ?_, hpush⟩
    rintro rfl
    exact (h.toSound.tick_of_keyed_space hkeyed).2
  · intro e now symbols log
    rw [(k.edgeOnto_eq e now symbols log).2]
    refine (key_eq symbols (k.step (.edge e)).1).imp_right ?_
    rintro ⟨s, hkeyed, hpush⟩
    refine ⟨s, ?_, hpush⟩
    rintro rfl
    cases (h.toSound.tick_of_keyed_space hkeyed).1

/-- A squeeze at the lowest speed, with the paddles exchanged in the middle of it: an element is
pending, and the counter of the dah is as high as it can be. -/
theorem perform_invariant_squeeze :
    let k := fresh.perform
      [.give (.edge (.press .left)), .give .tick, .setSpeed ⟨3, by decide⟩,
        .give (.edge (.press .right)), .setLeft .dah]
    k.state = .bothHeld ∧ k.pending ≠ none ∧ k.elapsed.get .dah = 1600 ∧
      k.elapsed.get .dit ≤ 1600 := by
  intro k
  obtain ⟨-, -, hsqueeze, -, hcounters, -⟩ := perform_invariant
    [.give (.edge (.press .left)), .give .tick, .setSpeed ⟨3, by decide⟩,
      .give (.edge (.press .right)), .setLeft .dah]
  exact ⟨by decide, hsqueeze (by decide), by decide, (hcounters .dit).1⟩

end MorseKeyboard.Keyer
