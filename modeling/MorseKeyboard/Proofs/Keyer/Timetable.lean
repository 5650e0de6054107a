import Mathlib.Data.List.Chain
import MorseKeyboard.Proofs.Keyer.Acts
import MorseKeyboard.Proofs.Keyer.Rhythm

/-!
# The timetables of the keyer

A keyer that keys in beats comes back to where it was. Once its beat is due it keys, and one period
later the next beat is due (`MorseKeyboard.Keyer.Beating.lap`); and as soon as the symbol is the
same again, all that follows is a repetition. So what is keyed in a millisecond is told by its
number modulo the length of a *round* (`MorseKeyboard.Keyer.keyedAt_eq_mod`): **a round of one lap
if one symbol repeats, and of two if two symbols alternate**.

A squeeze may begin at any keyer of which one paddle is held, with any counters and with any element
still pending from before. None of this matters, since the second paddle sets its own counter and
the pending element when it goes down (`MorseKeyboard.Keyer.step_press_of_holding`), and the counter
of the other element is set when that becomes the next one
(`MorseKeyboard.Keyer.keyedAt_squeeze`).

One paddle alone may be held because it went down at rest, or because it is left of a squeeze. In
either case its counter is set at that moment, so again nothing from before matters: the first
element comes at once when the paddle goes down, and **two units late when the other one goes up**
(`MorseKeyboard.Keyer.keyedAt_single`).
-/

namespace MorseKeyboard.Keyer

/-! ### Rounds -/

/-- The symbol that is keyed in a millisecond, if any, so many others having passed before it and
nothing else having happened. -/
def keyedAt (k : Keyer) (n : Nat) : Option Symbol :=
  ((k.after (List.replicate n .tick)).step .tick).1

theorem keyedAt_succ (k : Keyer) (n : Nat) : k.keyedAt (n + 1) = (k.step .tick).2.keyedAt n := rfl

theorem after_replicate_add (k : Keyer) (m n : Nat) :
    k.after (List.replicate (m + n) .tick) =
      (k.after (List.replicate m .tick)).after (List.replicate n .tick) := by
  rw [List.replicate_add, after_append]

theorem keyedAt_add (k : Keyer) (m n : Nat) :
    k.keyedAt (m + n) = (k.after (List.replicate m .tick)).keyedAt n := by
  rw [keyedAt, after_replicate_add, keyedAt]

/-- **What recurs after a round is keyed again in every round.** -/
theorem keyedAt_eq_mod {due : Keyer → Prop} {round : Nat}
    (hround : ∀ k, due k → due (k.after (List.replicate round .tick))) {k : Keyer} (hk : due k)
    (n : Nat) : ∃ k', due k' ∧ k.keyedAt n = k'.keyedAt (n % round) := by
  have hrounds (q : Nat) : due (k.after (List.replicate (round * q) .tick)) := by
    induction q with
    | zero => exact hk
    | succ q ih =>
      rw [Nat.mul_succ, after_replicate_add]
      exact hround _ ih
  refine ⟨_, hrounds (n / round), ?_⟩
  rw [← keyedAt_add, Nat.div_add_mod]

namespace Beating

variable {v : Speed} {next : Symbol → Symbol} {beating : Symbol → Nat → Keyer → Prop} {s : Symbol}
  {c : Nat} {k : Keyer}

/-- The milliseconds up to the next beat. -/
theorem after_wait (h : Beating v next beating) (hk : beating s c k) {n : Nat}
    (hn : c + n ≤ v.period s) : beating s (c + n) (k.after (List.replicate n .tick)) := by
  induction n with
  | zero => exact hk
  | succ n ih =>
    obtain ⟨k', hstep, hk'⟩ := h.wait (ih (by omega)) (by omega)
    rw [List.replicate_succ', after_concat, hstep]
    exact hk'

theorem keyedAt_wait (h : Beating v next beating) (hk : beating s c k) {n : Nat}
    (hn : c + n < v.period s) : k.keyedAt n = none := by
  obtain ⟨k', hstep, -⟩ := h.wait (h.after_wait hk (Nat.le_of_lt hn)) hn
  rw [keyedAt, hstep]

/-- **A lap**: the beat that is due is keyed, and then nothing until the next one is due. -/
theorem lap (h : Beating v next beating) (hk : beating s (v.period s) k) :
    (∀ n < v.period (next s), k.keyedAt n = if n = 0 then some s else none) ∧
      beating (next s) (v.period (next s))
        (k.after (List.replicate (v.period (next s)) .tick)) := by
  obtain ⟨k', hstep, hk'⟩ := h.beat hk
  have hpos := v.period_pos (next s)
  refine ⟨?_, ?_⟩
  · intro n hn
    cases n with
    | zero => exact congrArg Prod.fst hstep
    | succ n =>
      rw [keyedAt_succ, hstep]
      exact h.keyedAt_wait hk' (by omega)
  · have hlap : 1 + (v.period (next s) - 1) = v.period (next s) := by omega
    have hwait := h.after_wait hk' (Nat.le_of_eq hlap)
    rw [hlap] at hwait
    have hticks : k.after (List.replicate (v.period (next s)) .tick) =
        k'.after (List.replicate (v.period (next s) - 1) .tick) := by
      conv_lhs => rw [← hlap, after_replicate_add, List.replicate_one, after_cons, hstep]
      rfl
    rwa [hticks]

/-- **One symbol that repeats** is keyed once in each period. -/
theorem keyedAt_of_repeats (h : Beating v next beating) (hs : next s = s)
    (hk : beating s (v.period s) k) (n : Nat) :
    k.keyedAt n = if n % v.period s = 0 then some s else none := by
  have hround (k : Keyer) (hk : beating s (v.period s) k) :
      beating s (v.period s) (k.after (List.replicate (v.period s) .tick)) := by
    have hlap := (h.lap hk).2
    rwa [hs] at hlap
  obtain ⟨k', hk', hkeyed⟩ := keyedAt_eq_mod hround hk n
  have hlap := (h.lap hk').1
  rw [hs] at hlap
  rw [hkeyed, hlap _ (Nat.mod_lt n (v.period_pos s))]

/-- **One symbol that repeats after a wait** is keyed when its period is over, and then once in each
period. -/
theorem keyedAt_of_repeats_after (h : Beating v next beating) (hs : next s = s) (hk : beating s c k)
    {wait : Nat} (hwait : c + wait = v.period s) (n : Nat) :
    k.keyedAt n = if wait ≤ n ∧ (n - wait) % v.period s = 0 then some s else none := by
  rcases Nat.lt_or_ge n wait with hearly | hlate
  · rw [if_neg fun hlate => absurd hlate.1 (Nat.not_le.mpr hearly)]
    exact h.keyedAt_wait hk (by omega)
  · obtain ⟨j, rfl⟩ := Nat.exists_eq_add_of_le hlate
    have hdue := h.after_wait hk (Nat.le_of_eq hwait)
    rw [hwait] at hdue
    rw [keyedAt_add, h.keyedAt_of_repeats hs hdue, Nat.add_sub_cancel_left]
    exact if_congr (and_iff_right hlate).symm rfl rfl

/-- **Two symbols that alternate** are keyed once each in a round of two periods. -/
theorem keyedAt_of_alternates (h : Beating v next beating) (hs : next (next s) = s)
    (hk : beating s (v.period s) k) (n : Nat) :
    k.keyedAt n =
      if n % (v.period s + v.period (next s)) = 0 then some s
      else if n % (v.period s + v.period (next s)) = v.period (next s) then some (next s)
      else none := by
  have hpos := v.period_pos s
  have hpos' := v.period_pos (next s)
  have hsecond (k : Keyer) (hk : beating s (v.period s) k) :=
    h.lap (h.lap hk).2
  rw [hs] at hsecond
  have hround (k : Keyer) (hk : beating s (v.period s) k) :
      beating s (v.period s)
        (k.after (List.replicate (v.period s + v.period (next s)) .tick)) := by
    rw [Nat.add_comm, after_replicate_add]
    exact (hsecond k hk).2
  obtain ⟨k', hk', hkeyed⟩ := keyedAt_eq_mod hround hk n
  have hlt := Nat.mod_lt n (Nat.add_pos_left hpos (v.period (next s)))
  rw [hkeyed]
  generalize n % (v.period s + v.period (next s)) = m at hlt ⊢
  rcases Nat.lt_or_ge m (v.period (next s)) with hfirst | hlate
  -- the first lap of the round
  · rw [(h.lap hk').1 m hfirst, if_neg (Nat.ne_of_lt hfirst)]
  -- the second one
  · obtain ⟨j, rfl⟩ := Nat.exists_eq_add_of_le hlate
    have hne : v.period (next s) + j ≠ 0 := by omega
    rw [keyedAt_add, (hsecond k' hk').1 j (by omega), if_neg hne]
    simp only [Nat.add_eq_left]

/-- **What is keyed in beats** begins with the symbol that is to come, and each symbol is followed
by its successor. -/
theorem isChain_keyed (h : Beating v next beating) (hk : beating s c k) (hc : c ≤ v.period s)
    (n : Nat) :
    (∀ a ∈ (k.keyed (List.replicate n .tick)).head?, a = s) ∧
      (k.keyed (List.replicate n .tick)).IsChain fun a b => b = next a := by
  induction n generalizing s c k with
  | zero => exact ⟨by rintro a ⟨⟩, List.IsChain.nil⟩
  | succ n ih =>
    rw [List.replicate_succ, keyed_cons]
    rcases Nat.eq_or_lt_of_le hc with rfl | hlt
    · obtain ⟨k', hstep, hk'⟩ := h.beat hk
      obtain ⟨hhead, hchain⟩ := ih hk' (v.period_pos (next s))
      rw [hstep]
      refine ⟨?_, List.isChain_cons.mpr ⟨hhead, hchain⟩⟩
      rintro a ⟨⟩
      rfl
    · obtain ⟨k', hstep, hk'⟩ := h.wait hk hlt
      rw [hstep]
      exact ih hk' hlt

end Beating

/-! ### Squeezes -/

/-- The two elements take six units together, each with its gap. -/
theorem period_add_period_opposite (v : Speed) {s : Symbol} (hs : s.isElement = true) :
    v.period s + v.period s.opposite = 6 * v.dit := by
  cases s with
  | dit | dah =>
    simp only [Symbol.opposite, Speed.period]
    omega
  | space => cases hs

/-- **The timetable of a squeeze.** One paddle of a keyer is held, whatever was done to the keyer
before; the other paddle goes down, which keys nothing by itself, and then only time passes. In the
iambic modes the element of the second paddle is keyed in the first millisecond and then every six
units, and the other element as often, for the first time when its own period has passed; so the two
alternate. In the other modes the element of the second paddle is keyed in the first millisecond and
then after each of its periods, and nothing else is. -/
theorem keyedAt_squeeze (acts : List Act) (p : Paddle)
    (hs : (fresh.perform acts).state = .holding p) :
    let k := fresh.perform acts
    let squeezed := (k.step (.edge (.press p.other))).2
    let s := k.symbolOf p.other
    (k.step (.edge (.press p.other))).1 = none ∧ s.isElement = true ∧
    (k.mode.isIambic = true →
      k.speed.period s + k.speed.period s.opposite = 6 * k.speed.dit ∧
      (∀ n, squeezed.keyedAt n =
        if n % (6 * k.speed.dit) = 0 then some s
        else if n % (6 * k.speed.dit) = k.speed.period s.opposite then some s.opposite
        else none) ∧
      ∀ n, (squeezed.keyed (List.replicate n .tick)).IsChain fun a b => b = a.opposite) ∧
    (k.mode.isIambic = false →
      ∀ n, squeezed.keyedAt n = if n % k.speed.period s = 0 then some s else none) := by
  intro k squeezed s
  have hstep := step_press_of_holding hs
  have hsqueezed : squeezed = k.squeezing s (k.speed.period s) := congrArg Prod.snd hstep
  have hs' : s.isElement = true := (Coherent.perform acts).isElement_symbolOf p.other
  have hbeating := beating_squeezing k.speed k.mode
  have hdue : ∃ k' : Keyer, squeezed = k'.squeezing s (k.speed.period s) ∧
      k'.speed = k.speed ∧ k'.mode = k.mode := ⟨k, hsqueezed, rfl, rfl⟩
  refine ⟨congrArg Prod.fst hstep, hs', ?_, ?_⟩
  · intro hmode
    have hround := period_add_period_opposite k.speed hs'
    simp only [hmode, if_true] at hbeating
    refine ⟨hround, ?_, ?_⟩
    · intro n
      rw [← hround]
      exact hbeating.keyedAt_of_alternates s.opposite_opposite hdue n
    · intro n
      exact (hbeating.isChain_keyed hdue (Nat.le_refl _) n).2
  · intro hmode n
    simp only [hmode] at hbeating
    exact hbeating.keyedAt_of_repeats rfl hdue n

/-- In iambic mode A the dit paddle has been down for a millisecond when the dah paddle joins it:
the dah is keyed at once, and the next dit two units later. -/
theorem keyedAt_squeeze_dah :
    let acts : List Act := [.setMode .iambicA, .give (.edge (.press .left)), .give .tick]
    let squeezed := ((fresh.perform acts).step (.edge (.press .right))).2
    (fresh.perform acts).state = .holding .left ∧ squeezed.keyedAt 0 = some .dah ∧
      squeezed.keyedAt 119 = none ∧ squeezed.keyedAt 120 = some .dit ∧
      squeezed.keyedAt 360 = some .dah := by
  have hs : (fresh.perform
      [.setMode .iambicA, .give (.edge (.press .left)), .give .tick]).state = .holding .left := by
    decide
  obtain ⟨-, -, hiambic, -⟩ := keyedAt_squeeze _ .left hs
  obtain ⟨-, hkeyed, -⟩ := hiambic rfl
  exact ⟨hs, hkeyed 0, hkeyed 119, hkeyed 120, hkeyed 360⟩

/-! ### One paddle -/

theorem step_release_of_bothHeld {k : Keyer} (hs : k.state = .bothHeld) (p : Paddle) :
    k.step (.edge (.release p)) = (none, k.releaseOne p) := by
  simp only [step, edge?, hs, Option.getD_some]

/-- **When one of two paddles goes up, the other one has the period of a dit to go**, whatever was
before. -/
theorem releaseOne_other_eq (k : Keyer) (p : Paddle) :
    k.releaseOne p.other =
      k.holding p (k.speed.period (k.symbolOf p) - k.speed.period .dit) := by
  cases p <;> rfl

/-- **The timetable of one paddle.** Whatever was done to a keyer before, one of its paddles comes
to be held alone, and then only time passes. If no paddle was held and this one goes down, its
element is keyed in the first millisecond and then after each of its periods. If both were held and
the other one goes up, the period of a dit passes first; in the millisecond after that the element
is keyed, and then after each of its periods. The edge itself keys nothing in either case, and
nothing else is keyed. -/
theorem keyedAt_single (acts : List Act) (p : Paddle) :
    let k := fresh.perform acts
    let s := k.symbolOf p
    s.isElement = true ∧
    (k.state = .idle →
      (k.step (.edge (.press p))).1 = none ∧
      ∀ n, (k.step (.edge (.press p))).2.keyedAt n =
        if n % k.speed.period s = 0 then some s else none) ∧
    (k.state = .bothHeld →
      (k.step (.edge (.release p.other))).1 = none ∧
      ∀ n, (k.step (.edge (.release p.other))).2.keyedAt n =
        if k.speed.period .dit ≤ n ∧ (n - k.speed.period .dit) % k.speed.period s = 0 then some s
        else none) := by
  intro k s
  have hbeating := beating_holding k.speed p
  refine ⟨(Coherent.perform acts).isElement_symbolOf p, ?_, ?_⟩
  · intro hs
    rw [step_press_of_idle hs p]
    refine ⟨rfl, ?_⟩
    intro n
    exact hbeating.keyedAt_of_repeats rfl ⟨k, k.pressFirst_eq p, rfl, rfl⟩ n
  · intro hs
    rw [step_release_of_bothHeld hs p.other]
    refine ⟨rfl, ?_⟩
    intro n
    exact hbeating.keyedAt_of_repeats_after rfl ⟨k, k.releaseOne_other_eq p, rfl, rfl⟩
      (Nat.sub_add_cancel (k.speed.period_dit_le s)) n

/-- At the highest speed the dah paddle goes down at rest: a dah is keyed at once, and the next one
48 ms later. In a squeeze, after the speed was changed, the dit paddle goes up: nothing is keyed for
24 ms, then a dah is, and the next one 48 ms later. -/
theorem keyedAt_single_dah :
    let rest : List Act := [.setSpeed fastest]
    let squeeze : List Act := [.setMode .iambicA, .give (.edge (.press .left)), .give .tick,
      .setSpeed fastest, .give (.edge (.press .right)), .give .tick]
    let pressed := ((fresh.perform rest).step (.edge (.press .right))).2
    let spared := ((fresh.perform squeeze).step (.edge (.release .left))).2
    ((fresh.perform rest).state = .idle ∧ pressed.keyedAt 0 = some .dah ∧
      pressed.keyedAt 47 = none ∧ pressed.keyedAt 48 = some .dah) ∧
    (fresh.perform squeeze).state = .bothHeld ∧ spared.keyedAt 23 = none ∧
      spared.keyedAt 24 = some .dah ∧ spared.keyedAt 72 = some .dah := by
  obtain ⟨-, hpress, -⟩ := keyedAt_single [.setSpeed fastest] .right
  obtain ⟨-, hpressed⟩ := hpress (by decide)
  have hboth : (fresh.perform [.setMode .iambicA, .give (.edge (.press .left)), .give .tick,
      .setSpeed fastest, .give (.edge (.press .right)), .give .tick]).state = .bothHeld := by
    decide
  obtain ⟨-, -, hrelease⟩ := keyedAt_single _ .right
  obtain ⟨-, hspared⟩ := hrelease hboth
  exact ⟨⟨by decide, hpressed 0, hpressed 47, hpressed 48⟩, hboth, hspared 23, hspared 24,
    hspared 72⟩

end MorseKeyboard.Keyer
