import Mathlib.Data.Nat.Init
import MorseKeyboard.Proofs.Decoding
import MorseKeyboard.Proofs.Keyer.Run

/-!
# Tapping

An operator who taps a paddle keys one element with each tap, as long as no tap is held for longer
than the period of its element: the element is keyed in the first millisecond, and the next one
would be keyed in the millisecond after the period (`MorseKeyboard.Keyer.after_hold`). Between two
taps no paddle is held, and **a pause ends the letter as soon as it is longer than two units**: up
to there nothing is keyed (`MorseKeyboard.Keyer.after_pause`), in the millisecond after it a space
is, and then nothing any more (`MorseKeyboard.Keyer.after_end`).

So a tapped text (`MorseKeyboard.Keyer.Sign`) is keyed as it was meant, with one space after each
letter, and a decoder that listens to it hears its letters
(`MorseKeyboard.Keyer.hearAll_keyed_signs`), in every mode and at every speed.
-/

namespace MorseKeyboard

theorem PerSymbol.set_set {α : Type} (t : PerSymbol α) (s : Symbol) (a b : α) :
    (t.set s a).set s b = t.set s b := by
  cases s <;> rfl

/-- The period of a symbol lasts 1600 milliseconds at most. -/
theorem Speed.period_le (v : Speed) (s : Symbol) : v.period s ≤ 1600 := by
  have := v.dit_le
  cases s <;> simp only [Speed.period] <;> omega

/-- No period is shorter than that of a dit. -/
theorem Speed.period_dit_le (v : Speed) (s : Symbol) : v.period .dit ≤ v.period s := by
  cases s <;> simp only [Speed.period] <;> omega

theorem Speed.period_pos (v : Speed) (s : Symbol) : 0 < v.period s := by
  have := v.twelve_le_dit
  cases s <;> simp only [Speed.period] <;> omega

namespace Keyer

variable {k : Keyer}

@[simp] theorem get_elapsed_setElapsed (k : Keyer) (s : Symbol) (n : Nat) :
    (k.setElapsed s n).elapsed.get s = n := PerSymbol.get_set_self _ _ _

@[simp] theorem setElapsed_setElapsed (k : Keyer) (s : Symbol) (m n : Nat) :
    (k.setElapsed s m).setElapsed s n = k.setElapsed s n := by
  rw [setElapsed, setElapsed, setElapsed, PerSymbol.set_set]

theorem isDue_setElapsed (k : Keyer) (s : Symbol) (n : Nat) :
    (k.setElapsed s n).isDue s = decide (k.speed.period s ≤ n) := by
  rw [isDue, get_elapsed_setElapsed]
  rfl

/-- A counter below its end counts. -/
theorem age_setElapsed (k : Keyer) (s : Symbol) {n : Nat} (h : n < counterMax) :
    (k.setElapsed s n).age s = k.setElapsed s (n + 1) := by
  rw [age, get_elapsed_setElapsed, setElapsed_setElapsed, countUp, Nat.min_eq_left h]

/-- A counter below a period is below its end. -/
theorem lt_counterMax {s : Symbol} {n : Nat} (h : n < k.speed.period s) : n < counterMax :=
  Nat.lt_of_lt_of_le h (Nat.le_trans (k.speed.period_le s) (by decide))

/-! ### A paddle held -/

/-- A keyer at which a paddle is held, and its element was keyed so many milliseconds ago. -/
def holding (k : Keyer) (p : Paddle) (n : Nat) : Keyer :=
  { k with state := .holding p }.setElapsed (k.symbolOf p) n

theorem pressFirst_eq (k : Keyer) (p : Paddle) :
    k.pressFirst p = k.holding p (k.speed.period (k.symbolOf p)) := rfl

theorem step_press_of_idle (hs : k.state = .idle) (p : Paddle) :
    k.step (.edge (.press p)) = (none, k.pressFirst p) := by
  simp only [step, edge?, hs, Option.getD_some]

theorem step_tick_holding (k : Keyer) (p : Paddle) (n : Nat) :
    (k.holding p n).step .tick = (k.holding p n).heldTick (k.symbolOf p) :=
  step_tick_of_holding rfl

/-- The keyer with the element that is pending given up. -/
def givenUp (k : Keyer) : Keyer := { k with pending := none }

theorem givenUp_eq (hp : k.pending = none) : k.givenUp = k := by
  rw [givenUp, ← hp]

/-- The counter of an element that was keyed begins with the same millisecond. -/
theorem age_holding (k : Keyer) (p : Paddle) (n : Nat) :
    ((k.holding p n).setElapsed (k.symbolOf p) 0).age (k.symbolOf p) = k.holding p 1 := by
  rw [holding, setElapsed_setElapsed, age_setElapsed _ _ (by decide)]
  rfl

/-- When its period is over, the element of a paddle that is held is keyed, and the next period
begins. An element that was pending is given up. -/
theorem step_tick_of_period (k : Keyer) (p : Paddle) :
    (k.holding p (k.speed.period (k.symbolOf p))).step .tick =
      (some (k.symbolOf p), k.givenUp.holding p 1) := by
  have hdue : (k.holding p (k.speed.period (k.symbolOf p))).isDue (k.symbolOf p) = true := by
    rw [holding, isDue_setElapsed]
    exact decide_eq_true (Nat.le_refl _)
  rw [step_tick_holding, heldTick, if_pos hdue]
  exact congrArg (some (k.symbolOf p), ·) (k.givenUp.age_holding p _)

/-- Before the period of its element has passed, a paddle that is held keys nothing. -/
theorem step_tick_of_lt_period (p : Paddle) {n : Nat} (h : n < k.speed.period (k.symbolOf p)) :
    (k.holding p n).step .tick = (none, k.holding p (n + 1)) := by
  have hdue : (k.holding p n).isDue (k.symbolOf p) = false := by
    rw [holding, isDue_setElapsed]
    exact decide_eq_false (Nat.not_le.mpr h)
  rw [step_tick_holding, heldTick, hdue, if_neg Bool.false_ne_true, holding,
    age_setElapsed _ _ (lt_counterMax h)]
  rfl

/-- **A paddle that is held for its period at most keys its element once.** -/
theorem after_hold (k : Keyer) (p : Paddle) {n : Nat} (hpos : 1 ≤ n)
    (hle : n ≤ k.speed.period (k.symbolOf p)) :
    (k.pressFirst p).after (List.replicate n .tick) = k.givenUp.holding p n ∧
      (k.pressFirst p).keyed (List.replicate n .tick) = [k.symbolOf p] := by
  induction n, hpos using Nat.le_induction with
  | base =>
    have hstep : (k.pressFirst p).step .tick = _ := step_tick_of_period k p
    refine ⟨?_, ?_⟩
    · exact congrArg Prod.snd hstep
    · rw [List.replicate_one, keyed_cons, hstep]
      rfl
  | succ n hpos ih =>
    obtain ⟨hafter, hkeyed⟩ := ih (Nat.le_of_succ_le hle)
    have hstep := step_tick_of_lt_period (k := k.givenUp) p hle
    rw [List.replicate_succ', after_concat, keyed_concat, hafter, hkeyed, hstep]
    exact ⟨rfl, rfl⟩

/-! ### A pause -/

/-- A keyer at rest whose last letter still lacks its space, after so many milliseconds. -/
def pausing (k : Keyer) (n : Nat) : Keyer :=
  { k with state := .idle, pending := none, spaceOwed := true }.setElapsed .space n

theorem step_tick_pausing (k : Keyer) (n : Nat) :
    (k.pausing n).step .tick = (k.pausing n).idleTick := rfl

/-- A pause of two units is not long enough. -/
theorem step_tick_of_lt_pause {n : Nat} (h : n < 2 * k.speed.dit) :
    (k.pausing n).step .tick = (none, k.pausing (n + 1)) := by
  have hdue : (k.pausing n).isDue .space = false := by
    rw [pausing, isDue_setElapsed]
    exact decide_eq_false (Nat.not_le.mpr h)
  rw [step_tick_pausing, idleTick, hdue]
  rfl

/-- The keyer after a letter. -/
def ended (k : Keyer) : Keyer := { k.pausing 0 with spaceOwed := false }

/-- Once the pause has lasted two units, the next millisecond ends the letter. -/
theorem step_tick_pause_end (k : Keyer) :
    (k.pausing (2 * k.speed.dit)).step .tick = (some .space, k.ended) := by
  have hdue : (k.pausing (2 * k.speed.dit)).isDue .space = true := by
    rw [pausing, isDue_setElapsed]
    exact decide_eq_true (Nat.le_refl _)
  rw [step_tick_pausing, idleTick, hdue]
  rfl

/-- **A pause of two units at most keys nothing.** -/
theorem after_pause {n : Nat} (h : n ≤ 2 * k.speed.dit) :
    (k.pausing 0).after (List.replicate n .tick) = k.pausing n ∧
      (k.pausing 0).keyed (List.replicate n .tick) = [] := by
  induction n with
  | zero => exact ⟨rfl, rfl⟩
  | succ n ih =>
    obtain ⟨hafter, hkeyed⟩ := ih (Nat.le_of_succ_le h)
    rw [List.replicate_succ', after_concat, keyed_concat, hafter, hkeyed, step_tick_of_lt_pause h]
    exact ⟨rfl, rfl⟩

/-- **A longer pause ends the letter**, with one space however long it is. -/
theorem after_end {n : Nat} (h : 2 * k.speed.dit + 1 ≤ n) :
    (k.pausing 0).after (List.replicate n .tick) = k.ended ∧
      (k.pausing 0).keyed (List.replicate n .tick) = [.space] := by
  induction n, h using Nat.le_induction with
  | base =>
    obtain ⟨hafter, hkeyed⟩ := k.after_pause (Nat.le_refl _)
    rw [List.replicate_succ', after_concat, keyed_concat, hafter, hkeyed, step_tick_pause_end]
    exact ⟨rfl, rfl⟩
  | succ n _ ih =>
    obtain ⟨hafter, hkeyed⟩ := ih
    rw [List.replicate_succ', after_concat, keyed_concat, hafter, hkeyed]
    exact ⟨rfl, rfl⟩

/-! ### Taps -/

/-- The paddles have the two elements, one each. -/
theorem isElement_symbolOf_of_left (hk : k.left.isElement = true) (p : Paddle) :
    (k.symbolOf p).isElement = true := by
  cases p with
  | left => exact hk
  | right => exact (Symbol.isElement_opposite _).trans hk

/-- The paddle of an element, given the element of the left one. -/
def paddleFor (left s : Symbol) : Paddle := if left = s then .left else .right

theorem symbolOf_paddleFor (hk : k.left.isElement = true) {s : Symbol} (hs : s.isElement = true) :
    k.symbolOf (paddleFor k.left s) = s := by
  rw [paddleFor]
  split
  · next h => exact h
  -- of the two elements the right paddle has the other one
  · next h =>
    show k.left.opposite = s
    cases hl : k.left <;> cases s <;> simp_all [Symbol.opposite, Symbol.isElement]

/-- **A tap** of the paddle of an element. It is held for so many milliseconds, at least one and at
most the period of the element, and after it no paddle is held for so many. -/
structure Tap (speed : Speed) where
  element : Symbol
  isElement : element.isElement = true
  hold : Nat
  hold_pos : 1 ≤ hold
  hold_le : hold ≤ speed.period element
  pause : Nat

/-- **A tapped letter**: taps with pauses of two units at most between them, and a longer pause
after the last one. -/
structure Sign (speed : Speed) where
  taps : List (Tap speed)
  pause_le : ∀ t ∈ taps, t.pause ≤ 2 * speed.dit
  last : Tap speed
  le_pause : 2 * speed.dit + 1 ≤ last.pause

variable {speed : Speed}

/-- What a keyer is given in a tap, if this is the element of its left paddle. -/
def Tap.inputs (left : Symbol) (t : Tap speed) : List Input :=
  .edge (.press (paddleFor left t.element)) :: List.replicate t.hold .tick ++
    .edge (.release (paddleFor left t.element)) :: List.replicate t.pause .tick

namespace Sign

/-- The elements of a tapped letter. -/
def elements (x : Sign speed) : List Symbol := x.taps.map Tap.element ++ [x.last.element]

/-- What a keyer is given in a tapped letter. -/
def inputs (left : Symbol) (x : Sign speed) : List Input :=
  x.taps.flatMap (Tap.inputs left) ++ x.last.inputs left

theorem isElement_of_mem_elements (x : Sign speed) : ∀ s ∈ x.elements, s.isElement = true := by
  intro s hs
  rcases List.mem_append.mp hs with hs | hs
  · obtain ⟨t, -, rfl⟩ := List.mem_map.mp hs
    exact t.isElement
  · obtain rfl := List.mem_singleton.mp hs
    exact x.last.isElement

theorem elements_ne_nil (x : Sign speed) : x.elements ≠ [] := by
  simp [elements]

end Sign

/-- A keyer between two taps. -/
structure Rests (k : Keyer) (speed : Speed) (left : Symbol) : Prop where
  state : k.state = .idle
  pending : k.pending = none
  speed_eq : k.speed = speed
  left_eq : k.left = left

/-- Releasing the paddle of a tap keys nothing. -/
theorem step_release_holding (hp : k.pending = none) (p : Paddle) (n : Nat) :
    (k.holding p n).step (.edge (.release p)) = (none, (k.holding p n).pausing 0) := by
  have hrelease : (k.holding p n).step (.edge (.release p)) = (k.holding p n).releaseLast := by
    cases p <;> rfl
  have hpending : (k.holding p n).pending = none := hp
  rw [hrelease, releaseLast, hpending, ite_self]
  rfl

namespace Rests

variable {left : Symbol}

/-- **A tap keys its element**, and leaves the keyer pausing. -/
theorem tap (h : k.Rests speed left) (hleft : left.isElement = true) (t : Tap speed) :
    ∃ k' : Keyer, k'.speed = speed ∧ k'.left = left ∧
      k.after (t.inputs left) = (k'.pausing 0).after (List.replicate t.pause .tick) ∧
      k.keyed (t.inputs left) =
        t.element :: (k'.pausing 0).keyed (List.replicate t.pause .tick) := by
  obtain ⟨hstate, hpending, rfl, rfl⟩ := h
  have hsymbol := symbolOf_paddleFor hleft t.isElement
  generalize hpaddle : paddleFor k.left t.element = p at hsymbol
  have hpress := step_press_of_idle hstate p
  obtain ⟨hafter, hkeyed⟩ := after_hold k p t.hold_pos (by rw [hsymbol]; exact t.hold_le)
  rw [givenUp_eq hpending] at hafter
  rw [hsymbol] at hkeyed
  refine ⟨k.holding p t.hold, rfl, rfl, ?_, ?_⟩
  · rw [Tap.inputs, hpaddle, List.cons_append, after_cons, hpress, after_append, hafter, after_cons,
      step_release_holding hpending]
  · rw [Tap.inputs, hpaddle, List.cons_append, keyed_cons, hpress, keyed_append, hafter, hkeyed,
      keyed_cons, step_release_holding hpending]
    rfl

/-- A tap inside a letter keys its element alone. -/
theorem tap_inside (h : k.Rests speed left) (hleft : left.isElement = true) (t : Tap speed)
    (hpause : t.pause ≤ 2 * speed.dit) :
    (k.after (t.inputs left)).Rests speed left ∧ k.keyed (t.inputs left) = [t.element] := by
  obtain ⟨k', rfl, rfl, hafter, hkeyed⟩ := h.tap hleft t
  obtain ⟨hpausing, hnone⟩ := after_pause (k := k') hpause
  rw [hafter, hkeyed, hpausing, hnone]
  exact ⟨⟨rfl, rfl, rfl, rfl⟩, rfl⟩

/-- The last tap of a letter keys its element and the space. -/
theorem tap_last (h : k.Rests speed left) (hleft : left.isElement = true) (t : Tap speed)
    (hpause : 2 * speed.dit + 1 ≤ t.pause) :
    (k.after (t.inputs left)).Rests speed left ∧
      k.keyed (t.inputs left) = [t.element, .space] := by
  obtain ⟨k', rfl, rfl, hafter, hkeyed⟩ := h.tap hleft t
  obtain ⟨hended, hspace⟩ := after_end (k := k') hpause
  rw [hafter, hkeyed, hended, hspace]
  exact ⟨⟨rfl, rfl, rfl, rfl⟩, rfl⟩

/-- The taps inside a letter key their elements. -/
theorem taps (h : k.Rests speed left) (hleft : left.isElement = true) {taps : List (Tap speed)}
    (hpause : ∀ t ∈ taps, t.pause ≤ 2 * speed.dit) :
    (k.after (taps.flatMap (Tap.inputs left))).Rests speed left ∧
      k.keyed (taps.flatMap (Tap.inputs left)) = taps.map Tap.element := by
  induction taps generalizing k with
  | nil => exact ⟨h, rfl⟩
  | cons t taps ih =>
    obtain ⟨hrests, hkeyed⟩ := h.tap_inside hleft t (hpause t List.mem_cons_self)
    obtain ⟨hrests', hkeyed'⟩ := ih hrests fun u hu => hpause u (List.mem_cons_of_mem t hu)
    rw [List.flatMap_cons, after_append, keyed_append, hkeyed, hkeyed']
    exact ⟨hrests', rfl⟩

/-- **A tapped letter is keyed as its elements and one space.** -/
theorem sign (h : k.Rests speed left) (hleft : left.isElement = true) (x : Sign speed) :
    (k.after (x.inputs left)).Rests speed left ∧
      k.keyed (x.inputs left) = x.elements ++ [.space] := by
  obtain ⟨hrests, hkeyed⟩ := h.taps hleft x.pause_le
  obtain ⟨hrests', hkeyed'⟩ := hrests.tap_last hleft x.last x.le_pause
  rw [Sign.inputs, after_append, keyed_append, hkeyed, hkeyed', Sign.elements, List.append_assoc]
  exact ⟨hrests', rfl⟩

/-- **A tapped text is keyed letter by letter.** -/
theorem signs (h : k.Rests speed left) (hleft : left.isElement = true) (signs : List (Sign speed)) :
    k.keyed (signs.flatMap (Sign.inputs left)) = signs.flatMap fun x => x.elements ++ [.space] := by
  induction signs generalizing k with
  | nil => rfl
  | cons x signs ih =>
    obtain ⟨hrests, hkeyed⟩ := h.sign hleft x
    rw [List.flatMap_cons, keyed_append, hkeyed, ih hrests, List.flatMap_cons]

end Rests

/-- A decoder hears a text that was keyed letter by letter. -/
theorem hearAll_signs (signs : List (Sign speed)) :
    Decoder.fresh.hearAll (signs.flatMap fun x => x.elements ++ [.space]) =
      (signs.flatMap fun x => Decoder.reading x.elements, .fresh) := by
  induction signs with
  | nil => rfl
  | cons x signs ih =>
    simp only [List.flatMap_cons]
    rw [Decoder.hearAll_append,
      Decoder.hearAll_reading x.isElement_of_mem_elements x.elements_ne_nil, ih]

/-- **A tapped text is keyed as it was meant, and heard as its letters.** At a keyer that nobody has
touched, of any mode and speed and with either element on the left paddle, letters are tapped: each
element with a tap of its paddle, held for a millisecond at least and for the period of the element
at most, with pauses of two units at most inside a letter and longer ones after it. Then the
elements of each letter are keyed and one space after them, and a decoder that listens hears each
letter as its reading. -/
theorem hearAll_keyed_signs (speed : Speed) (mode : Mode) (left : Symbol)
    (signs : List (Sign speed)) :
    let k := prepared speed mode left
    k.keyed (signs.flatMap (Sign.inputs k.left)) =
        signs.flatMap (fun x => x.elements ++ [.space]) ∧
      Decoder.fresh.hearAll (k.keyed (signs.flatMap (Sign.inputs k.left))) =
        (signs.flatMap fun x => Decoder.reading x.elements, .fresh) := by
  intro k
  obtain ⟨element, helement, hk⟩ := prepared_eq speed mode left
  have hrests : k.Rests speed k.left := by
    rw [show k = _ from hk]
    exact ⟨rfl, rfl, rfl, rfl⟩
  have hleft : k.left.isElement = true := by
    rw [show k = _ from hk]
    exact helement
  have hkeyed := hrests.signs hleft signs
  exact ⟨hkeyed, hkeyed ▸ hearAll_signs signs⟩

/-- The highest speed, at which a dah with its pause takes 48 ms. -/
def fastest : Speed := ⟨99, by decide⟩

/-- An `n`. The dah is held for its whole period, and the pause after it lasts two units. -/
def tappedN : Sign fastest where
  taps :=
    [{ element := .dah, isElement := rfl, hold := 48, hold_pos := by decide, hold_le := by decide,
       pause := 24 }]
  pause_le := by
    intro t ht
    obtain rfl := List.mem_singleton.mp ht
    decide
  last :=
    { element := .dit, isElement := rfl, hold := 1, hold_pos := by decide, hold_le := by decide,
      pause := 25 }
  le_pause := by decide

theorem hearAll_keyed_signs_n :
    Decoder.fresh.hearAll ((prepared fastest .iambicB .dah).keyed
      ([tappedN, tappedN].flatMap (Sign.inputs .dah))) = ([0x6E, 0x6E], .fresh) :=
  (hearAll_keyed_signs fastest .iambicB .dah [tappedN, tappedN]).2.trans rfl

end Keyer

end MorseKeyboard
