import Mathlib.Data.List.Induction
import MorseKeyboard.Proofs.Keyer.Run

/-!
# What the keying mode decides

The mode of a keyer has a say in two places only. It decides whether the elements of a squeeze
alternate, as in the iambic modes, or the second paddle repeats. And in mode iambic B it decides
that an element of the squeeze that is still pending is keyed when the last paddle goes up: this is
the *trailing* element (`MorseKeyboard.Keyer.trailing`).

So **keyers whose modes agree on the squeeze go through the same states**, whatever they are given
(`MorseKeyboard.Keyer.after_withMode`), and what they key differs by the trailing element at most.
From a keyer that nobody has touched the trailing element is the opposite of the last symbol keyed,
as long as the squeeze was heard (`MorseKeyboard.Keyer.Sounded`): the element of the second paddle
becomes pending when that goes down, and from then on each element that is keyed leaves its opposite
pending (`MorseKeyboard.Keyer.Poised`). All of it is put together in
`MorseKeyboard.Keyer.modes_differ_by_trailing`.
-/

namespace MorseKeyboard.Keyer

/-- The element of a squeeze that is still pending when an edge leaves no paddle held. -/
def trailing (k : Keyer) : Input → Option Symbol
  | .edge (.release p) => if k.state = .holding p then k.pending else none
  | _ => none

/-! ### Keyers that differ in their modes -/

section

variable {k : Keyer} {m : Mode}

@[simp] theorem mode_withMode : (k.withMode m).mode = m := rfl

theorem idleTick_withMode : (k.withMode m).idleTick = (k.idleTick.1, k.idleTick.2.withMode m) := by
  show (if !k.spaceOwed then _ else if k.isDue .space then _ else _) = _
  rw [idleTick]
  cases k.spaceOwed <;> cases k.isDue .space <;> rfl

theorem heldTick_withMode (s : Symbol) :
    (k.withMode m).heldTick s = ((k.heldTick s).1, (k.heldTick s).2.withMode m) := by
  show (if k.isDue s then _ else _) = _
  rw [heldTick]
  cases k.isDue s <;> rfl

theorem squeezeTick_withMode (h : m.isIambic = k.mode.isIambic) :
    (k.withMode m).squeezeTick = (k.squeezeTick.1, k.squeezeTick.2.withMode m) := by
  show (if k.isDue (k.pending.getD k.left) then _ else _) = _
  rw [squeezeTick]
  dsimp only
  rw [← h]
  cases k.isDue (k.pending.getD k.left) <;> rfl

theorem tick_withMode (h : m.isIambic = k.mode.isIambic) :
    (k.withMode m).tick = (k.tick.1, k.tick.2.withMode m) := by
  have hstate : (k.withMode m).state = k.state := rfl
  rw [tick, tick, hstate]
  cases k.state with
  | idle => exact idleTick_withMode
  | leftHeld => exact heldTick_withMode (k.symbolOf .left)
  | rightHeld => exact heldTick_withMode (k.symbolOf .right)
  | bothHeld => exact squeezeTick_withMode h

/-- An edge leads keyers of different modes to the same state. -/
theorem snd_edge_withMode (e : Edge) :
    ((k.withMode m).step (.edge e)).2 = (k.step (.edge e)).2.withMode m := by
  obtain ⟨_ | _ | _ | _, _, _, _, _, _, _⟩ := k <;> rcases e with (_ | _) | (_ | _) <;> rfl

theorem snd_step_withMode (h : m.isIambic = k.mode.isIambic) (i : Input) :
    ((k.withMode m).step i).2 = (k.step i).2.withMode m := by
  cases i with
  | edge e => exact snd_edge_withMode e
  | tick => exact congrArg Prod.snd (tick_withMode h)

/-- **Keyers whose modes agree on the squeeze go through the same states.** -/
theorem after_withMode (h : m.isIambic = k.mode.isIambic) (inputs : List Input) :
    (k.withMode m).after inputs = (k.after inputs).withMode m := by
  induction inputs generalizing k with
  | nil => rfl
  | cons i inputs ih =>
    have hsame : m.isIambic = (k.step i).2.mode.isIambic := by rw [mode_step, h]
    rw [after_cons, after_cons, snd_step_withMode h, ih hsame]

/-- **An edge keys nothing but the trailing element**, and that only in mode iambic B. -/
theorem fst_edge (k : Keyer) (e : Edge) :
    (k.step (.edge e)).1 = if k.mode = .iambicB then k.trailing (.edge e) else none := by
  rcases hs : k.state with _ | _ | _ | _ <;> rcases e with (_ | _) | (_ | _) <;>
    simp [step, edge?, trailing, hs, State.holding, releaseLast]

theorem trailing_withMode (i : Input) : (k.withMode m).trailing i = k.trailing i := rfl

/-- Apart from mode iambic B, modes that agree on the squeeze key the same. -/
theorem fst_step_withMode (h : m.isIambic = k.mode.isIambic) (hm : m ≠ .iambicB)
    (hk : k.mode ≠ .iambicB) (i : Input) : ((k.withMode m).step i).1 = (k.step i).1 := by
  cases i with
  | edge e => rw [fst_edge, fst_edge, mode_withMode, if_neg hk, if_neg hm]
  | tick => exact (Prod.ext_iff.mp (tick_withMode h)).1

/-- **Mode iambic B keys what mode iambic A does, and the trailing element besides.** -/
theorem fst_step_iambicB (hk : k.mode = .iambicA) (i : Input) :
    ((k.withMode .iambicB).step i).1 = (k.step i).1.or (k.trailing i) := by
  cases i with
  | edge e =>
    rw [fst_edge, fst_edge, mode_withMode, if_pos rfl, hk, if_neg (by decide), trailing_withMode,
      Option.none_or]
  | tick =>
    have hsame : Mode.iambicB.isIambic = k.mode.isIambic := by rw [hk]; rfl
    exact (Prod.ext_iff.mp (tick_withMode hsame)).1.trans Option.or_none.symm

end

/-! ### What is pending in a squeeze -/

@[simp] theorem isDue_makeDue (k : Keyer) (s : Symbol) : (k.makeDue s).isDue s = true := by
  simp [isDue, makeDue, setElapsed]

theorem State.holding_ne_idle (p : Paddle) : State.holding p ≠ .idle := by
  cases p <;> decide

theorem State.holding_ne_bothHeld (p : Paddle) : State.holding p ≠ .bothHeld := by
  cases p <;> decide

/-- **The element that is pending**, where the last symbol keyed is known: there is none when no
paddle is held, and in a squeeze there is one, which is due at once or the opposite of the last. -/
structure Poised (k : Keyer) (last : Option Symbol) : Prop where
  idle : k.state = .idle → k.pending = none
  squeeze : k.state = .bothHeld →
    ∃ s, k.pending = some s ∧ (k.isDue s = true ∨ last = some s.opposite)

/-- If an element is pending, it is the opposite of the last symbol keyed. -/
def Answers (k : Keyer) (last : Option Symbol) : Prop :=
  ∀ s, k.pending = some s → last = some s.opposite

variable {k : Keyer} {i : Input} {r : Option Symbol × Keyer} {last : Option Symbol}

namespace Poised

theorem of_idle (hs : k.state = .idle) (hp : k.pending = none) : k.Poised last where
  idle _ := hp
  squeeze hc := by
    rw [hs] at hc
    cases hc

theorem of_holding {p : Paddle} (hs : k.state = .holding p) : k.Poised last where
  idle hc := absurd (hs ▸ hc) (State.holding_ne_idle p)
  squeeze hc := absurd (hs ▸ hc) (State.holding_ne_bothHeld p)

theorem of_squeeze {s : Symbol} (hs : k.state = .bothHeld) (hp : k.pending = some s)
    (h : k.isDue s = true ∨ last = some s.opposite) : k.Poised last where
  idle hc := by
    rw [hs] at hc
    cases hc
  squeeze _ := ⟨s, hp, h⟩

/-- **A millisecond with both paddles down leaves the opposite of the last symbol pending.** -/
theorem answers_tick (h : k.Poised last) (hmode : k.mode.isIambic = true)
    (hs : k.state = .bothHeld) (hr : k.Response .tick r) : r.2.Answers (r.1.or last) := by
  obtain ⟨s, hp, hor⟩ := h.squeeze hs
  intro t ht
  cases hr with
  | rest hs' | pause hs' | space hs' =>
    rw [hs] at hs'
    cases hs'
  | hold hs' | sound hs' => exact absurd (hs'.symm.trans hs) (State.holding_ne_bothHeld _)
  -- what is pending was not due, so it is the opposite of the last symbol already
  | squeeze _ hdue =>
    rw [hp, Option.getD_some] at hdue ht
    obtain rfl := Option.some.inj ht
    refine hor.resolve_left ?_
    rw [hdue]
    exact Bool.false_ne_true
  -- what was pending is the last symbol now, and its opposite is pending
  | alternate _ hdue hnext =>
    rw [hmode, if_pos rfl] at hnext
    obtain rfl := Option.some.inj ht
    rw [hnext, Symbol.opposite_opposite]
    rfl

/-- Every step in an iambic mode leaves a keyer poised. -/
theorem response (h : k.Poised last) (hmode : k.mode.isIambic = true) (hr : k.Response i r) :
    r.2.Poised (r.1.or last) := by
  cases hr with
  | rest | refuse => exact h
  | pause hs | space hs => exact .of_idle hs (h.idle hs)
  | hold hs | sound hs => exact .of_holding hs
  | pressFirst | releaseOne => exact .of_holding rfl
  | releaseLast => exact .of_idle rfl rfl
  | pressSecond => exact .of_squeeze rfl rfl (Or.inl (isDue_makeDue _ _))
  | squeeze hs hdue =>
    exact .of_squeeze hs rfl (Or.inr (h.answers_tick hmode hs (.squeeze hs hdue) _ rfl))
  | alternate hs hdue hnext =>
    exact .of_squeeze hs rfl (Or.inr (h.answers_tick hmode hs (.alternate hs hdue hnext) _ rfl))

/-- What is pending stays the opposite of the last symbol until a squeeze begins anew. -/
theorem answers_response (h : k.Poised last) (hmode : k.mode.isIambic = true)
    (ha : k.Answers last) (hr : k.Response i r)
    (hnew : r.2.state = .bothHeld → k.state = .bothHeld) : r.2.Answers (r.1.or last) := by
  cases hr with
  | rest | refuse | hold | pause | pressFirst | releaseOne => exact ha
  | squeeze hs hdue => exact h.answers_tick hmode hs (.squeeze hs hdue)
  | alternate hs hdue hnext => exact h.answers_tick hmode hs (.alternate hs hdue hnext)
  -- nothing is pending any more
  | sound | releaseLast => rintro s ⟨⟩
  | space hs =>
    have hnone : k.pending = none := h.idle hs
    intro s hp
    cases hnone.symm.trans hp
  | pressSecond hs => exact absurd (hs.symm.trans (hnew rfl)) (State.holding_ne_bothHeld _)

end Poised

/-! ### Runs -/

theorem getLast?_keyed_concat (k : Keyer) (inputs : List Input) (i : Input) :
    (k.keyed (inputs ++ [i])).getLast? =
      ((k.after inputs).step i).1.or (k.keyed inputs).getLast? := by
  rw [keyed_concat]
  rcases ((k.after inputs).step i).1 with _ | s
  · simp
  · simp

/-- **A squeeze that was heard**: a millisecond passed with both paddles down, and since then the
second paddle has not gone down again. -/
inductive Sounded (k : Keyer) : List Input → Prop
  /-- A millisecond passes with both paddles down. -/
  | tick {inputs : List Input} (hs : (k.after inputs).state = .bothHeld) :
      Sounded k (inputs ++ [.tick])
  /-- Anything happens but a press of the second paddle. -/
  | concat {inputs : List Input} {i : Input} (h : Sounded k inputs)
      (hi : (k.after (inputs ++ [i])).state = .bothHeld → (k.after inputs).state = .bothHeld) :
      Sounded k (inputs ++ [i])

/-- A run in an iambic mode leaves a keyer poised. -/
theorem Poised.after (h : k.Poised none) (hmode : k.mode.isIambic = true) (inputs : List Input) :
    (k.after inputs).Poised (k.keyed inputs).getLast? := by
  induction inputs using List.reverseRecOn with
  | nil => exact h
  | append_singleton inputs i ih =>
    rw [after_concat, getLast?_keyed_concat]
    refine ih.response ?_ (response_step _ i)
    rw [mode_after, hmode]

/-- **After a squeeze that was heard, what is pending is the opposite of the last symbol keyed.** -/
theorem Poised.answers_after (h : k.Poised none) (hmode : k.mode.isIambic = true)
    {inputs : List Input} (hheard : k.Sounded inputs) :
    (k.after inputs).Answers (k.keyed inputs).getLast? := by
  induction hheard with
  | @tick inputs hs =>
    rw [after_concat, getLast?_keyed_concat]
    refine (h.after hmode inputs).answers_tick ?_ hs (response_step _ .tick)
    rw [mode_after, hmode]
  | @concat inputs i _ hi ih =>
    rw [after_concat] at hi
    rw [after_concat, getLast?_keyed_concat]
    refine (h.after hmode inputs).answers_response ?_ ih (response_step _ i) hi
    rw [mode_after, hmode]

theorem pending_of_trailing {s : Symbol} (h : k.trailing i = some s) : k.pending = some s := by
  rcases i with (_ | p) | _
  · cases h
  · rw [trailing] at h
    split at h
    · exact h
    · cases h
  · cases h

/-- **What the mode decides.** Keyers are given the same inputs, in the same order, and nothing but
their modes tells them apart. In the modes that are not iambic they go through the same states and
key the same symbols. So they do in modes iambic A and iambic B, but for the trailing element of a
squeeze, which is keyed in iambic B alone, when the last paddle goes up. From a keyer that nobody
has touched it is the opposite of the last symbol keyed, if the squeeze was heard. An edge keys
nothing by itself except in mode iambic B. -/
theorem modes_differ_by_trailing (k : Keyer) (inputs : List Input) (i : Input) :
    (∀ m m' : Mode, m.isIambic = false → m'.isIambic = false →
      (k.withMode m).after inputs = ((k.withMode m').after inputs).withMode m ∧
        (((k.withMode m).after inputs).step i).1 = (((k.withMode m').after inputs).step i).1) ∧
    (let a := (k.withMode .iambicA).after inputs
     let b := (k.withMode .iambicB).after inputs
     b = a.withMode .iambicB ∧ (b.step i).1 = (a.step i).1.or (a.trailing i) ∧
       (a.trailing i ≠ none → (a.step i).1 = none)) ∧
    (∀ (speed : Speed) (left s : Symbol),
      let b := prepared speed .iambicB left
      b.Sounded inputs → (b.after inputs).trailing i = some s →
        (b.keyed inputs).getLast? = some s.opposite) ∧
    ∀ m : Mode, m ≠ .iambicB → ∀ e : Edge,
      (((k.withMode m).after inputs).step (.edge e)).1 = none := by
  refine ⟨?_, ?_, ?_, ?_⟩
  · intro m m' hm hm'
    have hsame : m.isIambic = (k.withMode m').mode.isIambic := hm.trans hm'.symm
    have hafter := after_withMode hsame inputs
    have hmode : ((k.withMode m').after inputs).mode = m' := mode_after _ inputs
    refine ⟨hafter, ?_⟩
    rw [show k.withMode m = (k.withMode m').withMode m from rfl, hafter]
    refine fst_step_withMode (by rw [hmode, hm, hm']) ?_ ?_ i
    · rintro rfl
      cases hm
    · rw [hmode]
      rintro rfl
      cases hm'
  · have hmode : ((k.withMode .iambicA).after inputs).mode = .iambicA := mode_after _ inputs
    have hafter := after_withMode (k := k.withMode .iambicA) (m := .iambicB) rfl inputs
    refine ⟨hafter, ?_, ?_⟩
    · rw [show k.withMode .iambicB = (k.withMode .iambicA).withMode .iambicB from rfl, hafter]
      exact fst_step_iambicB hmode i
    · cases i with
      | edge e =>
        intro _
        rw [fst_edge, hmode, if_neg (by decide)]
      | tick => exact fun hc => absurd rfl hc
  · intro speed left s b hheard htrailing
    obtain ⟨element, -, hb⟩ := prepared_eq speed .iambicB left
    have hpoised : b.Poised none := by
      rw [show b = _ from hb]
      exact .of_idle rfl rfl
    have hmode : b.mode.isIambic = true := by
      rw [show b = _ from hb]
      rfl
    exact hpoised.answers_after hmode hheard s (pending_of_trailing htrailing)
  · intro m hm e
    have hmode : ((k.withMode m).after inputs).mode = m := mode_after _ inputs
    rw [fst_edge, hmode, if_neg hm]

/-- The left paddle goes down, a dit is keyed, the right paddle joins it and a dah is keyed. Both go
up again: the dit that was pending then is keyed in mode iambic B, and not in mode iambic A. -/
theorem modes_differ_by_trailing_dit :
    let squeeze : List Input := [.edge (.press .left), .tick, .edge (.press .right), .tick,
      .edge (.release .left)]
    let a := prepared .standard .iambicA .dit
    let b := prepared .standard .iambicB .dit
    ((b.after squeeze).step (.edge (.release .right))).1 = some .dit ∧
      ((a.after squeeze).step (.edge (.release .right))).1 = none ∧
      (b.keyed squeeze).getLast? = some .dah := by
  intro squeeze a b
  have hboth : (b.after [.edge (.press .left), .tick, .edge (.press .right)]).state =
      .bothHeld := by decide
  have hsqueeze : b.Sounded squeeze := (Sounded.tick hboth).concat (by decide)
  obtain ⟨-, ⟨-, hkeyed, hnone⟩, htrailing, -⟩ :=
    modes_differ_by_trailing a squeeze (.edge (.release .right))
  exact ⟨hkeyed.trans (by decide), hnone (by decide), htrailing .standard .dit .dit hsqueeze rfl⟩

end MorseKeyboard.Keyer
