import MorseKeyboard.Proofs.Keyer.Modes
import MorseKeyboard.Proofs.Keyer.Tapping

/-!
# Which presses are heard

A press makes the element of its paddle due, and the next millisecond keys it, unless an edge comes
first. If the paddle goes up again before, or both paddles do, **the press is lost**.

A *stretch* (`MorseKeyboard.Keyer.Stretch`) is a run of inputs from rest to rest. As long as nothing
is heard, a keyer can be in three situations only (`MorseKeyboard.Keyer.Unheard`): a paddle has just
gone down, or a second one has, or one of two has gone up again not more than two units ago. So a
stretch keys an element if it is *audible* (`MorseKeyboard.Keyer.Audible`), **and in no other case**
(`MorseKeyboard.Keyer.Stretch.keyed_iff`).
-/

namespace MorseKeyboard.Keyer

/-! ### What a keyer heeds -/

/-- Whether an input is heeded. An impossible edge is not. -/
def heeds (k : Keyer) : Input → Bool
  | .edge e => (k.edge? e).isSome
  | .tick => true

/-- The inputs that are heeded, in their order. -/
def heeded (k : Keyer) : List Input → List Input
  | [] => []
  | i :: inputs => (if k.heeds i then [i] else []) ++ (k.step i).2.heeded inputs

theorem heeded_concat (k : Keyer) (inputs : List Input) (i : Input) :
    k.heeded (inputs ++ [i]) =
      k.heeded inputs ++ if (k.after inputs).heeds i then [i] else [] := by
  induction inputs generalizing k with
  | nil => exact List.append_nil _
  | cons j inputs ih => rw [List.cons_append, heeded, ih, heeded, List.append_assoc, after_cons]

section

variable {k : Keyer} {e : Edge}

theorem step_of_edge? {r : Option Symbol × Keyer} (h : k.edge? e = some r) :
    k.step (.edge e) = r ∧ k.heeds (.edge e) = true := by
  rw [step, heeds, h]
  exact ⟨rfl, rfl⟩

theorem step_of_edge?_eq_none (h : k.edge? e = none) :
    k.step (.edge e) = (none, k) ∧ k.heeds (.edge e) = false := by
  rw [step, heeds, h]
  exact ⟨rfl, rfl⟩

/-- The edges that are possible while one paddle is held. -/
theorem edge?_of_holding {p : Paddle} (hs : k.state = .holding p) {r : Option Symbol × Keyer}
    (h : k.edge? e = some r) :
    e = .press p.other ∧ r = (none, k.pressSecond p.other) ∨
      e = .release p ∧ r = k.releaseLast := by
  rcases p with _ | _ <;> rcases e with (_ | _) | (_ | _) <;>
    simp_all [edge?, State.holding, Paddle.other]

/-- The edges that are possible while both paddles are held. -/
theorem edge?_of_bothHeld (hs : k.state = .bothHeld) {r : Option Symbol × Keyer}
    (h : k.edge? e = some r) : ∃ p, e = .release p ∧ r = (none, k.releaseOne p) := by
  rcases e with (_ | _) | (_ | _) <;> simp_all [edge?]

/-- The edges that are possible while no paddle is held. -/
theorem edge?_of_idle (hs : k.state = .idle) {r : Option Symbol × Keyer}
    (h : k.edge? e = some r) : ∃ p, e = .press p ∧ r = (none, k.pressFirst p) := by
  rcases e with (_ | _) | (_ | _) <;> simp_all [edge?]

end

/-! ### Stretches -/

/-- **A keyer that is engaged**: it has left rest with the first of some inputs, and has not come
back to it since. -/
inductive Engaged (k : Keyer) : List Input → Prop
  | leave {i : Input} (hs : k.state = .idle) (hne : (k.step i).2.state ≠ .idle) : Engaged k [i]
  | stay {part : List Input} {i : Input} (h : Engaged k part)
      (hne : (k.after (part ++ [i])).state ≠ .idle) : Engaged k (part ++ [i])

/-- **A stretch** from rest to rest: with its last input the keyer comes back. -/
structure Stretch (k : Keyer) (part : List Input) (last : Input) : Prop where
  engaged : k.Engaged part
  rests : (k.after (part ++ [last])).state = .idle

theorem Engaged.idle {k : Keyer} {part : List Input} (h : k.Engaged part) : k.state = .idle := by
  induction h with
  | leave hs => exact hs
  | stay _ _ ih => exact ih

theorem Engaged.state_ne {k : Keyer} {part : List Input} (h : k.Engaged part) :
    (k.after part).state ≠ .idle := by
  cases h with
  | leave _ hne => exact hne
  | stay _ hne => exact hne

/-! ### Long enough to be heard -/

/-- A millisecond passes right after a press, or more than two units pass without an edge. -/
def Lasts (dit : Nat) (inputs : List Input) : Prop :=
  (∃ p, [.edge (.press p), .tick] <:+: inputs) ∨ List.replicate (2 * dit + 1) .tick <:+: inputs

/-- Two presses follow each other without anything in between. -/
def Squeezes (inputs : List Input) : Prop := ∃ p q, [.edge (.press p), .edge (.press q)] <:+: inputs

/-- **What has to be given to a keyer to be heard**: it lasts for long enough, or it is a squeeze in
mode iambic B. -/
def Audible (mode : Mode) (dit : Nat) (inputs : List Input) : Prop :=
  Lasts dit inputs ∨ mode = .iambicB ∧ Squeezes inputs

section

variable {dit : Nat} {inputs : List Input}

theorem Lasts.append (h : Lasts dit inputs) (more : List Input) : Lasts dit (inputs ++ more) := by
  rcases h with ⟨p, hp⟩ | hticks
  · exact Or.inl ⟨p, List.infix_append_of_infix_left hp⟩
  · exact Or.inr (List.infix_append_of_infix_left hticks)

theorem Squeezes.append (h : Squeezes inputs) (more : List Input) : Squeezes (inputs ++ more) := by
  obtain ⟨p, q, hpq⟩ := h
  exact ⟨p, q, List.infix_append_of_infix_left hpq⟩

theorem not_lasts_nil (dit : Nat) : ¬Lasts dit [] := by
  rintro (⟨p, hp⟩ | hticks)
  · cases List.infix_nil.mp hp
  · cases List.infix_nil.mp hticks

/-- A run that ends with a millisecond does not end with an edge. -/
theorem infix_concat_edge_iff (run : List Input) {e : Edge} :
    run ++ [.tick] <:+: inputs ++ [.edge e] ↔ run ++ [.tick] <:+: inputs := by
  rw [List.infix_concat_iff, or_iff_right]
  intro hsuffix
  rcases List.suffix_concat_iff.mp hsuffix with hnil | ⟨t, ht, -⟩
  · exact List.cons_ne_nil _ _ (List.append_eq_nil_iff.mp hnil).2
  · cases (List.append_inj' ht rfl).2

/-- An edge makes nothing last. -/
theorem lasts_concat_edge_iff {e : Edge} : Lasts dit (inputs ++ [.edge e]) ↔ Lasts dit inputs := by
  have hpress (p : Paddle) : [.edge (.press p), .tick] <:+: inputs ++ [.edge e] ↔
      [.edge (.press p), .tick] <:+: inputs :=
    infix_concat_edge_iff [.edge (.press p)]
  rw [Lasts, Lasts, List.replicate_succ', infix_concat_edge_iff]
  simp only [hpress]

/-- A run at the end of some inputs is one at the end of the last edge with what came after it, or
it has that edge in it. -/
theorem suffix_edge {run : List Input} {e : Edge} {n : Nat}
    (h : run <:+ inputs ++ .edge e :: List.replicate n .tick) :
    run <:+ .edge e :: List.replicate n .tick ∨ .edge e ∈ run := by
  rcases List.suffix_or_suffix_of_suffix h (List.suffix_append inputs _) with hshort | hlong
  · exact Or.inl hshort
  · exact Or.inr (hlong.subset List.mem_cons_self)

/-- The milliseconds at the end of some inputs have passed since the last edge. -/
theorem le_of_replicate_suffix {e : Edge} {m n : Nat}
    (h : List.replicate m .tick <:+ inputs ++ .edge e :: List.replicate n .tick) : m ≤ n := by
  rcases suffix_edge h with hshort | hmem
  · rcases List.suffix_cons_iff.mp hshort with heq | hticks
    · rcases m with _ | m
      · exact Nat.zero_le n
      · cases (List.cons.inj heq).1
    · simpa using hticks.length_le
  · cases List.eq_of_mem_replicate hmem

/-- The last edge was not a press if it was a release. -/
theorem not_press_suffix_release {p q : Paddle} {n : Nat} :
    ¬[.edge (.press q)] <:+ inputs ++ .edge (.release p) :: List.replicate n .tick := by
  intro h
  rcases suffix_edge h with hshort | hmem
  · rcases List.mem_cons.mp (hshort.subset List.mem_cons_self) with heq | hticks
    · cases heq
    · cases List.eq_of_mem_replicate hticks
  · cases List.mem_singleton.mp hmem

/-- Two units after a release do not last. -/
theorem not_lasts_release (h : ¬Lasts dit inputs) (p : Paddle) {n : Nat} (hn : n ≤ 2 * dit) :
    ¬Lasts dit (inputs ++ .edge (.release p) :: List.replicate n .tick) := by
  induction n with
  | zero =>
    rw [List.replicate_zero, lasts_concat_edge_iff]
    exact h
  | succ n ih =>
    have hprevious := ih (Nat.le_of_succ_le hn)
    have hsplit : inputs ++ .edge (.release p) :: List.replicate (n + 1) .tick =
        inputs ++ .edge (.release p) :: List.replicate n .tick ++ [.tick] := by
      rw [List.replicate_succ', List.append_assoc, List.cons_append]
    rintro (⟨q, hq⟩ | hticks)
    · rw [hsplit] at hq
      rcases List.infix_concat_iff.mp hq with hsuffix | hinfix
      · have hpress : [.edge (.press q)] ++ [.tick] <:+
            inputs ++ .edge (.release p) :: List.replicate n .tick ++ [.tick] := hsuffix
        exact not_press_suffix_release ((List.suffix_append_inj_of_length_eq rfl).mp hpress).1
      · exact hprevious (Or.inl ⟨q, hinfix⟩)
    · rw [hsplit] at hticks
      rcases List.infix_concat_iff.mp hticks with hsuffix | hinfix
      · rw [← hsplit] at hsuffix
        have := le_of_replicate_suffix hsuffix
        omega
      · exact hprevious (Or.inr hinfix)

/-- A press and a release that follow each other are no squeeze. -/
theorem not_squeezes_tap (p q : Paddle) :
    ¬Squeezes [.edge (.press p), .edge (.release q)] := by
  rintro ⟨a, b, h⟩
  cases h.eq_of_length rfl

end

/-! ### Elements -/

/-- **A keyer that has its elements in order**: its paddles key elements, what is pending is one,
and nothing is pending at rest. -/
structure Sound (k : Keyer) : Prop where
  left : k.left.isElement = true
  pending : ∀ s, k.pending = some s → s.isElement = true
  idle : k.state = .idle → k.pending = none

variable {k : Keyer}

/-- A keyer that nobody has touched is at rest and owes nothing. -/
theorem rest_prepared (speed : Speed) (mode : Mode) (left : Symbol) :
    let k := prepared speed mode left
    k.state = .idle ∧ k.spaceOwed = false ∧ k.mode = mode ∧ k.speed = speed := by
  obtain ⟨s, -, hk⟩ := prepared_eq speed mode left
  rw [hk]
  exact ⟨rfl, rfl, rfl, rfl⟩

namespace Sound

theorem prepared (speed : Speed) (mode : Mode) (left : Symbol) :
    (prepared speed mode left).Sound := by
  obtain ⟨s, hs, hk⟩ := prepared_eq speed mode left
  rw [hk]
  refine ⟨hs, ?_, fun _ => rfl⟩
  rintro _ ⟨⟩

theorem isElement_symbolOf (h : k.Sound) (p : Paddle) : (k.symbolOf p).isElement = true :=
  isElement_symbolOf_of_left h.left p

/-- The element of a squeeze that comes next. -/
theorem isElement_next (h : k.Sound) : (k.pending.getD k.left).isElement = true := by
  rcases hp : k.pending with _ | s
  · exact h.left
  · exact h.pending s hp

theorem step (h : k.Sound) (i : Input) : (k.step i).2.Sound := by
  have hr := k.response_step i
  generalize k.step i = r at hr ⊢
  cases hr with
  | rest | refuse => exact h
  | pause hs | space hs => exact ⟨h.left, h.pending, fun _ => h.idle hs⟩
  | hold hs =>
    exact ⟨h.left, h.pending, fun hidle => absurd (hs.symm.trans hidle) (State.holding_ne_idle _)⟩
  | sound => exact ⟨h.left, by rintro _ ⟨⟩, fun _ => rfl⟩
  | squeeze hs =>
    refine ⟨h.left, ?_, fun hidle => absurd (hs.symm.trans hidle) (by decide)⟩
    rintro _ ⟨⟩
    exact h.isElement_next
  | alternate hs _ hnext =>
    refine ⟨h.left, ?_, fun hidle => absurd (hs.symm.trans hidle) (by decide)⟩
    rintro _ ⟨⟩
    rw [hnext]
    split
    · exact (Symbol.isElement_opposite _).trans h.isElement_next
    · exact h.isElement_next
  | pressFirst | releaseOne =>
    exact ⟨h.left, h.pending, fun hidle => absurd hidle (State.holding_ne_idle _)⟩
  | pressSecond =>
    refine ⟨h.left, ?_, by rintro ⟨⟩⟩
    rintro _ ⟨⟩
    exact h.isElement_symbolOf _
  | releaseLast => exact ⟨h.left, by rintro _ ⟨⟩, fun _ => rfl⟩

theorem after (h : k.Sound) (inputs : List Input) : (k.after inputs).Sound :=
  after_induction (fun _ i hk => hk.step i) h inputs

/-- **Away from rest only elements are keyed.** -/
theorem isElement_keyed (h : k.Sound) (hs : k.state ≠ .idle) {i : Input} {s : Symbol}
    (hkeyed : (k.step i).1 = some s) : s.isElement = true := by
  have hr := k.response_step i
  generalize k.step i = r at hr hkeyed
  cases hr with
  | rest hidle | pause hidle | space hidle | pressFirst hidle => exact absurd hidle hs
  | hold | squeeze | pressSecond | releaseOne | refuse => cases hkeyed
  | sound =>
    cases hkeyed
    exact h.isElement_symbolOf _
  | alternate =>
    cases hkeyed
    exact h.isElement_next
  | releaseLast =>
    rw [releaseLast] at hkeyed
    split at hkeyed
    · exact h.pending s hkeyed
    · cases hkeyed

end Sound

/-! ### Until something is heard -/

/-- **What is known of a keyer that has not been heard yet**, given what it has heeded since it left
rest. -/
inductive Unheard (k : Keyer) : List Input → Prop
  /-- A paddle has gone down. Its element is due. -/
  | first {p : Paddle} (hs : k.state = .holding p) (hp : k.pending = none)
      (hdue : k.isDue (k.symbolOf p) = true) : Unheard k [.edge (.press p)]
  /-- Both paddles are down, one of them just now. Its element is due. -/
  | second {inputs : List Input} {p : Paddle} {s : Symbol} (hs : k.state = .bothHeld)
      (hp : k.pending = some s) (hdue : k.isDue s = true) (hlasts : ¬Lasts k.speed.dit inputs)
      (hsqueeze : Squeezes (inputs ++ [.edge (.press p)])) :
      Unheard k (inputs ++ [.edge (.press p)])
  /-- One of two paddles has gone up again. Two units after that the element of the other one is
  due. -/
  | spared {inputs : List Input} {p q : Paddle} {s : Symbol} {n : Nat} (hs : k.state = .holding p)
      (hp : k.pending = some s)
      (hcount : k.elapsed.get (k.symbolOf p) + 2 * k.speed.dit = k.speed.period (k.symbolOf p) + n)
      (hn : n ≤ 2 * k.speed.dit) (hlasts : ¬Lasts k.speed.dit inputs) (hsqueeze : Squeezes inputs) :
      Unheard k (inputs ++ .edge (.release q) :: List.replicate n .tick)

/-- The element of a squeeze is keyed when the last paddle goes up, in mode iambic B. -/
theorem releaseLast_keyed_iff (k : Keyer) :
    k.releaseLast.1 ≠ none ↔ k.mode = .iambicB ∧ k.pending ≠ none := by
  rw [releaseLast]
  split
  · next hmode => exact (and_iff_right hmode).symm
  · next hmode => exact iff_of_false (fun h => h rfl) fun h => hmode h.1

namespace Unheard

variable {inputs : List Input}

theorem state_ne (h : k.Unheard inputs) : k.state ≠ .idle := by
  cases h with
  | first hs | spared hs =>
    rw [hs]
    exact State.holding_ne_idle _
  | second hs =>
    rw [hs]
    decide

/-- **A millisecond without a sound leaves a keyer unheard.** -/
theorem tick (h : k.Unheard inputs) :
    ((k.step .tick).1 = none ∧ (k.step .tick).2.Unheard (inputs ++ [.tick])) ∨
      ((k.step .tick).1 ≠ none ∧ Lasts k.speed.dit (inputs ++ [.tick])) := by
  cases h with
  | first hs _ hdue =>
    rw [step_tick_of_holding hs, heldTick, if_pos hdue]
    exact Or.inr ⟨Option.some_ne_none _, Or.inl ⟨_, List.infix_rfl⟩⟩
  | @second inputs p s hs hp hdue =>
    rw [step_tick_of_bothHeld hs, squeezeTick, hp, Option.getD_some, if_pos hdue]
    refine Or.inr ⟨Option.some_ne_none _, Or.inl ⟨p, ?_⟩⟩
    rw [List.append_assoc]
    exact (List.suffix_append _ _).isInfix
  | @spared inputs p q s n hs hp hcount hn hlasts hsqueeze =>
    have hlonger : inputs ++ .edge (.release q) :: List.replicate n .tick ++ [.tick] =
        inputs ++ .edge (.release q) :: List.replicate (n + 1) .tick := by
      rw [List.replicate_succ', List.append_assoc, List.cons_append]
    have hperiod := k.speed.period_le (k.symbolOf p)
    rw [step_tick_of_holding hs, heldTick, hlonger]
    split
    -- it is due, so two units have passed since the release
    · next hdue =>
      rw [isDue, decide_eq_true_eq] at hdue
      obtain rfl : n = 2 * k.speed.dit := by omega
      refine Or.inr ⟨Option.some_ne_none _, Or.inr ?_⟩
      rw [← List.singleton_append, ← List.append_assoc]
      exact (List.suffix_append _ _).isInfix
    · next hdue =>
      rw [isDue, decide_eq_true_eq] at hdue
      have hcounted : (k.age (k.symbolOf p)).elapsed.get (k.symbolOf p) + 2 * k.speed.dit =
          k.speed.period (k.symbolOf p) + (n + 1) := by
        rw [age, get_elapsed_setElapsed, countUp, counterMax]
        omega
      have hn : n + 1 ≤ 2 * k.speed.dit := by omega
      exact Or.inl ⟨rfl, .spared hs hp hcounted hn hlasts hsqueeze⟩

/-- **An edge leaves a keyer unheard, or it ends the stretch**, and then mode iambic B may still
make itself heard. -/
theorem edge (h : k.Unheard inputs) {e : Edge} {r : Option Symbol × Keyer}
    (he : k.edge? e = some r) :
    (r.1 = none ∧ r.2.Unheard (inputs ++ [.edge e])) ∨
      (r.2.state = .idle ∧
        (r.1 ≠ none ↔ Audible k.mode k.speed.dit (inputs ++ [.edge e]))) := by
  cases h with
  | @first p hs hp hdue =>
    have hlasts : ¬Lasts k.speed.dit ([] ++ [.edge (.press p)]) :=
      mt lasts_concat_edge_iff.mp (not_lasts_nil _)
    rcases edge?_of_holding hs he with ⟨rfl, rfl⟩ | ⟨rfl, rfl⟩
    · exact Or.inl ⟨rfl, .second rfl rfl (isDue_makeDue _ _) hlasts ⟨_, _, List.infix_rfl⟩⟩
    -- the paddle goes up before its element was keyed
    · refine Or.inr ⟨rfl, (k.releaseLast_keyed_iff).trans (iff_of_false ?_ ?_)⟩
      · exact fun h => h.2 hp
      · rintro (hlasts' | ⟨-, hsqueeze⟩)
        · exact hlasts (lasts_concat_edge_iff.mp hlasts')
        · exact not_squeezes_tap _ _ hsqueeze
  | @second inputs p s hs hp hdue hlasts hsqueeze =>
    obtain ⟨q, rfl, rfl⟩ := edge?_of_bothHeld hs he
    have hcount : (k.releaseOne q).elapsed.get (k.symbolOf q.other) + 2 * k.speed.dit =
        k.speed.period (k.symbolOf q.other) + 0 := by
      have hdit := k.speed.period_dit_le (k.symbolOf q.other)
      have hperiod : k.speed.period .dit = 2 * k.speed.dit := rfl
      rw [releaseOne, get_elapsed_setElapsed]
      omega
    have hspared : (k.releaseOne q).Unheard
        (inputs ++ [.edge (.press p)] ++ .edge (.release q) :: List.replicate 0 .tick) :=
      .spared rfl hp hcount (Nat.zero_le _) (mt lasts_concat_edge_iff.mp hlasts) hsqueeze
    exact Or.inl ⟨rfl, hspared⟩
  | @spared inputs p q s n hs hp hcount hn hlasts hsqueeze =>
    have hlasts' := not_lasts_release hlasts q hn
    rcases edge?_of_holding hs he with ⟨rfl, rfl⟩ | ⟨rfl, rfl⟩
    · exact Or.inl ⟨rfl, .second rfl rfl (isDue_makeDue _ _) hlasts'
        ((hsqueeze.append _).append _)⟩
    -- both paddles are up, and the element of the squeeze is pending
    · refine Or.inr ⟨rfl, (k.releaseLast_keyed_iff).trans ?_⟩
      rw [Audible, lasts_concat_edge_iff, or_iff_right hlasts']
      refine and_congr_right fun _ => iff_of_true ?_ ((hsqueeze.append _).append _)
      rw [hp]
      exact Option.some_ne_none s

/-- **An input leaves a keyer unheard, or it is heard now, or it ends the stretch.** -/
theorem step (h : k.Unheard inputs) (i : Input) :
    let heeded := inputs ++ if k.heeds i then [i] else []
    ((k.step i).1 = none ∧ (k.step i).2.Unheard heeded) ∨
      ((k.step i).1 ≠ none ∧ Lasts k.speed.dit heeded ∧ (k.step i).2.state ≠ .idle) ∨
      ((k.step i).2.state = .idle ∧
        ((k.step i).1 ≠ none ↔ Audible k.mode k.speed.dit heeded)) := by
  cases i with
  | tick =>
    rcases h.tick with hnone | ⟨hsome, hlasts⟩
    · exact Or.inl hnone
    · refine Or.inr (Or.inl ⟨hsome, hlasts, ?_⟩)
      rw [state_tick]
      exact h.state_ne
  | edge e =>
    rcases he : k.edge? e with _ | r
    · obtain ⟨hstep, hheeds⟩ := step_of_edge?_eq_none he
      have hsame : inputs ++ [] = inputs := List.append_nil inputs
      rw [hstep, hheeds, if_neg Bool.false_ne_true, hsame]
      exact Or.inl ⟨rfl, h⟩
    · obtain ⟨hstep, hheeds⟩ := step_of_edge? he
      rw [hstep, hheeds, if_pos rfl]
      exact (h.edge he).imp_right Or.inr

end Unheard

/-! ### What is heard of a stretch -/

variable {part : List Input} {last : Input}

/-- Rest is left with a press only. -/
theorem press_of_leave (hs : k.state = .idle) {i : Input} (hne : (k.step i).2.state ≠ .idle) :
    ∃ p, i = .edge (.press p) ∧ k.step i = (none, k.pressFirst p) ∧ k.heeds i = true := by
  cases i with
  | tick => exact absurd ((state_tick k).trans hs) hne
  | edge e =>
    rcases he : k.edge? e with _ | r
    · rw [(step_of_edge?_eq_none he).1] at hne
      exact absurd hs hne
    · obtain ⟨hstep, hheeds⟩ := step_of_edge? he
      obtain ⟨p, rfl, rfl⟩ := edge?_of_idle hs he
      exact ⟨p, rfl, hstep, hheeds⟩

/-- **An engaged keyer is unheard, or it has lasted.** -/
theorem Engaged.heard (h : k.Engaged part) (hsound : k.Sound) :
    (k.keyed part = [] ∧ (k.after part).Unheard (k.heeded part)) ∨
      (k.keyed part ≠ [] ∧ Lasts k.speed.dit (k.heeded part)) := by
  induction h with
  | @leave i hs hne =>
    obtain ⟨p, rfl, hstep, hheeds⟩ := press_of_leave hs hne
    have hunheard : (k.pressFirst p).Unheard [.edge (.press p)] :=
      .first rfl (hsound.idle hs) (isDue_makeDue _ _)
    rw [keyed_cons, after_cons, heeded, hheeds, hstep]
    exact Or.inl ⟨rfl, hunheard⟩
  | @stay part i _ hne ih =>
    rw [keyed_concat, heeded_concat, after_concat]
    rw [after_concat] at hne
    rcases ih with ⟨hnone, hunheard⟩ | ⟨hsome, hlasts⟩
    · rw [hnone, List.nil_append]
      rcases hunheard.step i with ⟨hnone, hunheard⟩ | ⟨hsome, hlasts, -⟩ | ⟨hidle, -⟩
      · exact Or.inl ⟨by rw [hnone]; rfl, hunheard⟩
      · rw [speed_after] at hlasts
        exact Or.inr ⟨by simpa using hsome, hlasts⟩
      · exact absurd hidle hne
    · exact Or.inr ⟨fun hnil => hsome (List.append_eq_nil_iff.mp hnil).1, hlasts.append _⟩

/-- While a keyer is engaged, it keys elements only. -/
theorem Engaged.isElement_of_mem_keyed (h : k.Engaged part) (hsound : k.Sound) :
    ∀ s ∈ k.keyed part, s.isElement = true := by
  induction h with
  | leave hs hne =>
    obtain ⟨p, rfl, hstep, -⟩ := press_of_leave hs hne
    rw [keyed_cons, hstep]
    rintro s ⟨⟩
  | @stay part i h _ ih =>
    intro s hs
    rw [keyed_concat] at hs
    rcases List.mem_append.mp hs with hs | hs
    · exact ih s hs
    · exact (hsound.after part).isElement_keyed h.state_ne (Option.mem_toList.mp hs)

/-- A stretch keys elements only. -/
theorem Stretch.keyed_ne_nil_iff (h : k.Stretch part last) (hsound : k.Sound) :
    k.keyed (part ++ [last]) ≠ [] ↔ ∃ s ∈ k.keyed (part ++ [last]), s.isElement = true := by
  constructor
  · intro hne
    obtain ⟨s, hs⟩ := List.exists_mem_of_ne_nil _ hne
    refine ⟨s, hs, ?_⟩
    rw [keyed_concat] at hs
    rcases List.mem_append.mp hs with hs | hs
    · exact h.engaged.isElement_of_mem_keyed hsound s hs
    · exact (hsound.after part).isElement_keyed h.engaged.state_ne (Option.mem_toList.mp hs)
  · rintro ⟨s, hs, -⟩
    exact List.ne_nil_of_mem hs

/-- **Exactly what is audible is heard**: a stretch keys something if it lasts, or is a squeeze in
mode iambic B. -/
theorem Stretch.keyed_iff (h : k.Stretch part last) (hsound : k.Sound) :
    k.keyed (part ++ [last]) ≠ [] ↔
      Audible k.mode k.speed.dit (k.heeded (part ++ [last])) := by
  have hrests := h.rests
  rw [after_concat] at hrests
  rw [keyed_concat, heeded_concat]
  rcases h.engaged.heard hsound with ⟨hnone, hunheard⟩ | ⟨hsome, hlasts⟩
  · rw [hnone, List.nil_append]
    rcases hunheard.step last with ⟨-, hunheard⟩ | ⟨-, -, hne⟩ | ⟨-, hkeyed⟩
    · exact absurd hrests hunheard.state_ne
    · exact absurd hrests hne
    · rw [speed_after, mode_after] at hkeyed
      rw [← hkeyed]
      simp
  · exact iff_of_true (fun hnil => hsome (List.append_eq_nil_iff.mp hnil).1)
      (Or.inl (hlasts.append _))

end MorseKeyboard.Keyer
