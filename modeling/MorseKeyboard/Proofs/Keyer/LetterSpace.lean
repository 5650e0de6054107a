import MorseKeyboard.Proofs.Keyer.Presses
import MorseKeyboard.Proofs.Keyer.Rhythm

/-!
# The space after a letter

When the last paddle goes up, the space that ends the letter is owed, and a count of milliseconds
begins. It is the *pause* that pays for it: what a keyer does as long as no paddle goes down depends
on the length of the pause alone, because an edge that may come in between is impossible and passes
unnoticed (`MorseKeyboard.Keyer.run_pause`). **A pause of more than two units keys one space, and a
shorter one keys nothing** (`MorseKeyboard.Keyer.run_pausing`).

The other half is where spaces come from. A space is owed at rest only, and only since the keyer
came to rest, so whenever one is keyed there is a pause behind it
(`MorseKeyboard.Keyer.PausedFor`), and it has lasted exactly two units: had it lasted longer, the
space would have been keyed before.
-/

namespace MorseKeyboard.Keyer

variable {k : Keyer} {inputs pause : List Input} {i : Input} {n : Nat}

/-! ### Pauses -/

/-- Some inputs among which no paddle goes down. -/
def IsPause (inputs : List Input) : Prop := ∀ p, .edge (.press p) ∉ inputs

/-- With this input the last paddle goes up. -/
def ComesToRest (k : Keyer) (i : Input) : Prop := k.state ≠ .idle ∧ (k.step i).2.state = .idle

/-- **A keyer has paused for so many milliseconds**: it came to rest, and since then they have
passed and no paddle has gone down. -/
def PausedFor (k : Keyer) (inputs : List Input) (n : Nat) : Prop :=
  ∃ before last pause, inputs = before ++ last :: pause ∧ (k.after before).ComesToRest last ∧
    IsPause pause ∧ millis pause = n

theorem isPause_nil : IsPause [] := fun _ => List.not_mem_nil

theorem isPause_cons : IsPause (i :: inputs) ↔ (∀ p, i ≠ .edge (.press p)) ∧ IsPause inputs := by
  simp only [IsPause, List.mem_cons, not_or, forall_and, ne_comm, ne_eq]

theorem IsPause.concat (h : IsPause inputs) (hi : ∀ p, i ≠ .edge (.press p)) :
    IsPause (inputs ++ [i]) := by
  intro p hp
  rcases List.mem_append.mp hp with hp | hp
  · exact h p hp
  · exact hi p (List.mem_singleton.mp hp).symm

namespace PausedFor

/-- A pause begins when the keyer comes to rest. -/
theorem rest (h : (k.after inputs).ComesToRest i) : k.PausedFor (inputs ++ [i]) 0 :=
  ⟨inputs, i, [], rfl, h, isPause_nil, rfl⟩

/-- It goes on as long as no paddle goes down. -/
theorem concat (h : k.PausedFor inputs n) (hi : ∀ p, i ≠ .edge (.press p)) :
    k.PausedFor (inputs ++ [i]) (n + i.millis) := by
  obtain ⟨before, last, pause, rfl, hlast, hpause, rfl⟩ := h
  refine ⟨before, last, pause ++ [i], ?_, hlast, hpause.concat hi, ?_⟩
  · rw [List.append_assoc, List.cons_append]
  · rw [millis_append]
    rfl

end PausedFor

/-! ### What is keyed in a pause -/

/-- **At rest an edge that is no press passes unnoticed.** -/
theorem step_edge_of_idle (hs : k.state = .idle) {e : Edge} (he : ∀ p, e ≠ .press p) :
    k.step (.edge e) = (none, k) := by
  cases e with
  | press p => exact absurd rfl (he p)
  | release p => simp only [step, edge?, hs, Option.getD_none]

/-- **A pause is told by its length**: it does to a keyer at rest what so many milliseconds do. -/
theorem run_pause (hs : k.state = .idle) (hpause : IsPause pause) :
    k.after pause = k.after (List.replicate (millis pause) .tick) ∧
      k.keyed pause = k.keyed (List.replicate (millis pause) .tick) := by
  induction pause generalizing k with
  | nil => exact ⟨rfl, rfl⟩
  | cons i pause ih =>
    obtain ⟨hi, htail⟩ := isPause_cons.mp hpause
    cases i with
    | edge e =>
      have hstep := step_edge_of_idle hs fun p hp => hi p (congrArg Input.edge hp)
      rw [after_cons, keyed_cons, millis, hstep, Input.millis, Nat.zero_add]
      exact ih hs htail
    | tick =>
      obtain ⟨hafter, hkeyed⟩ := ih ((state_tick k).trans hs) htail
      rw [after_cons, keyed_cons, millis, Input.millis, Nat.add_comm, List.replicate_succ,
        after_cons, keyed_cons, hafter, hkeyed]
      exact ⟨rfl, rfl⟩

/-- When the last paddle goes up, the pause begins. -/
theorem ComesToRest.snd_step (h : k.ComesToRest i) : (k.step i).2 = k.pausing 0 := by
  obtain ⟨hne, hrest⟩ := h
  have hr := k.response_step i
  generalize k.step i = r at hr hrest ⊢
  cases hr with
  | releaseLast => rfl
  | rest hs | pause hs | space hs | pressFirst hs => exact absurd hs hne
  | hold | sound | refuse => exact absurd hrest hne
  | squeeze hs | alternate hs => exact absurd (hs.symm.trans hrest) (by decide)
  | pressSecond => cases hrest
  | releaseOne => exact absurd hrest (State.holding_ne_idle _)

/-- **What a pause keys**: nothing up to two units, and one space if it is longer, however long. -/
theorem run_pausing (k : Keyer) (hpause : IsPause pause) :
    (k.pausing 0).after pause =
        (if 2 * k.speed.dit + 1 ≤ millis pause then k.ended else k.pausing (millis pause)) ∧
      (k.pausing 0).keyed pause =
        if 2 * k.speed.dit + 1 ≤ millis pause then [.space] else [] := by
  obtain ⟨hafter, hkeyed⟩ := run_pause (k := k.pausing 0) rfl hpause
  rw [hafter, hkeyed]
  split
  · next hlong => exact after_end hlong
  · next hshort => exact after_pause (Nat.le_of_not_lt hshort)

/-- If nothing is owed, a pause keys nothing. -/
theorem keyed_pause_of_settled (hs : k.state = .idle) (howed : k.spaceOwed = false)
    (hpause : IsPause pause) : k.keyed pause = [] := by
  have hstep : k.step .tick = (none, k) := by
    rw [step, tick, hs]
    dsimp only
    rw [idleTick, howed]
    rfl
  rw [(run_pause hs hpause).2]
  induction millis pause with
  | zero => rfl
  | succ n ih => rw [List.replicate_succ, keyed_cons, hstep, ih, Option.toList_none, List.nil_append]

/-- The keyer in a pause. -/
theorem PausedFor.exists_after_eq (h : k.PausedFor inputs n) :
    ∃ k' : Keyer, k'.speed = k.speed ∧
      k.after inputs = if 2 * k.speed.dit + 1 ≤ n then k'.ended else k'.pausing n := by
  obtain ⟨before, last, pause, rfl, hlast, hpause, rfl⟩ := h
  have hspeed : (k.after before).speed = k.speed := speed_after k before
  refine ⟨k.after before, hspeed, ?_⟩
  rw [after_append, after_cons, hlast.snd_step, (run_pausing _ hpause).1, hspeed]

theorem PausedFor.state_eq (h : k.PausedFor inputs n) : (k.after inputs).state = .idle := by
  obtain ⟨k', -, hafter⟩ := h.exists_after_eq
  rw [hafter]
  split <;> rfl

/-! ### Where a space comes from -/

/-- A space is keyed at rest, by a millisecond, when it is owed and due. -/
theorem owed_of_step_eq_space (hsound : k.Sound) (h : (k.step i).1 = some .space) :
    i = .tick ∧ k.state = .idle ∧ k.spaceOwed = true ∧ k.isDue .space = true := by
  by_cases hs : k.state = .idle
  · have hr := k.response_step i
    generalize k.step i = r at hr h
    cases hr with
    | space _ howed hdue => exact ⟨rfl, hs, howed, hdue⟩
    | rest | pause | hold | squeeze | pressFirst | pressSecond | releaseOne | refuse => cases h
    | sound hs' | releaseLast hs' =>
      exact absurd (hs'.symm.trans hs) (State.holding_ne_idle _)
    | alternate hs' => exact absurd (hs'.symm.trans hs) (by decide)
  · cases hsound.isElement_keyed hs h

/-- **Who owes a space has come to rest**, and is still pausing. -/
theorem exists_pausedFor (howed : k.spaceOwed = false) (inputs : List Input)
    (hrest : (k.after inputs).state = .idle) (howed' : (k.after inputs).spaceOwed = true) :
    ∃ n, k.PausedFor inputs n := by
  induction inputs using List.reverseRecOn with
  | nil => exact absurd (howed.symm.trans howed') Bool.false_ne_true
  | append_singleton inputs i ih =>
    rw [after_concat] at hrest howed'
    by_cases hs : (k.after inputs).state = .idle
    · have hr := response_step (k.after inputs) i
      generalize (k.after inputs).step i = r at hr hrest howed'
      -- the pause goes on, and it had begun before
      cases hr with
      | pause _ howed'' =>
        obtain ⟨n, hn⟩ := ih hs howed''
        exact ⟨_, hn.concat fun p hp => by cases hp⟩
      | @refuse e he =>
        obtain ⟨n, hn⟩ := ih hs howed'
        refine ⟨_, hn.concat ?_⟩
        rintro p ⟨⟩
        simp only [edge?, hs] at he
        cases he
      | rest _ hsettled => exact absurd (hsettled.symm.trans howed') Bool.false_ne_true
      | space => cases howed'
      | pressFirst => exact absurd hrest (State.holding_ne_idle _)
      | hold hs' | sound hs' | releaseLast hs' | pressSecond hs' =>
        exact absurd (hs'.symm.trans hs) (State.holding_ne_idle _)
      | squeeze hs' | alternate hs' | releaseOne hs' =>
        exact absurd (hs'.symm.trans hs) (by decide)
    · exact ⟨0, .rest ⟨hs, hrest⟩⟩

/-- **A space is keyed in the millisecond after a pause of two units**, and at no other time. -/
theorem step_eq_space_iff (hsound : k.Sound) (howed : k.spaceOwed = false) (inputs : List Input)
    (i : Input) :
    ((k.after inputs).step i).1 = some .space ↔
      i = .tick ∧ k.PausedFor inputs (2 * k.speed.dit) := by
  constructor
  · intro hspace
    obtain ⟨rfl, hrest, howed', hdue⟩ := owed_of_step_eq_space (hsound.after inputs) hspace
    obtain ⟨n, hn⟩ := exists_pausedFor howed inputs hrest howed'
    obtain ⟨k', hspeed, hafter⟩ := hn.exists_after_eq
    rw [hafter] at howed' hdue
    split at howed'
    -- after a longer pause nothing is owed any more
    · cases howed'
    · next hshort =>
      rw [if_neg hshort, pausing, isDue_setElapsed, decide_eq_true_eq] at hdue
      have hperiod : k'.speed.period .space = 2 * k.speed.dit := by
        rw [hspeed]
        rfl
      have hlength : n = 2 * k.speed.dit :=
        Nat.le_antisymm (Nat.le_of_not_lt hshort) (hperiod ▸ hdue)
      exact ⟨rfl, hlength ▸ hn⟩
  · rintro ⟨rfl, hpaused⟩
    obtain ⟨k', hspeed, hafter⟩ := hpaused.exists_after_eq
    rw [hafter, if_neg (Nat.not_succ_le_self _), ← hspeed, step_tick_pause_end]

/-! ### Runs -/

/-- **Exactly one space after each letter that is followed by a pause.** A keyer that nobody has
touched, of any mode and speed and with either element on the left paddle, is given edges and
milliseconds in any order. A space is keyed in the millisecond after a pause of two units, when the
keyer is at rest, and at no other time. So when the keyer has come to rest, the pause up to the next
press keys one space if it is longer than two units, however long it is and whatever impossible
edges come in it, and otherwise nothing; and from that press on nothing more comes of it, since no
space is keyed until the keyer comes to rest again. Before the first press nothing is keyed. -/
theorem spaces_keyed (speed : Speed) (mode : Mode) (left : Symbol) (inputs : List Input) :
    let k := prepared speed mode left
    (∀ i, ((k.after inputs).step i).1 = some .space ↔
      i = .tick ∧ k.PausedFor inputs (2 * speed.dit)) ∧
    (∀ n, k.PausedFor inputs n → (k.after inputs).state = .idle) ∧
    (∀ last pause, (k.after inputs).ComesToRest last → IsPause pause →
      let rested := k.after (inputs ++ [last])
      rested.keyed pause = (if 2 * speed.dit + 1 ≤ millis pause then [.space] else []) ∧
      ∀ part, (rested.after pause).Engaged part → .space ∉ (rested.after pause).keyed part) ∧
    (IsPause inputs → k.keyed inputs = []) := by
  intro k
  have hsound : k.Sound := .prepared speed mode left
  obtain ⟨hidle, howed, -, hspeed⟩ := rest_prepared speed mode left
  refine ⟨?_, fun n hn => hn.state_eq, ?_, keyed_pause_of_settled hidle howed⟩
  · intro i
    rw [step_eq_space_iff hsound howed, hspeed]
  · intro last pause hlast hpause rested
    have hrested : rested = (k.after inputs).pausing 0 :=
      (after_concat k inputs last).trans hlast.snd_step
    have hsame : (k.after inputs).speed = speed := (speed_after k inputs).trans hspeed
    refine ⟨?_, ?_⟩
    · rw [hrested, (run_pausing _ hpause).2, hsame]
    · intro part hpart hspace
      have hsound' := (hsound.after (inputs ++ [last])).after pause
      cases hpart.isElement_of_mem_keyed hsound' _ hspace

/-- The left paddle is tapped at the highest speed, at which two units last 24 ms. An impossible edge
comes in the pause, and the 25th millisecond keys the space all the same; a press after 24 of them
forestalls it. -/
theorem spaces_keyed_tap :
    let tapped : List Input := [.edge (.press .left), .tick]
    let pause : List Input := List.replicate 24 .tick ++ [.edge (.release .left)]
    let rested := (prepared fastest .bug .dit).after (tapped ++ [.edge (.release .left)])
    rested.keyed (pause ++ [.tick]) = [.space] ∧ rested.keyed pause = [] ∧
      .space ∉ (rested.after pause).keyed [.edge (.press .right)] := by
  intro tapped pause rested
  obtain ⟨-, -, hrests, -⟩ := spaces_keyed fastest .bug .dit tapped
  have hlast : ((prepared fastest .bug .dit).after tapped).ComesToRest (.edge (.release .left)) :=
    ⟨by decide, by decide⟩
  have hpause : IsPause pause := by rintro (_ | _) <;> decide
  have hlonger : IsPause (pause ++ [.tick]) := by rintro (_ | _) <;> decide
  obtain ⟨hkeyed, hpart⟩ := hrests _ _ hlast hpause
  refine ⟨(hrests _ _ hlast hlonger).1, hkeyed, hpart _ ?_⟩
  exact .leave (by decide) (by decide)

end MorseKeyboard.Keyer
