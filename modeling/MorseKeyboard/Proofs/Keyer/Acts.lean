import MorseKeyboard.Proofs.Keyer.Presses

/-!
# Everything that is done to a keyer

Between the inputs of a keyer its parameters are changed: its mode, its speed and the element of its
left paddle, at any moment and so in the middle of an element or of a squeeze. One change or one
input is an *act* (`MorseKeyboard.Keyer.Act`), and a keyer that somebody may find was made from one
that nobody has touched by a list of acts.

What all of these keyers have in common is that their elements are in order
(`MorseKeyboard.Keyer.Coherent`): the paddles have one element each, and **an element is pending
whenever both paddles are held, and none when no paddle is**. So in a squeeze the keyer never has to
guess which element comes next.
-/

namespace MorseKeyboard.Keyer

/-- Something done to a keyer. -/
inductive Act where
  /-- It is given an input. -/
  | give (i : Input)
  /-- Its mode is changed. -/
  | setMode (mode : Mode)
  /-- Its speed is changed. -/
  | setSpeed (speed : Speed)
  /-- An element is assigned to its left paddle. -/
  | setLeft (s : Symbol)
  deriving DecidableEq, Repr

/-- What comes of an act: the symbol keyed, if any, and the keyer. -/
def act (k : Keyer) : Act → Option Symbol × Keyer
  | .give i => k.step i
  | .setMode mode => (none, k.withMode mode)
  | .setSpeed speed => (none, k.withSpeed speed)
  | .setLeft s => (none, k.withLeft s)

/-- The keyer after some acts. -/
def perform (k : Keyer) (acts : List Act) : Keyer := acts.foldl (fun k a => (k.act a).2) k

/-- What is keyed in the course of some acts, with one entry for each of them. -/
def outputs (k : Keyer) : List Act → List (Option Symbol)
  | [] => []
  | a :: acts => (k.act a).1 :: (k.act a).2.outputs acts

/-- **What every act keeps, a history keeps.** -/
theorem perform_induction {P : Keyer → Prop} (hact : ∀ k a, P k → P (k.act a).2) {k : Keyer}
    (h : P k) (acts : List Act) : P (k.perform acts) := by
  induction acts generalizing k with
  | nil => exact h
  | cons a acts ih => exact ih (hact k a h)

/-- **A keyer that somebody may find**: its elements are in order, and in a squeeze one of them is
pending. -/
structure Coherent (k : Keyer) : Prop extends k.Sound where
  squeeze : k.state = .bothHeld → k.pending ≠ none

variable {k : Keyer}

namespace Coherent

theorem fresh : Coherent fresh where
  left := rfl
  pending := by rintro _ ⟨⟩
  idle _ := rfl
  squeeze := by rintro ⟨⟩

theorem step (h : k.Coherent) (i : Input) : (k.step i).2.Coherent := by
  refine ⟨h.toSound.step i, ?_⟩
  have hr := k.response_step i
  generalize k.step i = r at hr ⊢
  cases hr with
  | rest | pause | space | refuse => exact h.squeeze
  | hold hs | sound hs =>
    exact fun hboth => absurd (hs.symm.trans hboth) (State.holding_ne_bothHeld _)
  | pressFirst | releaseOne => exact fun hboth => absurd hboth (State.holding_ne_bothHeld _)
  | squeeze | alternate | pressSecond => exact fun _ => Option.some_ne_none _
  | releaseLast => rintro ⟨⟩

theorem withLeft (h : k.Coherent) (s : Symbol) : (k.withLeft s).Coherent := by
  rw [Keyer.withLeft]
  split
  · next hs => exact ⟨⟨hs, h.pending, h.idle⟩, h.squeeze⟩
  · exact h

theorem act (h : k.Coherent) (a : Act) : (k.act a).2.Coherent := by
  cases a with
  | give i => exact h.step i
  | setMode | setSpeed => exact ⟨⟨h.left, h.pending, h.idle⟩, h.squeeze⟩
  | setLeft s => exact h.withLeft s

/-- **Every keyer that somebody may find has its elements in order.** -/
theorem perform (acts : List Act) : (Keyer.fresh.perform acts).Coherent :=
  perform_induction (fun _ a h => h.act a) Coherent.fresh acts

end Coherent

end MorseKeyboard.Keyer
