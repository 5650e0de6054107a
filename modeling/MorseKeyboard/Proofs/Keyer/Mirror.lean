import MorseKeyboard.Proofs.Keyer.Acts

/-!
# Left and right

The two paddles of a keyer are alike but for their elements. So if they are exchanged, in what is
done to a keyer (`MorseKeyboard.Keyer.Act.mirror`) and in the keyer itself
(`MorseKeyboard.Keyer.mirror`), nothing that is keyed changes: a paddle of the mirror image has the
element that the other paddle has in the original. **A keyer and its mirror image key the same
symbols in the same acts**, and stay mirror images of each other
(`MorseKeyboard.Keyer.mirror_images`).

One place tells left from right. A squeeze with no element pending would begin with that of the left
paddle (`MorseKeyboard.Keyer.squeezeTick`), and there the mirror image of a keyer would differ from
it. It is never reached, since in a squeeze an element is pending
(`MorseKeyboard.Keyer.Coherent.squeeze`).
-/

namespace MorseKeyboard

/-! ### Mirror images -/

/-- The same edge of the other paddle. -/
def Edge.mirror : Edge → Edge
  | press p => press p.other
  | release p => release p.other

namespace Keyer

/-- The state in which the other paddle is held. -/
def State.mirror : State → State
  | idle => idle
  | leftHeld => rightHeld
  | rightHeld => leftHeld
  | bothHeld => bothHeld

/-- The input with left and right exchanged. -/
def Input.mirror : Input → Input
  | edge e => edge e.mirror
  | tick => tick

/-- The act with left and right exchanged. To assign an element to the left paddle is to assign the
opposite one to the right paddle. -/
def Act.mirror : Act → Act
  | give i => give i.mirror
  | setMode mode => setMode mode
  | setSpeed speed => setSpeed speed
  | setLeft s => setLeft s.opposite

/-- **The mirror image of a keyer**: the other paddle is held, and each paddle has the element of
the other one. -/
def mirror (k : Keyer) : Keyer := { k with state := k.state.mirror, left := k.left.opposite }

variable {k : Keyer}

/-- A paddle of the mirror image has the element of the other paddle. -/
theorem symbolOf_mirror (k : Keyer) (p : Paddle) : k.mirror.symbolOf p.other = k.symbolOf p := by
  cases p with
  | left => exact k.left.opposite_opposite
  | right => rfl

/-! ### What an act does to a mirror image -/

theorem idleTick_mirror (k : Keyer) :
    k.mirror.idleTick = (k.idleTick.1, k.idleTick.2.mirror) := by
  show (if !k.spaceOwed then _ else if k.isDue .space then _ else _) = _
  rw [idleTick]
  cases k.spaceOwed <;> cases k.isDue .space <;> rfl

theorem heldTick_mirror (k : Keyer) (s : Symbol) :
    k.mirror.heldTick s = ((k.heldTick s).1, (k.heldTick s).2.mirror) := by
  show (if k.isDue s then _ else _) = _
  rw [heldTick]
  cases k.isDue s <;> rfl

/-- **With an element pending, a squeeze does not tell left from right.** -/
theorem squeezeTick_mirror (h : k.pending ≠ none) :
    k.mirror.squeezeTick = (k.squeezeTick.1, k.squeezeTick.2.mirror) := by
  obtain ⟨s, hs⟩ := Option.ne_none_iff_exists'.mp h
  have hmirror : k.mirror.pending = some s := hs
  rw [squeezeTick, squeezeTick, hs, hmirror, Option.getD_some, Option.getD_some]
  show (if k.isDue s then _ else _) = _
  cases k.isDue s <;> rfl

theorem tick_mirror (h : k.Coherent) : k.mirror.tick = (k.tick.1, k.tick.2.mirror) := by
  have hstate : k.mirror.state = k.state.mirror := rfl
  rw [tick, tick, hstate]
  rcases hs : k.state with _ | _ | _ | _
  case idle => exact k.idleTick_mirror
  case leftHeld =>
    rw [← k.symbolOf_mirror .left]
    exact k.heldTick_mirror _
  case rightHeld =>
    rw [← k.symbolOf_mirror .right]
    exact k.heldTick_mirror _
  case bothHeld => exact squeezeTick_mirror (h.squeeze hs)

/-- An edge of the other paddle does to the mirror image what the edge does to the keyer. -/
theorem step_edge_mirror (k : Keyer) (e : Edge) :
    k.mirror.step (.edge e.mirror) = ((k.step (.edge e)).1, (k.step (.edge e)).2.mirror) := by
  obtain ⟨_ | _ | _ | _, _, _, _ | _ | _, _, _, _⟩ := k <;> rcases e with (_ | _) | (_ | _) <;> rfl

theorem step_mirror (h : k.Coherent) (i : Input) :
    k.mirror.step i.mirror = ((k.step i).1, (k.step i).2.mirror) := by
  cases i with
  | edge e => exact k.step_edge_mirror e
  | tick => exact tick_mirror h

theorem withLeft_mirror (k : Keyer) (s : Symbol) :
    k.mirror.withLeft s.opposite = (k.withLeft s).mirror := by
  rw [withLeft, withLeft, Symbol.isElement_opposite]
  split <;> rfl

/-- **An act and its mirror image** key the same, and lead to mirror images. -/
theorem act_mirror (h : k.Coherent) (a : Act) :
    k.mirror.act a.mirror = ((k.act a).1, (k.act a).2.mirror) := by
  cases a with
  | give i => exact step_mirror h i
  | setMode | setSpeed => rfl
  | setLeft s => exact congrArg (none, ·) (k.withLeft_mirror s)

/-! ### Histories -/

/-- **A history and its mirror image** key the same, and lead to mirror images. -/
theorem perform_mirror (h : k.Coherent) (acts : List Act) :
    k.mirror.outputs (acts.map Act.mirror) = k.outputs acts ∧
      k.mirror.perform (acts.map Act.mirror) = (k.perform acts).mirror := by
  induction acts generalizing k with
  | nil => exact ⟨rfl, rfl⟩
  | cons a acts ih =>
    obtain ⟨houtputs, hperform⟩ := ih (h.act a)
    have hact := act_mirror h a
    refine ⟨?_, ?_⟩
    · rw [List.map_cons, outputs, hact, houtputs, outputs]
    · rw [perform, List.map_cons, List.foldl_cons, hact]
      exact hperform

/-- **Left and right are mirror images.** Two keyers that nobody has touched, of which the left
paddles have opposite elements, are given the same inputs and changes of their parameters, but with
left and right exchanged. They key the same symbols in the same acts. Their counters, the elements
that are pending and the spaces that are owed are the same at every moment, and so are their modes
and speeds; where one has its left paddle held the other has its right one held. -/
theorem mirror_images (acts : List Act) :
    let other := fresh.withLeft fresh.left.opposite
    let k := fresh.perform acts
    let k' := other.perform (acts.map Act.mirror)
    other.outputs (acts.map Act.mirror) = fresh.outputs acts ∧
      k'.state = k.state.mirror ∧ k'.elapsed = k.elapsed ∧ k'.pending = k.pending ∧
      k'.spaceOwed = k.spaceOwed ∧ k'.left = k.left.opposite ∧ k'.mode = k.mode ∧
      k'.speed = k.speed := by
  intro other k k'
  have hother : other = fresh.mirror := rfl
  obtain ⟨houtputs, hperform⟩ := perform_mirror Coherent.fresh acts
  have hk : k' = k.mirror := by
    rw [← hperform, ← hother]
  rw [hk]
  exact ⟨houtputs, rfl, rfl, rfl, rfl, rfl, rfl, rfl⟩

end Keyer

end MorseKeyboard
