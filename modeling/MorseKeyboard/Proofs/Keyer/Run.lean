import MorseKeyboard.Keyer.Keying

/-!
# Runs of the keyer

A keyer is given edges and milliseconds, in any order, and keys a symbol now and then. One input is
a *step* (`MorseKeyboard.Keyer.step`), and an impossible edge is a step that does nothing. After a
list of inputs there are the keyer (`MorseKeyboard.Keyer.after`) and what it has keyed on the way
(`MorseKeyboard.Keyer.keyed`), and both are told by the list read from either end.

At its queue a keyer does what its steps say, and **the queue gets exactly the symbols of the
steps** (`MorseKeyboard.Keyer.edgeOnto_eq`, `MorseKeyboard.Keyer.tickOnto_eq`), so what is proved of
runs holds of the keyer in its keyboard.
-/

namespace MorseKeyboard.Keyer

/-- What a keyer is given. -/
inductive Input where
  /-- A contact closes or opens. -/
  | edge (e : Edge)
  /-- A millisecond passes. -/
  | tick
  deriving DecidableEq, Repr

/-- What comes of an input: the symbol keyed, if any, and the keyer. An impossible edge changes
nothing. -/
def step (k : Keyer) : Input → Option Symbol × Keyer
  | .edge e => (k.edge? e).getD (none, k)
  | .tick => k.tick

/-- The keyer after some inputs. -/
def after (k : Keyer) (inputs : List Input) : Keyer := inputs.foldl (fun k i => (k.step i).2) k

/-- The symbols keyed in the course of some inputs. -/
def keyed (k : Keyer) : List Input → List Symbol
  | [] => []
  | i :: inputs => (k.step i).1.toList ++ (k.step i).2.keyed inputs

/-! ### A keyer nobody has touched -/

/-- A keyer nobody has touched, with parameters of its own. -/
def prepared (speed : Speed) (mode : Mode) (left : Symbol) : Keyer :=
  ((fresh.withSpeed speed).withMode mode).withLeft left

/-- The left paddle of a prepared keyer has an element: a space is not assigned. -/
theorem prepared_eq (speed : Speed) (mode : Mode) (left : Symbol) :
    ∃ s : Symbol, s.isElement = true ∧ prepared speed mode left = { mode, speed, left := s } := by
  rw [prepared, withLeft]
  split
  · next h => exact ⟨left, h, rfl⟩
  · exact ⟨.dit, rfl, rfl⟩

/-! ### The keyer at its queue -/

/-- An edge does to a keyer at its queue what the step says. -/
theorem edgeOnto_eq (k : Keyer) (e : Edge) (now : UInt16) (symbols : SymbolRing) (log : Logbook) :
    (k.edgeOnto e now symbols log).1 = (k.step (.edge e)).2 ∧
      (k.edgeOnto e now symbols log).2.1 = symbols.key (k.step (.edge e)).1 := by
  rw [edgeOnto, step]
  rcases k.edge? e with _ | r
  · exact ⟨rfl, rfl⟩
  · exact ⟨rfl, rfl⟩

/-- A millisecond does to a keyer at its queue what the step says. -/
theorem tickOnto_eq (k : Keyer) (symbols : SymbolRing) :
    k.tickOnto symbols = ((k.step .tick).2, symbols.key (k.step .tick).1) := rfl

/-! ### What an input can do -/

/-- **Everything that an input can do to a keyer**, with the symbol that it keys. -/
inductive Response (k : Keyer) : Input → Option Symbol × Keyer → Prop
  /-- Nothing is held and nothing owed. -/
  | rest (hs : k.state = .idle) (howed : k.spaceOwed = false) : Response k .tick (none, k)
  /-- The pause after a letter goes on. -/
  | pause (hs : k.state = .idle) (howed : k.spaceOwed = true) (hdue : k.isDue .space = false) :
      Response k .tick (none, k.setElapsed .space (k.elapsed.space + 1))
  /-- The pause was long enough to end the letter. -/
  | space (hs : k.state = .idle) (howed : k.spaceOwed = true) (hdue : k.isDue .space = true) :
      Response k .tick (some .space, { k with spaceOwed := false }.setElapsed .space 0)
  /-- The element of the paddle that is held is not due yet. -/
  | hold {p : Paddle} (hs : k.state = .holding p) (hdue : k.isDue (k.symbolOf p) = false) :
      Response k .tick (none, k.age (k.symbolOf p))
  /-- The element of the paddle that is held is due. -/
  | sound {p : Paddle} (hs : k.state = .holding p) (hdue : k.isDue (k.symbolOf p) = true) :
      Response k .tick (some (k.symbolOf p),
        ({ k with pending := none }.setElapsed (k.symbolOf p) 0).age (k.symbolOf p))
  /-- The next element of a squeeze is not due yet. -/
  | squeeze (hs : k.state = .bothHeld) (hdue : k.isDue (k.pending.getD k.left) = false) :
      Response k .tick (none,
        { k with pending := some (k.pending.getD k.left) }.age (k.pending.getD k.left))
  /-- The next element of a squeeze is due, and another one comes after it. -/
  | alternate {next : Symbol} (hs : k.state = .bothHeld)
      (hdue : k.isDue (k.pending.getD k.left) = true)
      (hnext : next = if k.mode.isIambic then (k.pending.getD k.left).opposite
        else k.pending.getD k.left) :
      Response k .tick (some (k.pending.getD k.left),
        ({ k with pending := some next }.setElapsed next 0).age next)
  /-- The first paddle goes down. -/
  | pressFirst {p : Paddle} (hs : k.state = .idle) :
      Response k (.edge (.press p)) (none, k.pressFirst p)
  /-- The second paddle goes down. -/
  | pressSecond {p : Paddle} (hs : k.state = .holding p.other) :
      Response k (.edge (.press p)) (none, k.pressSecond p)
  /-- The last paddle goes up. -/
  | releaseLast {p : Paddle} (hs : k.state = .holding p) :
      Response k (.edge (.release p)) k.releaseLast
  /-- One of two paddles goes up. -/
  | releaseOne {p : Paddle} (hs : k.state = .bothHeld) :
      Response k (.edge (.release p)) (none, k.releaseOne p)
  /-- The edge is impossible. -/
  | refuse {e : Edge} (he : k.edge? e = none) : Response k (.edge e) (none, k)

/-- A millisecond with the paddle of one symbol held. -/
theorem response_heldTick {k : Keyer} {p : Paddle} (hs : k.state = .holding p) :
    Response k .tick (k.heldTick (k.symbolOf p)) := by
  rw [heldTick]
  split
  · next hdue => exact .sound hs hdue
  · next hdue => exact .hold hs (Bool.eq_false_iff.mpr hdue)

/-- **Every step is on the list.** -/
theorem response_step (k : Keyer) (i : Input) : Response k i (k.step i) := by
  cases i with
  | tick =>
    rw [step, tick]
    rcases hs : k.state with _ | _ | _ | _
    case idle =>
      dsimp only
      rw [idleTick]
      rcases howed : k.spaceOwed with _ | _
      · exact .rest hs howed
      rcases hdue : k.isDue .space with _ | _
      · exact .pause hs howed hdue
      · exact .space hs howed hdue
    case leftHeld => exact response_heldTick (p := .left) hs
    case rightHeld => exact response_heldTick (p := .right) hs
    case bothHeld =>
      dsimp only
      rw [squeezeTick]
      dsimp only
      split
      · next hdue => exact .alternate hs hdue rfl
      · next hdue => exact .squeeze hs (Bool.eq_false_iff.mpr hdue)
  | edge e =>
    rw [step]
    rcases hs : k.state with _ | _ | _ | _ <;> rcases e with (_ | _) | (_ | _)
    all_goals
      simp only [edge?, hs, Option.getD_some, Option.getD_none]
    all_goals first
      | exact .pressFirst hs
      | exact .pressSecond (p := .left) hs
      | exact .pressSecond (p := .right) hs
      | exact .releaseLast (p := .left) hs
      | exact .releaseLast (p := .right) hs
      | exact .releaseOne hs
      | exact .refuse (by simp only [edge?, hs])

/-- No input changes the speed. -/
@[simp] theorem speed_step (k : Keyer) (i : Input) : (k.step i).2.speed = k.speed := by
  have h := k.response_step i
  generalize k.step i = r at h ⊢
  cases h <;> rfl

/-- No input changes the mode. -/
@[simp] theorem mode_step (k : Keyer) (i : Input) : (k.step i).2.mode = k.mode := by
  have h := k.response_step i
  generalize k.step i = r at h ⊢
  cases h <;> rfl

/-- Time does not move the paddles. -/
theorem state_tick (k : Keyer) : (k.step .tick).2.state = k.state := by
  have h := k.response_step .tick
  generalize k.step .tick = r at h ⊢
  cases h <;> rfl

theorem step_tick_of_holding {k : Keyer} {p : Paddle} (hs : k.state = .holding p) :
    k.step .tick = k.heldTick (k.symbolOf p) := by
  cases p <;> rw [step, tick, hs] <;> rfl

theorem step_tick_of_bothHeld {k : Keyer} (hs : k.state = .bothHeld) :
    k.step .tick = k.squeezeTick := by
  rw [step, tick, hs]

/-! ### One input after another -/

@[simp] theorem after_nil (k : Keyer) : k.after [] = k := rfl

@[simp] theorem after_cons (k : Keyer) (i : Input) (inputs : List Input) :
    k.after (i :: inputs) = (k.step i).2.after inputs := rfl

theorem after_append (k : Keyer) (inputs more : List Input) :
    k.after (inputs ++ more) = (k.after inputs).after more := List.foldl_append

/-- The last input is a step of the keyer after the others. -/
theorem after_concat (k : Keyer) (inputs : List Input) (i : Input) :
    k.after (inputs ++ [i]) = ((k.after inputs).step i).2 := after_append k inputs [i]

@[simp] theorem keyed_nil (k : Keyer) : k.keyed [] = [] := rfl

@[simp] theorem keyed_cons (k : Keyer) (i : Input) (inputs : List Input) :
    k.keyed (i :: inputs) = (k.step i).1.toList ++ (k.step i).2.keyed inputs := rfl

/-- **What two runs key is what the first keys and then what the second keys.** -/
theorem keyed_append (k : Keyer) (inputs more : List Input) :
    k.keyed (inputs ++ more) = k.keyed inputs ++ (k.after inputs).keyed more := by
  induction inputs generalizing k with
  | nil => rfl
  | cons i inputs ih =>
    rw [List.cons_append, keyed_cons, ih, keyed_cons, after_cons, List.append_assoc]

theorem keyed_concat (k : Keyer) (inputs : List Input) (i : Input) :
    k.keyed (inputs ++ [i]) = k.keyed inputs ++ ((k.after inputs).step i).1.toList := by
  rw [keyed_append, keyed_cons, keyed_nil, List.append_nil]

/-- **What every step keeps, a run keeps.** -/
theorem after_induction {P : Keyer → Prop} (hstep : ∀ k i, P k → P (k.step i).2) {k : Keyer}
    (h : P k) (inputs : List Input) : P (k.after inputs) := by
  induction inputs generalizing k with
  | nil => exact h
  | cons i inputs ih => exact ih (hstep k i h)

theorem mode_after (k : Keyer) (inputs : List Input) : (k.after inputs).mode = k.mode := by
  refine after_induction (P := fun k' => k'.mode = k.mode) ?_ rfl inputs
  intro k' i h
  rw [mode_step, h]

theorem speed_after (k : Keyer) (inputs : List Input) : (k.after inputs).speed = k.speed := by
  refine after_induction (P := fun k' => k'.speed = k.speed) ?_ rfl inputs
  intro k' i h
  rw [speed_step, h]

end MorseKeyboard.Keyer
