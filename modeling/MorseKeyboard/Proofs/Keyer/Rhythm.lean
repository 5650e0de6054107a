import MorseKeyboard.Proofs.Keyer.Tapping

/-!
# The rhythm of the keyer

As long as nothing but time passes, a keyer of which a paddle is held keys a symbol, waits for the
period of the next one, keys that, and so on. The times at which it does are *beats*
(`MorseKeyboard.Speed.beats`), and which symbol comes next is all that has to be known besides:

* one paddle keys its element again and again (`MorseKeyboard.Keyer.timed_holding`);
* a squeeze keys what the mode has follow (`MorseKeyboard.Keyer.timed_squeeze`).

**The wait between two beats is the period of the second one.** For one paddle this is the period of
the element that was keyed, but for a squeeze in an iambic mode it is not.
-/

namespace MorseKeyboard

namespace Speed

/-- So many beats, the first of which keys `s` at `time`: each comes the period of its symbol after
the one before it. -/
def beats (v : Speed) (next : Symbol → Symbol) : Nat → Symbol → Nat → List (Nat × Symbol)
  | _, _, 0 => []
  | time, s, m + 1 => (time, s) :: v.beats next (time + v.period (next s)) (next s) m

variable {v : Speed} {next : Symbol → Symbol} {time : Nat} {s : Symbol} {m : Nat}

/-- No beat comes before the first one. -/
theorem le_of_mem_beats {a : Nat × Symbol} (h : a ∈ v.beats next time s m) : time ≤ a.1 := by
  induction m generalizing time s with
  | zero => cases h
  | succ m ih =>
    rcases List.mem_cons.mp h with rfl | h
    · exact Nat.le_refl _
    · have := ih h
      omega

/-- There is no beat before the first one. -/
theorem filter_beats_of_lt {n : Nat} (h : n < time) :
    ((v.beats next time s m).filter fun a => a.1 ≤ n) = [] := by
  refine List.filter_eq_nil_iff.mpr fun a ha => ?_
  have := le_of_mem_beats ha
  rw [decide_eq_true_eq]
  omega

/-- Beats without a change key one symbol only. -/
theorem snd_of_mem_beats_id {a : Nat × Symbol} (h : a ∈ v.beats id time s m) : a.2 = s := by
  induction m generalizing time with
  | zero => cases h
  | succ m ih =>
    rcases List.mem_cons.mp h with rfl | h
    · rfl
    · exact ih h

theorem pairwise_beats (v : Speed) (next : Symbol → Symbol) (time : Nat) (s : Symbol) (m : Nat) :
    (v.beats next time s m).Pairwise fun a b => a.1 ≤ b.1 := by
  induction m generalizing time s with
  | zero => exact List.Pairwise.nil
  | succ m ih =>
    refine List.pairwise_cons.mpr ⟨?_, ih _ _⟩
    intro a ha
    have := le_of_mem_beats ha
    show time ≤ a.1
    omega

end Speed

namespace Keyer

/-! ### When symbols are keyed -/

/-- The milliseconds that pass with an input. -/
def Input.millis : Input → Nat
  | edge _ => 0
  | tick => 1

/-- **The symbols keyed in the course of some inputs**, each with the number of the millisecond to
which it belongs, if `time` milliseconds have passed before. An edge belongs to the millisecond that
is about to pass. -/
def timed (k : Keyer) : Nat → List Input → List (Nat × Symbol)
  | _, [] => []
  | time, i :: inputs =>
    (k.step i).1.toList.map (time + 1, ·) ++ (k.step i).2.timed (time + i.millis) inputs

/-- The times are left out in what was keyed. -/
theorem map_snd_timed (k : Keyer) (time : Nat) (inputs : List Input) :
    (k.timed time inputs).map Prod.snd = k.keyed inputs := by
  induction inputs generalizing k time with
  | nil => rfl
  | cons i inputs ih =>
    rw [timed, List.map_append, ih, List.map_map, keyed_cons]
    exact congrArg (· ++ _) (List.map_id _)

/-- No time passes with an edge. -/
theorem timed_edge_of_none {k k' : Keyer} {e : Edge} (h : k.step (.edge e) = (none, k'))
    (time : Nat) (inputs : List Input) :
    k.timed time (.edge e :: inputs) = k'.timed time inputs := by
  rw [timed, h]
  rfl

/-- What is keyed belongs to a millisecond that is still to pass. -/
theorem lt_of_mem_timed {k : Keyer} {time : Nat} {inputs : List Input} {a : Nat × Symbol}
    (h : a ∈ k.timed time inputs) : time < a.1 := by
  induction inputs generalizing k time with
  | nil => cases h
  | cons i inputs ih =>
    rcases List.mem_append.mp h with h | h
    · obtain ⟨s, -, rfl⟩ := List.mem_map.mp h
      exact Nat.lt_succ_self time
    · have := ih h
      omega

/-- The milliseconds that pass with some inputs. -/
def millis : List Input → Nat
  | [] => 0
  | i :: inputs => i.millis + millis inputs

theorem millis_append (inputs more : List Input) :
    millis (inputs ++ more) = millis inputs + millis more := by
  induction inputs with
  | nil => exact (Nat.zero_add _).symm
  | cons i inputs ih => rw [List.cons_append, millis, ih, millis, Nat.add_assoc]

theorem timed_append (k : Keyer) (time : Nat) (inputs more : List Input) :
    k.timed time (inputs ++ more) =
      k.timed time inputs ++ (k.after inputs).timed (time + millis inputs) more := by
  induction inputs generalizing k time with
  | nil => rfl
  | cons i inputs ih =>
    have hmillis : time + millis (i :: inputs) = time + i.millis + millis inputs := by
      rw [millis, Nat.add_assoc]
    rw [List.cons_append, timed, timed, ih, after_cons, hmillis, List.append_assoc]

theorem millis_replicate (n : Nat) : millis (List.replicate n .tick) = n := by
  induction n with
  | zero => rfl
  | succ n ih => rw [List.replicate_succ, millis, ih, Input.millis, Nat.add_comm]

/-! ### Beats -/

/-- **A keyer that keys in beats**: `beating s c k` says that the symbol `s` comes next and that `c`
milliseconds of its period have passed. Each millisecond is one more, until the period is over; then
the symbol is keyed, and with the same millisecond the period of the next one begins. -/
structure Beating (v : Speed) (next : Symbol → Symbol) (beating : Symbol → Nat → Keyer → Prop) :
    Prop where
  wait : ∀ {s : Symbol} {c : Nat} {k : Keyer}, beating s c k → c < v.period s →
    ∃ k', k.step .tick = (none, k') ∧ beating s (c + 1) k'
  beat : ∀ {s : Symbol} {k : Keyer}, beating s (v.period s) k →
    ∃ k', k.step .tick = (some s, k') ∧ beating (next s) 1 k'

/-- **What a keyer keys that keys in beats.** -/
theorem Beating.timed_eq {v : Speed} {next : Symbol → Symbol}
    {beating : Symbol → Nat → Keyer → Prop} (h : Beating v next beating) {s : Symbol} {c : Nat}
    {k : Keyer} (hk : beating s c k) (hc : c ≤ v.period s) (time : Nat) {n m : Nat} (hm : n ≤ m) :
    k.timed time (List.replicate n .tick) =
      (v.beats next (time + 1 + (v.period s - c)) s m).filter fun a => a.1 ≤ time + n := by
  induction n generalizing s c k time m with
  | zero => exact (Speed.filter_beats_of_lt (by omega)).symm
  | succ n ih =>
    have hbound : time + (n + 1) = time + 1 + n := by omega
    rw [List.replicate_succ, timed, hbound]
    rcases Nat.eq_or_lt_of_le hc with rfl | hlt
    -- the beat is due, and the next one comes after its period
    · obtain ⟨k', hstep, hk'⟩ := h.beat hk
      obtain ⟨m, rfl⟩ : ∃ m', m = m' + 1 := ⟨m - 1, by omega⟩
      have hpos := v.period_pos (next s)
      have hnext : time + 1 + 1 + (v.period (next s) - 1) = time + 1 + v.period (next s) := by omega
      have hdue : decide (time + 1 ≤ time + 1 + n) = true := decide_eq_true (Nat.le_add_right _ _)
      rw [hstep, Nat.sub_self, Nat.add_zero, Speed.beats, List.filter_cons, if_pos hdue, ← hnext]
      exact congrArg (_ :: ·) (ih hk' hpos (time + 1) (Nat.le_of_succ_le_succ hm))
    · obtain ⟨k', hstep, hk'⟩ := h.wait hk hlt
      have hstart : time + 1 + (v.period s - c) = time + 1 + 1 + (v.period s - (c + 1)) := by omega
      rw [hstep, hstart]
      exact ih hk' hlt (time + 1) (Nat.le_of_succ_le hm)

/-- One paddle keys in beats, always the same element. -/
theorem beating_holding (v : Speed) (p : Paddle) :
    Beating v id fun s c k => ∃ k' : Keyer, k = k'.holding p c ∧ k'.speed = v ∧ k'.symbolOf p = s where
  wait := by
    rintro _ c _ ⟨k, rfl, rfl, rfl⟩ hc
    exact ⟨_, step_tick_of_lt_period p hc, k, rfl, rfl, rfl⟩
  beat := by
    rintro _ _ ⟨k, rfl, rfl, rfl⟩
    exact ⟨_, step_tick_of_period k p, k.givenUp, rfl, rfl, rfl⟩

/-- **A paddle that is held keys its element in beats.** -/
theorem timed_holding (k : Keyer) (p : Paddle) {c : Nat} (hc : c ≤ k.speed.period (k.symbolOf p))
    (time : Nat) {n m : Nat} (hm : n ≤ m) :
    (k.holding p c).timed time (List.replicate n .tick) =
      (k.speed.beats id (time + 1 + (k.speed.period (k.symbolOf p) - c)) (k.symbolOf p) m).filter
        fun a => a.1 ≤ time + n :=
  (beating_holding k.speed p).timed_eq ⟨k, rfl, rfl, rfl⟩ hc time hm

/-! ### Squeezes -/

/-- A keyer at which both paddles are held, and so many milliseconds of the period of the element
that comes next have passed. -/
def squeezing (k : Keyer) (s : Symbol) (c : Nat) : Keyer :=
  { k with state := .bothHeld, pending := some s }.setElapsed s c

/-- The element that follows another one in a squeeze. -/
def follower (k : Keyer) (s : Symbol) : Symbol := if k.mode.isIambic then s.opposite else s

theorem step_tick_squeezing (k : Keyer) (s : Symbol) (c : Nat) :
    (k.squeezing s c).step .tick = (k.squeezing s c).squeezeTick := rfl

/-- Before the period of the next element has passed, a squeeze keys nothing. -/
theorem step_tick_squeezing_of_lt {k : Keyer} {s : Symbol} {c : Nat} (h : c < k.speed.period s) :
    (k.squeezing s c).step .tick = (none, k.squeezing s (c + 1)) := by
  have hdue : (k.squeezing s c).isDue s = false := by
    rw [squeezing, isDue_setElapsed]
    exact decide_eq_false (Nat.not_le.mpr h)
  have hpending : (k.squeezing s c).pending.getD (k.squeezing s c).left = s := rfl
  have hage : (k.squeezing s c).age s = k.squeezing s (c + 1) := age_setElapsed _ _ (lt_counterMax h)
  rw [step_tick_squeezing, squeezeTick, hpending, hdue, if_neg Bool.false_ne_true, ← hage]
  rfl

/-- When the period of the next element is over, it is keyed, and the period of the one that follows
begins. -/
theorem step_tick_squeezing_of_period (k : Keyer) (s : Symbol) :
    (k.squeezing s (k.speed.period s)).step .tick =
      (some s, (k.squeezing s (k.speed.period s)).squeezing (k.follower s) 1) := by
  have hdue : (k.squeezing s (k.speed.period s)).isDue s = true := by
    rw [squeezing, isDue_setElapsed]
    exact decide_eq_true (Nat.le_refl _)
  have hpending : (k.squeezing s (k.speed.period s)).pending.getD
      (k.squeezing s (k.speed.period s)).left = s := rfl
  rw [step_tick_squeezing, squeezeTick, hpending, if_pos hdue]
  dsimp only
  rw [age_setElapsed _ _ (by decide)]
  rfl

/-- A squeeze keys in beats, each element being followed as the mode has it. -/
theorem beating_squeezing (v : Speed) (mode : Mode) :
    Beating v (fun s => if mode.isIambic then s.opposite else s)
      fun s c k => ∃ k' : Keyer, k = k'.squeezing s c ∧ k'.speed = v ∧ k'.mode = mode where
  wait := by
    rintro s c _ ⟨k, rfl, rfl, rfl⟩ hc
    exact ⟨_, step_tick_squeezing_of_lt hc, k, rfl, rfl, rfl⟩
  beat := by
    rintro s _ ⟨k, rfl, rfl, rfl⟩
    exact ⟨_, step_tick_squeezing_of_period k s, _, rfl, rfl, rfl⟩

/-- **A squeeze keys its elements in beats.** -/
theorem timed_squeezing (k : Keyer) {s : Symbol} {c : Nat} (hc : c ≤ k.speed.period s) (time : Nat)
    {n m : Nat} (hm : n ≤ m) :
    (k.squeezing s c).timed time (List.replicate n .tick) =
      (k.speed.beats k.follower (time + 1 + (k.speed.period s - c)) s m).filter
        fun a => a.1 ≤ time + n :=
  (beating_squeezing k.speed k.mode).timed_eq ⟨k, rfl, rfl, rfl⟩ hc time hm

/-! ### A squeeze from the start -/

theorem symbolOf_other (k : Keyer) (p : Paddle) :
    k.symbolOf p.other = (k.symbolOf p).opposite := by
  rcases p with _ | _
  · rfl
  · exact k.left.opposite_opposite.symm

/-- **What a keyer is given in a squeeze**: a paddle goes down, so many milliseconds later the other
one does, and then so many milliseconds pass. -/
def squeeze (p : Paddle) (wait n : Nat) : List Input :=
  .edge (.press p) :: (List.replicate wait .tick ++ .edge (.press p.other) :: List.replicate n .tick)

theorem millis_squeeze (p : Paddle) (wait n : Nat) : millis (squeeze p wait n) = wait + n := by
  rw [squeeze, millis, millis_append, millis, millis_replicate, millis_replicate, Input.millis,
    Input.millis, Nat.zero_add, Nat.zero_add]

/-- **When the second paddle goes down its element is due**, whatever was before. -/
theorem step_press_of_holding {k : Keyer} {p : Paddle} (hs : k.state = .holding p) :
    k.step (.edge (.press p.other)) =
      (none, k.squeezing (k.symbolOf p.other) (k.speed.period (k.symbolOf p.other))) := by
  have hedge : k.edge? (.press p.other) = some (none, k.pressSecond p.other) := by
    cases p <;> simp only [edge?, hs, State.holding, Paddle.other]
  rw [step, hedge]
  rfl

/-- The symbols of a squeeze, with the time at which each is keyed: the element of the first paddle,
unless the second one goes down with it, and from then on a beat for each. -/
def squeezed (k : Keyer) (p : Paddle) (wait m : Nat) : List (Nat × Symbol) :=
  (if wait = 0 then [] else [(1, k.symbolOf p)]) ++
    k.speed.beats k.follower (wait + 1) (k.symbolOf p.other) m

theorem pairwise_squeezed (k : Keyer) (p : Paddle) (wait m : Nat) :
    (k.squeezed p wait m).Pairwise fun a b => a.1 ≤ b.1 := by
  have hbeats := k.speed.pairwise_beats k.follower (wait + 1) (k.symbolOf p.other) m
  rw [squeezed]
  split
  · exact hbeats
  · refine List.pairwise_cons.mpr ⟨?_, hbeats⟩
    intro b hb
    have := Speed.le_of_mem_beats hb
    show 1 ≤ b.1
    omega

/-- **A paddle that is held for its period at most** keys its element in the first millisecond. -/
theorem timed_hold (k : Keyer) (p : Paddle) {wait : Nat}
    (hwait : wait ≤ k.speed.period (k.symbolOf p)) :
    (k.pressFirst p).timed 0 (List.replicate wait .tick) =
      if wait = 0 then [] else [(1, k.symbolOf p)] := by
  rcases wait with _ | n
  · rfl
  · have htrain := k.timed_holding p (Nat.le_refl (k.speed.period (k.symbolOf p))) 0
      (Nat.le_refl (n + 1))
    have hlate : (k.speed.beats id (1 + k.speed.period (k.symbolOf p)) (k.symbolOf p) n).filter
        (fun a => a.1 ≤ n + 1) = [] := Speed.filter_beats_of_lt (by omega)
    rw [Nat.sub_self, Nat.add_zero, Nat.zero_add, Nat.zero_add, Speed.beats, List.filter_cons,
      if_pos (decide_eq_true (Nat.le_add_left 1 n)), id, hlate] at htrain
    rw [pressFirst_eq, htrain, if_neg (Nat.succ_ne_zero n)]

/-- The second paddle goes down in the period of the first element at the latest. -/
theorem squeezing_of_hold (k : Keyer) (p : Paddle) {wait : Nat}
    (hwait : wait ≤ k.speed.period (k.symbolOf p)) :
    ∃ k' : Keyer, k'.speed = k.speed ∧ k'.follower = k.follower ∧
      ((k.pressFirst p).after (List.replicate wait .tick)).step (.edge (.press p.other)) =
        (none, k'.squeezing (k.symbolOf p.other) (k.speed.period (k.symbolOf p.other))) := by
  rcases Nat.eq_zero_or_pos wait with rfl | hpos
  · exact ⟨k.pressFirst p, rfl, rfl, step_press_of_holding rfl⟩
  · rw [(k.after_hold p hpos hwait).1]
    exact ⟨k.givenUp.holding p wait, rfl, rfl, step_press_of_holding rfl⟩

/-- **What is keyed in a squeeze**, if the second paddle goes down before the period of the first
element is over. -/
theorem timed_squeeze {k : Keyer} (hs : k.state = .idle) (p : Paddle) {wait : Nat}
    (hwait : wait ≤ k.speed.period (k.symbolOf p)) {n m : Nat} (hm : n ≤ m) :
    k.timed 0 (squeeze p wait n) = (k.squeezed p wait m).filter fun a => a.1 ≤ wait + n := by
  obtain ⟨k', hspeed, hfollower, hsecond⟩ := k.squeezing_of_hold p hwait
  have hfirst : ((if wait = 0 then [] else [(1, k.symbolOf p)]).filter fun a => a.1 ≤ wait + n) =
      if wait = 0 then [] else [(1, k.symbolOf p)] := by
    split
    · rfl
    · next hpos =>
      exact List.filter_eq_self.mpr fun a ha => by
        obtain rfl := List.mem_singleton.mp ha
        exact decide_eq_true (by omega)
  have hbeats := k'.timed_squeezing (s := k.symbolOf p.other) (Nat.le_refl _) wait hm
  rw [hspeed, hfollower, Nat.sub_self, Nat.add_zero] at hbeats
  rw [squeeze, timed_edge_of_none (step_press_of_idle hs p), timed_append, timed_hold k p hwait,
    millis_replicate, Nat.zero_add, timed_edge_of_none hsecond, hbeats, squeezed,
    List.filter_append, hfirst]

end Keyer

end MorseKeyboard
