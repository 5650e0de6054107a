import Mathlib.Data.List.Chain
import MorseKeyboard.Proofs.Keyboard.Rhythm

/-!
# The rhythm of a squeeze

In a squeeze the elements alternate, and the keyer and the sender disagree about the time between
two of them. The sender is busy for the period of the element that it plays. **The keyer waits for
the period of the element that comes next**, so it is early with a dit after a dah, which has to
wait in the queue, and late with a dah after a dit. As dits and dahs take turns, the queue makes up
for it: once the sender is late it is late for ever, and the line has no pause but the units between
the elements (`MorseKeyboard.Keyer.services_pause`).

It is the beginning that decides whether the sender is ever early. A squeeze is a score with one
pause that may be longer than a unit, the one before the first paddle has its second turn
(`MorseKeyboard.Speed.squeezeScore`), and the line is seamless if this pause is a unit
(`MorseKeyboard.Sender.seamless_filter_iff`). So **a squeeze that begins with a dit is seamless, and
one that begins with a dah only if the other paddle follows within two units, and not at once**
(`MorseKeyboard.Keyboard.keyLine_squeeze`).
-/

namespace MorseKeyboard

namespace Sender

variable {dit : Nat}

/-! ### Seamless lines -/

/-- **A seamless line**: the key is up for a unit before it moves again. -/
def Seamless (dit : Nat) (line : List (Nat × Signal)) : Prop :=
  line.IsChain fun a b => a.2 = .keyUp → b.1 = a.1 + dit

instance (dit : Nat) (line : List (Nat × Signal)) : Decidable (Seamless dit line) :=
  inferInstanceAs (Decidable (List.IsChain _ line))

theorem seamless_cons_cons {a b : Nat × Signal} {line : List (Nat × Signal)} :
    Seamless dit (a :: b :: line) ↔ (a.2 = .keyUp → b.1 = a.1 + dit) ∧ Seamless dit (b :: line) :=
  List.isChain_cons_cons

/-- The time from the beginning of a score to its end. -/
def span (dit : Nat) : List (Nat × Symbol) → Nat
  | [] => 0
  | (silence, s) :: notes => silence + s.units * dit + span dit notes

/-- A note is a stroke after its silence. -/
theorem strokes_cons {s : Symbol} (hs : s.isElement = true) (time silence : Nat)
    (notes : List (Nat × Symbol)) :
    strokes dit time ((silence, s) :: notes) =
      s.stroke dit (time + silence) ++ strokes dit (time + silence + s.units * dit) notes := by
  rw [strokes, Symbol.stroke, if_pos hs]
  rfl

theorem strokes_append (time : Nat) (notes more : List (Nat × Symbol)) :
    strokes dit time (notes ++ more) =
      strokes dit time notes ++ strokes dit (time + span dit notes) more := by
  induction notes generalizing time with
  | nil => rfl
  | cons note notes ih =>
    obtain ⟨silence, s⟩ := note
    rw [List.cons_append, strokes, ih, span, ← Nat.add_assoc, ← Nat.add_assoc]
    rfl

/-- A score is played until its end. -/
theorem le_span_of_mem_strokes {time : Nat} {notes : List (Nat × Symbol)} {m : Nat × Signal}
    (h : m ∈ strokes dit time notes) : m.1 ≤ time + span dit notes := by
  induction notes generalizing time with
  | nil => cases h
  | cons note notes ih =>
    obtain ⟨silence, s⟩ := note
    rw [span]
    rw [strokes, List.mem_cons, List.mem_cons] at h
    rcases h with rfl | rfl | h
    · dsimp only
      omega
    · dsimp only
      omega
    · have := ih h
      omega

/-- The movements for a score come in their order. -/
theorem pairwise_strokes (dit time : Nat) (notes : List (Nat × Symbol)) :
    (strokes dit time notes).Pairwise fun a b => a.1 ≤ b.1 := by
  induction notes generalizing time with
  | nil => exact List.Pairwise.nil
  | cons note notes ih =>
    obtain ⟨silence, s⟩ := note
    refine List.pairwise_cons.mpr ⟨?_, List.pairwise_cons.mpr ⟨?_, ih _⟩⟩
    · intro b hb
      rcases List.mem_cons.mp hb with rfl | hb
      · exact Nat.le_add_right _ _
      · exact Nat.le_trans (Nat.le_add_right _ _) (le_of_mem_strokes hb)
    · intro b hb
      exact le_of_mem_strokes hb

/-- What happens until some time is the beginning of a line. -/
theorem filter_prefix_of_pairwise {line : List (Nat × Signal)}
    (h : line.Pairwise fun a b => a.1 ≤ b.1) (n : Nat) :
    (line.filter fun m => m.1 ≤ n) <+: line := by
  induction line with
  | nil => exact List.prefix_rfl
  | cons m line ih =>
    obtain ⟨hfirst, hrest⟩ := List.pairwise_cons.mp h
    rw [List.filter_cons]
    split
    · exact List.cons_prefix_cons.mpr ⟨rfl, ih hrest⟩
    · next hlate =>
      rw [decide_eq_true_eq] at hlate
      have hnone : (line.filter fun m => m.1 ≤ n) = [] := by
        refine List.filter_eq_nil_iff.mpr fun b hb => ?_
        have := hfirst b hb
        rw [decide_eq_true_eq]
        omega
      rw [hnone]
      exact List.nil_prefix

/-- After the key has gone up, the line is seamless if every silence is a unit. -/
theorem seamless_up_strokes_iff {time : Nat} {notes : List (Nat × Symbol)} :
    Seamless dit ((time, .keyUp) :: strokes dit time notes) ↔ ∀ note ∈ notes, note.1 = dit := by
  induction notes generalizing time with
  | nil => simp [Seamless, strokes]
  | cons note notes ih =>
    obtain ⟨silence, s⟩ := note
    rw [strokes, seamless_cons_cons, seamless_cons_cons, ih]
    simp

/-- **A line is seamless if every silence but the first one is a unit.** -/
theorem seamless_strokes_iff {time : Nat} {note : Nat × Symbol} {notes : List (Nat × Symbol)} :
    Seamless dit (strokes dit time (note :: notes)) ↔ ∀ note ∈ notes, note.1 = dit := by
  obtain ⟨silence, s⟩ := note
  rw [← seamless_up_strokes_iff, strokes, seamless_cons_cons, and_iff_right]
  rintro ⟨⟩

/-- **A line that goes on seamlessly is seamless all along if its beginning is.** It is heard until
some time, and longer and longer. -/
theorem seamless_filter_iff {first : Nat × Symbol} {notes : List (Nat × Symbol)}
    {rest : Nat → List (Nat × Symbol)} (hrest : ∀ n, ∀ note ∈ rest n, note.1 = dit)
    (time start : Nat) :
    (∀ n, Seamless dit ((strokes dit time (first :: notes ++ rest n)).filter
        fun m => m.1 ≤ start + n)) ↔ ∀ note ∈ notes, note.1 = dit := by
  constructor
  · intro h
    have hall := h (time + span dit (first :: notes))
    rw [strokes_append, List.filter_append, List.filter_eq_self.mpr ?_] at hall
    · exact seamless_strokes_iff.mp hall.left_of_append
    · intro m hm
      have := le_span_of_mem_strokes hm
      exact decide_eq_true (by omega)
  · intro h n
    have hline : Seamless dit (strokes dit time (first :: notes ++ rest n)) := by
      refine seamless_strokes_iff.mpr fun note hnote => ?_
      rcases List.mem_append.mp hnote with hnote | hnote
      · exact h note hnote
      · exact hrest n note hnote
    exact List.IsChain.prefix hline (filter_prefix_of_pairwise (pairwise_strokes dit time _) _)

/-- Elements that are played one after another are a score of which every silence is a unit. -/
theorem strokes_map_unit {symbols : List Symbol} (h : ∀ s ∈ symbols, s.isElement = true)
    (time : Nat) :
    strokes dit time (symbols.map (dit, ·)) = forecastSymbols dit [] (time + dit) symbols := by
  induction symbols generalizing time with
  | nil => rfl
  | cons s symbols ih =>
    have hs : s.isElement = true := h s List.mem_cons_self
    rw [List.map_cons, strokes, ih fun r hr => h r (List.mem_cons_of_mem s hr),
      forecastSymbols_element hs]

/-- A longer silence before the first of them makes them late. -/
theorem strokes_pause {s : Symbol} {symbols : List Symbol}
    (h : ∀ r ∈ s :: symbols, r.isElement = true) (time more : Nat) :
    strokes dit time ((dit + more, s) :: symbols.map (dit, ·)) =
      forecastSymbols dit [] (time + dit + more) (s :: symbols) := by
  rw [strokes, strokes_map_unit fun r hr => h r (List.mem_cons_of_mem s hr),
    forecastSymbols_element (h s List.mem_cons_self), Nat.add_assoc time dit more]

end Sender

/-! ### The score of a squeeze -/

/-- Elements that alternate are elements. -/
theorem Symbol.isElement_of_mem_iterate {s r : Symbol} (hs : s.isElement = true) {m : Nat}
    (h : r ∈ List.iterate opposite s m) : r.isElement = true := by
  induction m generalizing s with
  | zero => cases h
  | succ m ih =>
    rcases List.mem_cons.mp h with rfl | h
    · exact hs
    · exact ih ((isElement_opposite s).trans hs) h

namespace Speed

/-- The first notes of a squeeze with `s` on the paddle that goes down first: the other one goes
down `wait` milliseconds later. -/
def opening (v : Speed) (s : Symbol) (wait : Nat) : List (Nat × Symbol) :=
  if wait = 0 then [(v.dit + (v.period s - v.period s.opposite), s)]
  else [(v.dit, s.opposite), (v.dit + (wait - v.period s.opposite), s)]

/-- **The score of a squeeze**. The elements alternate, and every silence is a unit, but the one
before the first paddle has its second turn may be longer. -/
def squeezeScore (v : Speed) (s : Symbol) (wait m : Nat) : List (Nat × Symbol) :=
  (0, if wait = 0 then s.opposite else s) :: v.opening s wait ++
    (List.iterate Symbol.opposite s.opposite m).map (v.dit, ·)

/-- The pause is longer than a unit if the keyer waits for longer than the second element takes. -/
theorem opening_unit_iff (v : Speed) (s : Symbol) (wait : Nat) :
    (∀ note ∈ v.opening s wait, note.1 = v.dit) ↔
      (if wait = 0 then v.period s else wait) ≤ v.period s.opposite := by
  rw [opening]
  split
  · rw [List.forall_mem_singleton]
    dsimp only
    omega
  · rw [List.forall_mem_cons, List.forall_mem_singleton]
    dsimp only
    omega

/-- **When no silence of a squeeze is longer than a unit**: the first paddle keys dits, or the other
one goes down in the first two units of the dah that the first one keys, but not together with
it. -/
theorem opening_iff (v : Speed) {s : Symbol} (hs : s.isElement = true) {wait : Nat}
    (hwait : wait ≤ v.period s) :
    (∀ note ∈ v.opening s wait, note.1 = v.dit) ↔ s = .dit ∨ 1 ≤ wait ∧ wait ≤ 2 * v.dit := by
  have hunit := v.twelve_le_dit
  rw [opening_unit_iff]
  rcases s with _ | _ | _
  case dit =>
    rw [period] at hwait
    refine iff_of_true ?_ (Or.inl rfl)
    rw [Symbol.opposite, period, period]
    split <;> omega
  case dah =>
    have hdah : (Symbol.dah = .dit) = False := by simp
    rw [Symbol.opposite, period, period, hdah, false_or]
    split <;> omega
  case space => cases hs

end Speed

/-! ### The sender in a squeeze -/

namespace Keyer

variable {k : Keyer}

theorem follower_of_isIambic (h : k.mode.isIambic = true) : k.follower = Symbol.opposite := by
  funext s
  rw [follower, if_pos h]

/-- **After its pause a squeeze is played without another one.** The key went up last at `up`, and
the next beat comes at `time`, so the output waits for the keyer, or the keyer for the output. From
then on it is always the output that is late. -/
theorem services_pause (v : Speed) {s : Symbol} (hs : s.isElement = true) (up time : Nat)
    (hslack : up + v.dit ≤ time + 2 * v.period s)
    (hsecond : time + v.period s.opposite ≤ max (up + v.dit) time + v.period s) (m : Nat) :
    (Sender.services v.dit (up + v.dit) (v.beats Symbol.opposite time s (m + 1))).flatMap
        (Sender.Service.stroke v.dit) =
      Sender.strokes v.dit up ((v.dit + (time - (up + v.dit)), s) ::
        (List.iterate Symbol.opposite s.opposite m).map (v.dit, ·)) ∧
    ∀ x ∈ Sender.services v.dit (up + v.dit) (v.beats Symbol.opposite time s (m + 1)),
      x.start ≤ x.arrival + 16 * v.dit := by
  have helements : ∀ r ∈ s :: List.iterate Symbol.opposite s.opposite m, r.isElement = true :=
    fun r => Symbol.isElement_of_mem_iterate (m := m + 1) hs
  have hfree : up + v.dit + (time - (up + v.dit)) = max (up + v.dit) time := by omega
  have hbusy : v.Busy Symbol.opposite (16 * v.dit) s time (max (up + v.dit) time) := by
    refine ⟨Nat.le_max_right _ _, ?_, hsecond, ?_⟩
    all_goals
      cases s <;> simp only [Speed.period, Symbol.opposite] at hslack ⊢ <;> omega
  rw [← Sender.services_max fun a ha => Speed.le_of_mem_beats ha, Sender.strokes_pause helements,
    hfree]
  exact hbusy.services_beats Symbol.opposite_opposite Symbol.isElement_opposite hs (m + 1)

/-- **The symbols of a squeeze are played by its score**, and none has to wait for long. -/
theorem services_squeezed (hmode : k.mode.isIambic = true) (p : Paddle)
    (hs : (k.symbolOf p).isElement = true) {wait : Nat}
    (hwait : wait ≤ k.speed.period (k.symbolOf p)) (m : Nat) :
    (Sender.services k.speed.dit 1 (k.squeezed p wait (m + 2))).flatMap
        (Sender.Service.stroke k.speed.dit) =
      Sender.strokes k.speed.dit 1 (k.speed.squeezeScore (k.symbolOf p) wait m) ∧
    ∀ x ∈ Sender.services k.speed.dit 1 (k.squeezed p wait (m + 2)),
      x.start ≤ x.arrival + 16 * k.speed.dit := by
  rw [squeezed, symbolOf_other, follower_of_isIambic hmode]
  generalize k.symbolOf p = s at hs hwait ⊢
  generalize k.speed = v at hwait ⊢
  have ho : s.opposite.isElement = true := (Symbol.isElement_opposite s).trans hs
  have hfirst : s.duration v.dit = s.units * v.dit + v.dit := s.duration_of_isElement hs v.dit
  have hsecond : s.opposite.duration v.dit = s.opposite.units * v.dit + v.dit :=
    s.opposite.duration_of_isElement ho v.dit
  have htwice : v.period s.opposite ≤ 2 * v.period s := by
    cases s <;> simp only [Speed.period, Symbol.opposite] <;> omega
  have hlong : v.period s ≤ 16 * v.dit := by
    cases s <;> simp only [Speed.period] <;> omega
  rw [← v.period_eq_duration hs] at hfirst
  rw [← v.period_eq_duration ho] at hsecond
  rcases Nat.eq_zero_or_pos wait with rfl | hpos
  -- the element of the second paddle is the first one
  · obtain ⟨hstrokes, hslack⟩ := services_pause v hs (1 + s.opposite.units * v.dit)
      (1 + v.period s) (by omega) (by omega) m
    have hfree : 1 + v.period s.opposite = 1 + s.opposite.units * v.dit + v.dit := by omega
    have hexcess : v.period s - v.period s.opposite =
        1 + v.period s - (1 + s.opposite.units * v.dit + v.dit) := by omega
    rw [if_pos rfl, List.nil_append, Speed.beats, Symbol.opposite_opposite, Sender.services,
      ← v.period_eq_duration ho, Nat.zero_add, Nat.max_self, hfree]
    refine ⟨?_, List.forall_mem_cons.mpr ⟨Nat.le_add_right _ _, hslack⟩⟩
    rw [List.flatMap_cons, hstrokes, Speed.squeezeScore, Speed.opening, if_pos rfl, if_pos rfl,
      hexcess, List.cons_append, Sender.strokes_cons ho]
    rfl
  -- the element of the second paddle waits until the first one is over
  · have hne : wait ≠ 0 := Nat.ne_of_gt hpos
    obtain ⟨hstrokes, hslack⟩ := services_pause v hs
      (1 + s.units * v.dit + v.dit + s.opposite.units * v.dit) (wait + 1 + v.period s) (by omega)
      (by omega) m
    have hstart : max (1 + v.period s) (wait + 1) = 1 + s.units * v.dit + v.dit := by omega
    have hfree : 1 + s.units * v.dit + v.dit + v.period s.opposite =
        1 + s.units * v.dit + v.dit + s.opposite.units * v.dit + v.dit := by omega
    have hexcess : wait - v.period s.opposite = wait + 1 + v.period s -
        (1 + s.units * v.dit + v.dit + s.opposite.units * v.dit + v.dit) := by omega
    have hsoon : 1 + s.units * v.dit + v.dit ≤ wait + 1 + 16 * v.dit := by omega
    rw [if_neg hne, List.singleton_append, Speed.beats, Symbol.opposite_opposite, Sender.services,
      Sender.services, ← v.period_eq_duration ho, ← v.period_eq_duration hs, Nat.max_self, hstart,
      hfree]
    refine ⟨?_, List.forall_mem_cons.mpr ⟨Nat.le_add_right _ _,
      List.forall_mem_cons.mpr ⟨hsoon, hslack⟩⟩⟩
    rw [List.flatMap_cons, List.flatMap_cons, hstrokes, Speed.squeezeScore, Speed.opening,
      if_neg hne, if_neg hne, hexcess, List.cons_append, List.cons_append,
      Sender.strokes_cons hs 1 0, Sender.strokes_cons ho _ v.dit]
    rfl

end Keyer

/-! ### The key line of a squeeze -/

namespace Keyboard

variable {τ : Type} [Ticker τ]

/-- **The rhythm of an iambic squeeze.** A started keyboard in an iambic mode is quiet and polls
every millisecond. A paddle goes down, the other one before the period of the first element is over,
and both stay down. Then the key plays the score of the squeeze for as long as they do. Every
silence lasts a unit if the first paddle keys dits, or if the other one goes down in the first two
units of its dah but not together with it, **and in no other case**: then the dah has its second
turn too late. -/
theorem keyLine_squeeze {kb : Keyboard τ} (h : kb.Started) (hq : kb.Quiet)
    (hpoll : kb.scheduler.Waits .output 1 1) (hmode : kb.keyer.mode.isIambic = true) (p : Paddle)
    {wait : Nat} (hwait : wait ≤ kb.speed.period (kb.keyer.symbolOf p)) :
    let s := kb.keyer.symbolOf p
    let dit := kb.speed.dit
    (∀ n, kb.keyLine 0 (Keyer.squeeze p wait n) =
        (Sender.strokes dit 1 (kb.speed.squeezeScore s wait n)).filter
          fun m => m.1 ≤ wait + n) ∧
      ((∀ n, Sender.Seamless dit (kb.keyLine 0 (Keyer.squeeze p wait n))) ↔
        s = .dit ∨ 1 ≤ wait ∧ wait ≤ 2 * dit) := by
  intro s dit
  have hs : s.isElement = true := h.ready.1.isElement_symbolOf p
  obtain ⟨hattended, hfree, hforecast⟩ := hq.attended h hpoll
  have hline (n : Nat) : kb.keyLine 0 (Keyer.squeeze p wait n) =
      (Sender.strokes dit 1 (kb.speed.squeezeScore s wait n)).filter fun m => m.1 ≤ wait + n := by
    have htimed : kb.keyer.timed 0 (Keyer.squeeze p wait n) =
        (kb.keyer.squeezed p wait (n + 2)).filter fun a => a.1 ≤ wait + n :=
      Keyer.timed_squeeze hq.keyer p hwait (Nat.le_add_right n 2)
    have hsorted := kb.keyer.pairwise_squeezed p wait (n + 2)
    obtain ⟨hstrokes, hslack⟩ := Keyer.services_squeezed hmode p hs hwait n
    rw [hattended.keyLine_eq, hforecast, List.nil_append, hfree, htimed, Keyer.millis_squeeze,
      Nat.zero_add, Sender.filter_strokes_services hsorted]
    · exact congrArg _ hstrokes
    · rw [hfree, htimed, Sender.services_filter hsorted]
      intro x hx
      have hlate := hslack x (List.mem_of_mem_filter hx)
      have hsame : kb.keyer.speed.dit = kb.speed.dit := rfl
      omega
  refine ⟨hline, ?_⟩
  rw [← kb.speed.opening_iff hs hwait]
  simp only [hline, Speed.squeezeScore]
  refine Sender.seamless_filter_iff (fun n note hnote => ?_) 1 wait
  obtain ⟨r, -, rfl⟩ := List.mem_map.mp hnote
  rfl

theorem parameters_polling :
    polling.keyer.mode.isIambic = true ∧ polling.speed.dit = 12 ∧
      polling.keyer.symbolOf .left = .dit ∧
      polling.speed.period (polling.keyer.symbolOf .left) = 24 ∧
      polling.speed.period (polling.keyer.symbolOf .right) = 48 := by
  decide +kernel

/-- A dit and a dah that follow each other with 12 ms in between. -/
theorem keyLine_squeeze_polling :
    polling.Started ∧ polling.Quiet ∧ polling.scheduler.Waits .output 1 1 ∧
      ∀ n, Sender.Seamless 12 (polling.keyLine 0 (Keyer.squeeze .left 5 n)) := by
  obtain ⟨hmode, hdit, hsymbol, hperiod, -⟩ := parameters_polling
  have hwait : 5 ≤ polling.speed.period (polling.keyer.symbolOf .left) := by rw [hperiod]; decide
  refine ⟨started_polling, quiet_polling, waits_polling, ?_⟩
  obtain ⟨-, hseamless⟩ :=
    keyLine_squeeze started_polling quiet_polling waits_polling hmode .left hwait
  rw [hdit] at hseamless
  exact hseamless.mpr (Or.inl hsymbol)

/-- **A squeeze with a gap.** The right paddle keys a dah of 36 ms, and the left one goes down in
the last unit of its period. The dit comes in time, but the next dah 16 ms too late. -/
theorem gap_squeeze_polling :
    polling.Started ∧ polling.Quiet ∧ polling.scheduler.Waits .output 1 1 ∧
      polling.keyer.mode.isIambic = true ∧
      40 < polling.speed.period (polling.keyer.symbolOf .right) ∧
      polling.keyLine 0 (Keyer.squeeze .right 40 60) =
        [(1, .keyDown), (37, .keyUp), (49, .keyDown), (61, .keyUp), (89, .keyDown)] ∧
      ¬∀ n, Sender.Seamless polling.speed.dit
        (polling.keyLine 0 (Keyer.squeeze .right 40 n)) := by
  obtain ⟨hmode, hdit, -, -, hperiod⟩ := parameters_polling
  have hline : polling.keyLine 0 (Keyer.squeeze .right 40 60) =
      [(1, .keyDown), (37, .keyUp), (49, .keyDown), (61, .keyUp), (89, .keyDown)] := by
    decide +kernel
  refine ⟨started_polling, quiet_polling, waits_polling, hmode, by rw [hperiod]; decide, hline, ?_⟩
  intro hseamless
  have hgap := hseamless 60
  rw [hline, hdit] at hgap
  exact absurd hgap (by decide)

end Keyboard

end MorseKeyboard
