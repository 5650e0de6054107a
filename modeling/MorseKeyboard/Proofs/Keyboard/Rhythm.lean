import MorseKeyboard.Proofs.Keyboard.Paddling

/-!
# The rhythm of a paddle

The keyer keys in beats, and its counters know nothing of the sender, which is busy with each symbol
for the period of that symbol. The first two beats tell of all the others: if the sender is free for
them when they come, or a little later, it is so for ever (`MorseKeyboard.Speed.Busy.step`), since a
symbol that keeps the keyer waiting keeps the sender busy for as long. Then nothing is heard of the
beats but their symbols, one after another (`MorseKeyboard.Speed.Busy.services_beats`).

**A paddle that is held keys a seamless train** (`MorseKeyboard.Keyboard.movements_paddle`): its
beats find the sender free in the very millisecond in which they come. The two clocks never drift
apart, and no symbol waits.
-/

namespace MorseKeyboard

/-! ### Beats at the sender -/

namespace Speed

/-- The period of an element is the time for which the sender is busy with it. -/
theorem period_eq_duration (v : Speed) {s : Symbol} (hs : s.isElement = true) :
    v.period s = s.duration v.dit := by
  cases s with
  | dit | dah => rfl
  | space => cases hs

variable {v : Speed} {next : Symbol → Symbol}

/-- **Beats that are never too late**: the sender is free for a beat when it comes or up to `slack`
milliseconds later, and so it is for the next one. -/
structure Busy (v : Speed) (next : Symbol → Symbol) (slack : Nat) (s : Symbol) (time free : Nat) :
    Prop where
  first_le : time ≤ free
  le_first : free ≤ time + slack
  second_le : time + v.period (next s) ≤ free + v.period s
  le_second : free + v.period s ≤ time + v.period (next s) + slack

/-- If every second beat keys the same symbol, the first two tell of all. -/
theorem Busy.step (hnext : ∀ s, next (next s) = s) {slack time free : Nat} {s : Symbol}
    (h : v.Busy next slack s time free) :
    v.Busy next slack (next s) (time + v.period (next s)) (free + v.period s) := by
  obtain ⟨hfirst, hfirst', hsecond, hsecond'⟩ := h
  refine ⟨hsecond, hsecond', ?_, ?_⟩ <;> rw [hnext] <;> omega

/-- **Beats that are never too late are played without a pause.** -/
theorem Busy.services_beats (hnext : ∀ s, next (next s) = s)
    (helement : ∀ s, (next s).isElement = s.isElement) {slack time free : Nat} {s : Symbol}
    (hs : s.isElement = true) (h : v.Busy next slack s time free) (m : Nat) :
    (Sender.services v.dit free (v.beats next time s m)).flatMap (Sender.Service.stroke v.dit) =
        Sender.forecastSymbols v.dit [] free (List.iterate next s m) ∧
      ∀ x ∈ Sender.services v.dit free (v.beats next time s m), x.start ≤ x.arrival + slack := by
  induction m generalizing s free time with
  | zero =>
    refine ⟨rfl, ?_⟩
    rintro x ⟨⟩
  | succ m ih =>
    obtain ⟨hstrokes, hslack⟩ := ih ((helement s).trans hs) (h.step hnext)
    rw [beats, Sender.services, Nat.max_eq_left h.first_le, ← v.period_eq_duration hs]
    refine ⟨?_, ?_⟩
    · rw [List.flatMap_cons, hstrokes, List.iterate, Sender.forecastSymbols_cons_nil,
        ← v.period_eq_duration hs]
      rfl
    · intro x hx
      rcases List.mem_cons.mp hx with rfl | hx
      · exact h.le_first
      · exact hslack x hx

end Speed

/-! ### One paddle -/

/-- A paddle that goes down at a keyer at rest keys in the next millisecond, and then with every
period of its element. -/
theorem Keyer.timed_pressFirst (k : Keyer) (p : Paddle) (n : Nat) :
    (k.pressFirst p).timed 0 (List.replicate n .tick) =
      (k.speed.beats id 1 (k.symbolOf p) n).filter fun a => a.1 ≤ n := by
  have htrain := k.timed_holding p (Nat.le_refl (k.speed.period (k.symbolOf p))) 0 (Nat.le_refl n)
  rw [Nat.sub_self, Nat.add_zero, Nat.zero_add] at htrain
  rw [pressFirst_eq]
  exact htrain

/-- The beats of one element are played one after another, each in the millisecond of its own. -/
theorem Speed.services_train (v : Speed) {s : Symbol} (hs : s.isElement = true) (n : Nat) :
    (Sender.services v.dit 1 (v.beats id 1 s n)).flatMap (Sender.Service.stroke v.dit) =
        Sender.forecastSymbols v.dit [] 1 (List.iterate id s n) ∧
      ∀ x ∈ Sender.services v.dit 1 (v.beats id 1 s n), x.start ≤ x.arrival := by
  have hbusy : v.Busy id 0 s 1 1 :=
    ⟨Nat.le_refl _, Nat.le_refl _, Nat.le_refl _, Nat.le_refl _⟩
  exact hbusy.services_beats (fun _ => rfl) (fun _ => rfl) hs n

namespace Sender

/-- The same element again and again. -/
theorem forecastSymbols_iterate_id {s : Symbol} (hs : s.isElement = true) (dit time n : Nat) :
    forecastSymbols dit [] time (List.iterate id s n) =
      (List.range n).flatMap fun i =>
        [(time + i * s.duration dit, .keyDown),
          (time + i * s.duration dit + s.units * dit, .keyUp)] := by
  induction n generalizing time with
  | zero => rfl
  | succ n ih =>
    have htime (i : Nat) : time + s.duration dit + i * s.duration dit =
        time + (i + 1) * s.duration dit := by
      rw [Nat.succ_mul]
      omega
    rw [List.iterate, forecastSymbols_cons_nil, id, ih, List.range_succ_eq_map, List.flatMap_cons,
      List.flatMap_map, Symbol.stroke, if_pos hs, Nat.zero_mul]
    simp only [htime]
    rfl

end Sender

namespace Keyboard

variable {τ : Type} [Ticker τ]

/-- A quiet keyboard of which a paddle goes down. The keyer has its element to key with the next
millisecond, and the output is free for it. -/
theorem Quiet.press {kb : Keyboard τ} (hq : kb.Quiet) (h : kb.Started)
    (hpoll : kb.scheduler.Waits .output 1 1) (p : Paddle) :
    (kb.paddle (.press p)).Attended kb.speed.dit 1 1 ∧
      (kb.paddle (.press p)).keyer = kb.keyer.pressFirst p ∧
      (kb.paddle (.press p)).queues.symbols.toList = [] ∧
      (∀ time, (kb.paddle (.press p)).freeAt kb.speed.dit time = time) ∧
      ∀ time, (kb.paddle (.press p)).forecast kb.speed.dit time = [] := by
  obtain ⟨hattended, hfree, hforecast⟩ := hq.attended h hpoll
  have hstep := Keyer.step_press_of_idle hq.keyer p
  have hsymbols : (kb.paddle (.press p)).queues.symbols = kb.queues.symbols := by
    rw [symbols_paddle, hstep]
    rfl
  refine ⟨hattended.paddle _, ?_, ?_, ?_, ?_⟩
  · rw [keyer_paddle, hstep]
  · rw [hsymbols]
    exact Ring.isEmpty_iff.mp hq.symbols
  · intro time
    rw [freeAt, hsymbols]
    exact hfree time
  · intro time
    rw [forecast, hsymbols]
    exact hforecast time

/-- **A paddle that is held keys a seamless train.** A started keyboard is quiet and polls every
millisecond, and a paddle goes down and stays down. The key goes down in the next millisecond, and
then once per period of the element, for one unit or three, however long the paddle is held. The
queue is empty after each millisecond, and before the turn of the output it holds the element of the
paddle at most. -/
theorem movements_paddle {kb : Keyboard τ} (h : kb.Started) (hq : kb.Quiet)
    (hpoll : kb.scheduler.Waits .output 1 1) (p : Paddle) (n : Nat) :
    let s := kb.keyer.symbolOf p
    let held := kb.paddle (.press p)
    s.isElement = true ∧
      held.movements n =
        ((List.range n).flatMap fun i =>
          [(1 + i * kb.speed.period s, .keyDown),
            (1 + i * kb.speed.period s + s.units * kb.speed.dit, .keyUp)]).filter
          (fun m => m.1 ≤ n) ∧
      (held.ticked n).queues.symbols.toList = [] ∧
      ((held.ticked n).beforeTurn.queues.symbols.toList = [] ∨
        (held.ticked n).beforeTurn.queues.symbols.toList = [s]) := by
  intro s held
  have hs : s.isElement = true := h.ready.1.isElement_symbolOf p
  obtain ⟨hattended, hkeyer, hempty, hfree, hforecast⟩ := hq.press h hpoll p
  have htimed (n : Nat) : held.keyer.timed 0 (List.replicate n .tick) =
      (kb.speed.beats id 1 s n).filter fun a => a.1 ≤ n :=
    hkeyer ▸ kb.keyer.timed_pressFirst p n
  have hfree : held.freeAt kb.speed.dit (0 + 1) = 1 := hfree 1
  have hprompt (n : Nat) : ∀ x ∈ Sender.services kb.speed.dit (held.freeAt kb.speed.dit (0 + 1))
      (held.keyer.timed 0 (List.replicate n .tick)), x.start ≤ x.arrival := by
    rw [htimed, hfree, Sender.services_filter (kb.speed.pairwise_beats id 1 s n)]
    intro x hx
    exact (kb.speed.services_train hs n).2 x (List.mem_of_mem_filter hx)
  refine ⟨hs, ?_, ?_⟩
  · rw [← keyLine_zero_replicate,
      hattended.keyLine_eq 0 fun x hx => Nat.le_trans (hprompt n x hx) (Nat.le_add_right _ _),
      hforecast, List.nil_append, htimed, hfree, Keyer.millis_replicate, Nat.zero_add,
      Sender.filter_strokes_services (kb.speed.pairwise_beats id 1 s n),
      (kb.speed.services_train hs n).1, Sender.forecastSymbols_iterate_id hs,
      ← kb.speed.period_eq_duration hs]
  · obtain ⟨hafter, keyed, hbefore, hkeyed⟩ := hattended.symbols_ticked hempty 0 n (hprompt (n + 1))
    refine ⟨hafter, ?_⟩
    rcases keyed with _ | x
    · exact Or.inl hbefore
    · obtain ⟨t, ht⟩ := hkeyed x rfl
      rw [htimed] at ht
      obtain rfl : x = s := Speed.snd_of_mem_beats_id (List.mem_of_mem_filter ht)
      exact Or.inr hbefore

/-- A new keyboard at ninety-nine words per minute, with a unit of 12 ms. It has played a space
since its start, so its output polls every millisecond, and the host has read the blank. -/
def polling : Keyboard PolledTicker :=
  ((((begun.operate (.request (.tune (.wpm 99)))).operate
    (.request (.tune (.mode .iambicA)))).operate (.request (.send [0x20]))).ticked 90).operate
      .readKeystroke

theorem started_polling : polling.Started :=
  ((((started_begun.operate (.request (.tune (.wpm 99)))).operate
    (.request (.tune (.mode .iambicA)))).operate (.request (.send [0x20]))).ticked 90).operate
      .readKeystroke

theorem atRest_polling :
    polling.queues.paddles.isEmpty = true ∧ polling.queues.symbols.isEmpty = true ∧
      polling.queues.chars.isEmpty = true ∧ polling.queues.keystrokes.isEmpty = true ∧
      polling.queues.menu.isEmpty = true ∧ polling.keyer.state = .idle ∧
      polling.keyer.spaceOwed = false ∧ polling.sender.state = .idle ∧
      polling.sender.decoder.isIdle = true := by
  decide +kernel

theorem quiet_polling : polling.Quiet := by
  obtain ⟨paddles, symbols, chars, keystrokes, menu, keyer, spaceOwed, sender, decoder⟩ :=
    atRest_polling
  have hread (kb : Keyboard PolledTicker) : (kb.operate .readKeystroke).settings = kb.settings :=
    rfl
  have hsettings : polling.settings = _ := (hread _).trans (settings_ticked _ 90)
  have intervals (slot : Nat) : polling.settings.interval slot = 0 := by
    rw [hsettings]
    exact quiet_begun.intervals slot
  exact ⟨⟨paddles, keyer, spaceOwed, intervals⟩, symbols, chars, keystrokes, menu, sender, decoder⟩

theorem waits_polling : polling.scheduler.Waits .output 1 1 :=
  ⟨Nat.one_pos, Nat.one_pos, { period := 1, due := 91 }, by decide +kernel, by decide +kernel, rfl⟩

/-- The right paddle keys a dah of 36 ms every 48 ms. -/
theorem movements_paddle_polling :
    polling.Started ∧ polling.Quiet ∧ polling.scheduler.Waits .output 1 1 ∧
      (polling.paddle (.press .right)).movements 100 =
        [(1, .keyDown), (37, .keyUp), (49, .keyDown), (85, .keyUp), (97, .keyDown)] := by
  refine ⟨started_polling, quiet_polling, waits_polling, ?_⟩
  obtain ⟨-, htrain, -⟩ := movements_paddle started_polling quiet_polling waits_polling .right 100
  refine htrain.trans ?_
  decide +kernel

end Keyboard

end MorseKeyboard
