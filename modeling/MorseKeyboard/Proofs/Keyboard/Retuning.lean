import Mathlib.Data.Nat.Init
import MorseKeyboard.Proofs.Keyboard.Clocks
import MorseKeyboard.Proofs.Sender.Keying

/-!
# Parameters that change while the key is down

An element that is being keyed ends when the units that the sender still has to count are over. In a
keyboard that is left to itself this is the rest of the unit in progress and then whole units
(`MorseKeyboard.Keyboard.untilRelease`), whatever waits in its queues
(`MorseKeyboard.Keyboard.Holding.raisesAt`).

Every request that sets a parameter ends with a reload, and a reload begins the unit of the output
afresh. So **after such a request the element lasts as many whole units of the new speed as the
sender still counts** (`MorseKeyboard.Keyboard.Holding.untilRelease_reload`). Even if only the pitch
of the sidetone is changed, what had passed of the unit in progress is keyed once more
(`MorseKeyboard.Keyboard.Started.untilRelease_reload_of_speed_eq`). The moment at which the key goes
up is the same in two cases only, that the request is refused or that the two lengths happen to
agree (`MorseKeyboard.Keyboard.raisesAt_handle_iff`).
-/

namespace MorseKeyboard

/-- A call of a sender that holds the key down asks for no other rate and types nothing. -/
theorem Sender.Call.rate_of_isDown {s : Sender} {chars : CharRing} {symbols : SymbolRing} {t : Turn}
    (h : Call s chars symbols t) (hs : s.state.isDown = true) : t.rate = none ∧ t.bytes = [] := by
  cases h with
  | wait hidle | swallow hidle | blank hidle | expand hidle | wake hidle | next hidle =>
    rw [hidle] at hs
    cases hs
  | settle hup => rcases hup with hup | ⟨hup, -⟩ <;> rw [hup] at hs <;> cases hs
  | release | pass => exact ⟨rfl, rfl⟩

/-- Whether a request sets a parameter of keying. -/
def Request.isTuning : Request → Bool
  | reload | tune _ | exchangePaddles | recallPreset _ => true
  | _ => false

namespace Keyboard

variable {τ : Type}

/-! ### How long the key stays down -/

/-- The milliseconds from one turn of the output to the next. -/
def turnPeriod (kb : Keyboard τ) : Nat :=
  (kb.scheduler.job? .output).elim 0 fun job => job.period.toNat

/-- **The milliseconds until the key goes up**, if it is down and nothing but time passes: the rest
of the unit in progress, and the units of the element after it. -/
def untilRelease (kb : Keyboard τ) : Nat :=
  kb.untilTurn + (kb.sender.state.unitsLeft - 1) * kb.turnPeriod

/-- The scheduler tells how long the key stays down. -/
theorem untilRelease_eq {kb : Keyboard τ} {wait period : Nat}
    (h : kb.scheduler.Waits .output wait period) :
    kb.untilRelease = wait + (kb.sender.state.unitsLeft - 1) * period := by
  obtain ⟨job, hjob, -, hperiod⟩ := h.exists_job
  rw [untilRelease, untilTurn_eq h, turnPeriod, hjob, ← hperiod]
  rfl

/-- A unit and the units after it are all of them. -/
theorem unit_add_pred_mul {units : Nat} (h : 0 < units) (unit : Nat) :
    unit + (units - 1) * unit = units * unit := by
  rw [Nat.sub_one_mul, Nat.add_sub_cancel' (Nat.le_mul_of_pos_left unit h)]

/-- A keyboard in the middle of an element, the output of which is scheduled. -/
structure Holding (kb : Keyboard τ) : Prop where
  scheduled : kb.Scheduled
  down : kb.sender.state.isDown = true

variable [Ticker τ] {kb : Keyboard τ}

/-- The next movement of the key is that it goes up, in the `n`th millisecond from now. -/
def RaisesAt (kb : Keyboard τ) (n : Nat) : Prop := kb.movements n = [(n, .keyUp)]

instance (kb : Keyboard τ) (n : Nat) : Decidable (kb.RaisesAt n) :=
  inferInstanceAs (Decidable (_ = _))

/-- The movements of some milliseconds are the first of those of more milliseconds. -/
theorem movements_prefix_of_le (kb : Keyboard τ) {m n : Nat} (h : m ≤ n) :
    kb.movements m <+: kb.movements n := by
  induction n, h using Nat.le_induction with
  | base => exact List.prefix_refl _
  | succ n _ ih =>
    rw [movements_succ]
    exact ih.trans (List.prefix_append _ _)

/-- **The key goes up for the first time once.** -/
theorem RaisesAt.unique {m n : Nat} (hm : kb.RaisesAt m) (hn : kb.RaisesAt n) : m = n := by
  rw [RaisesAt] at hm hn
  have hlength : (kb.movements m).length = (kb.movements n).length := by rw [hm, hn]; rfl
  have heq : kb.movements m = kb.movements n := by
    rcases Nat.le_total m n with hle | hle
    · exact (kb.movements_prefix_of_le hle).eq_of_length hlength
    · exact ((kb.movements_prefix_of_le hle).eq_of_length hlength.symm).symm
  rw [hm, hn] at heq
  cases heq
  rfl

namespace Holding

/-- **A millisecond of an element**: either the key goes up, or nothing is done and the element is a
millisecond shorter. -/
theorem tick (h : kb.Holding) :
    kb.untilRelease = 1 ∧ kb.nextSignals = [.keyUp] ∨
      kb.untilRelease = kb.tick.2.untilRelease + 1 ∧ kb.nextSignals = [] ∧ kb.tick.2.Holding := by
  obtain ⟨⟨wait, period, hwaits⟩, hdown⟩ := h
  have hpos := hwaits.wait_pos
  have huntil := untilRelease_eq hwaits
  rcases eq_or_ne wait 1 with rfl | hwait
  · obtain ⟨t, hturn, hnext⟩ := waits_tick_of_due hwaits
    have hsender := hturn.sender
    obtain ⟨hrate, hbytes⟩ := hturn.call.rate_of_isDown hdown
    rw [hrate, Sender.periodAfter] at hnext
    have hsignals : kb.nextSignals = t.signals := by
      rw [hturn.nextSignals, hbytes]
      exact List.append_nil _
    rcases hturn.call.effect.of_unitsLeft_pos (Sender.State.isDown_iff.mp hdown) with
      ⟨hnone, hunits, hmore⟩ | ⟨hup, hone⟩
    -- a unit of the element is over, and the next one is a whole one
    · refine Or.inr ⟨?_, by rw [hsignals, hnone], ⟨_, _, hnext⟩, ?_⟩
      · rw [huntil, hunits, Nat.add_sub_cancel, untilRelease_eq hnext, hsender,
          unit_add_pred_mul hmore, Nat.add_comm]
      · rw [hsender]
        exact Sender.State.isDown_iff.mpr hmore
    -- the element is over
    · refine Or.inl ⟨?_, by rw [hsignals, hup]⟩
      rw [huntil, hone, Nat.sub_self, Nat.zero_mul]
  -- the unit in progress is a millisecond shorter
  · obtain ⟨haside, hnext⟩ := waits_tick_of_not_due hwaits hwait
    have hsender : kb.tick.2.sender = kb.sender := haside.sender
    refine Or.inr ⟨?_, nextSignals_of_aside haside, ⟨_, _, hnext⟩, by rw [hsender, hdown]⟩
    rw [huntil, untilRelease_eq hnext, hsender]
    omega

theorem untilRelease_pos (h : kb.Holding) : 0 < kb.untilRelease := by
  rcases h.tick with ⟨hone, -⟩ | ⟨hsucc, -⟩ <;> omega

/-- **Until the element is over the key does not move.** -/
theorem ticked (h : kb.Holding) {n : Nat} (hn : n < kb.untilRelease) :
    (kb.ticked n).Holding ∧ n + (kb.ticked n).untilRelease = kb.untilRelease ∧
      kb.movements n = [] := by
  induction n with
  | zero => exact ⟨h, Nat.zero_add _, rfl⟩
  | succ n ih =>
    obtain ⟨hholding, hleft, hnone⟩ := ih (by omega)
    rcases hholding.tick with ⟨hone, -⟩ | ⟨hsucc, hsignals, hnext⟩
    · omega
    · refine ⟨hnext, ?_, ?_⟩
      · rw [Keyboard.ticked]
        omega
      · rw [movements_succ, hnone, hsignals]
        rfl

/-- **The key goes up when the element is over**, if nothing but time passes. -/
theorem raisesAt (h : kb.Holding) : kb.RaisesAt kb.untilRelease := by
  have hpos := h.untilRelease_pos
  obtain ⟨n, hn⟩ := Nat.exists_eq_succ_of_ne_zero (Nat.ne_of_gt hpos)
  obtain ⟨hholding, hleft, hnone⟩ := h.ticked (n := n) (by omega)
  rw [RaisesAt, hn, movements_succ, hnone]
  rcases hholding.tick with ⟨-, hsignals⟩ | ⟨hsucc, -, hnext⟩
  · rw [hsignals]
    rfl
  · have := hnext.untilRelease_pos
    omega

theorem raisesAt_iff (h : kb.Holding) {n : Nat} : kb.RaisesAt n ↔ n = kb.untilRelease := by
  constructor
  · intro hn
    exact hn.unique h.raisesAt
  · rintro rfl
    exact h.raisesAt

end Holding

/-! ### Setting a parameter -/

theorem sender_reload (kb : Keyboard τ) : kb.reload.sender = kb.sender := by
  rw [reload, retime]
  split <;> rfl

/-- A request that sets a parameter is refused for its number and changes nothing, or it changes the
settings and reloads them. -/
theorem handle_of_isTuning {r : Request} (hr : r.isTuning = true) (kb : Keyboard τ) :
    kb.handle r = (.error .presetOutOfRange, kb) ∨
      ∃ settings, kb.handle r = (.ok (), { kb with settings }.reload) := by
  cases r with
  | reload => exact Or.inr ⟨kb.settings, rfl⟩
  | tune t => exact Or.inr ⟨kb.settings.apply t.toChange, rfl⟩
  | exchangePaddles => exact Or.inr ⟨_, rfl⟩
  | recallPreset index =>
    rw [handle, recallPreset]
    split
    · exact Or.inr ⟨kb.settings.apply (.recall index), rfl⟩
    · exact Or.inl rfl
  | _ => cases hr

theorem Holding.reload (h : kb.Holding) (settings : Settings) :
    ({ kb with settings } : Keyboard τ).reload.Holding := by
  obtain ⟨⟨wait, period, hwaits⟩, hdown⟩ := h
  have hsettings : ({ kb with settings } : Keyboard τ).scheduler.Waits .output wait period := hwaits
  refine ⟨⟨_, _, waits_reload hsettings⟩, ?_⟩
  rw [sender_reload]
  exact hdown

/-- **A reload begins the unit in progress afresh**: the element lasts as many whole units of the
new speed as the sender still counts. -/
theorem Holding.untilRelease_reload (h : kb.Holding) (settings : Settings) :
    ({ kb with settings } : Keyboard τ).reload.untilRelease =
      kb.sender.state.unitsLeft * ({ kb with settings } : Keyboard τ).reload.speed.dit := by
  obtain ⟨⟨wait, period, hwaits⟩, hdown⟩ := h
  have hsettings : ({ kb with settings } : Keyboard τ).scheduler.Waits .output wait period := hwaits
  rw [untilRelease_eq (waits_reload hsettings), sender_reload]
  exact unit_add_pred_mul (Sender.State.isDown_iff.mp hdown) _

/-- **At an unchanged speed a reload never shortens the element**: it stretches it by what has
passed of the unit in progress, which is less than a unit. -/
theorem Started.untilRelease_reload_of_speed_eq (h : kb.Started)
    (hdown : kb.sender.state.isDown = true) {settings : Settings}
    (hspeed : ({ kb with settings } : Keyboard τ).reload.speed = kb.speed) :
    ∃ passed < kb.speed.dit,
      ({ kb with settings } : Keyboard τ).reload.untilRelease = kb.untilRelease + passed := by
  obtain ⟨wait, period, hclock⟩ := h.clocked
  have hholding : kb.Holding := ⟨⟨wait, period, hclock.output⟩, hdown⟩
  have hpos := hclock.output.wait_pos
  have hle := hclock.wait_le_dit
  have hidle : kb.sender.state ≠ .idle := by
    intro hidle
    rw [hidle] at hdown
    cases hdown
  refine ⟨kb.speed.dit - wait, by omega, ?_⟩
  rw [hholding.untilRelease_reload, hspeed, untilRelease_eq hclock.output,
    hclock.period_eq_dit hidle, ← unit_add_pred_mul (Sender.State.isDown_iff.mp hdown)]
  omega

/-- **When a parameter may be set without a trace on the element being keyed.** The key of a
keyboard is down, and its output is scheduled, as that of every started keyboard is
(`MorseKeyboard.Keyboard.Started.ready`). If a request sets a parameter, the key goes up in the same
millisecond as without it exactly if the request is refused, or if what is left of the element
happens to be as long as the units that the sender still counts are at the new speed. Otherwise it
goes up after those units. -/
theorem raisesAt_handle_iff (h : kb.Scheduled) (hdown : kb.sender.state.isDown = true) {r : Request}
    (hr : r.isTuning = true) :
    kb.RaisesAt kb.untilRelease ∧
      ((kb.handle r).1 = .ok () →
        (kb.handle r).2.RaisesAt (kb.sender.state.unitsLeft * (kb.handle r).2.speed.dit)) ∧
      ((∀ n, (kb.handle r).2.RaisesAt n ↔ kb.RaisesAt n) ↔
        (kb.handle r).1 ≠ .ok () ∨
          kb.sender.state.unitsLeft * (kb.handle r).2.speed.dit = kb.untilRelease) := by
  have hholding : kb.Holding := ⟨h, hdown⟩
  refine ⟨hholding.raisesAt, ?_⟩
  rcases handle_of_isTuning hr kb with hrefused | ⟨settings, haccepted⟩
  · rw [hrefused]
    refine ⟨?_, fun _ => Or.inl ?_, fun _ n => Iff.rfl⟩
    · intro hok
      cases hok
    · intro hok
      cases hok
  · have hreload := hholding.reload settings
    have huntil := hholding.untilRelease_reload settings
    rw [haccepted]
    dsimp only
    rw [← huntil]
    refine ⟨fun _ => hreload.raisesAt, ?_⟩
    constructor
    · intro hsame
      exact Or.inr (((hsame _).mp hreload.raisesAt).unique hholding.raisesAt)
    · rintro (hrefused | hlength) n
      · exact absurd rfl hrefused
      · rw [hreload.raisesAt_iff, hholding.raisesAt_iff, hlength]

/-- A new keyboard plays an `e` at twenty words per minute, and half of its dit of 60 ms is over. -/
def halfDit : Keyboard PolledTicker :=
  ((fresh PolledTicker.free).start.2.sendBytes [0x65]).ticked 90

theorem started_halfDit : halfDit.Started := by
  have hbuilt : (fresh PolledTicker.free).Built :=
    .ofParts PolledTicker.free Queues.wellFormed_fresh .fresh .standard .empty
  have hstarted : (fresh PolledTicker.free).start.2.Started := .start hbuilt rfl
  exact (hstarted.operate (.request (.send [0x65]))).ticked 90

/-- At forty words per minute a whole dit lasts as long as what is left of this one. -/
theorem raisesAt_handle_iff_forty :
    halfDit.RaisesAt halfDit.untilRelease ∧
      ∀ n, (halfDit.handle (.tune (.wpm 40))).2.RaisesAt n ↔ halfDit.RaisesAt n := by
  have hdown : halfDit.sender.state.isDown = true := by decide +kernel
  have hlength : halfDit.sender.state.unitsLeft *
      (halfDit.handle (.tune (.wpm 40))).2.speed.dit = halfDit.untilRelease := by decide +kernel
  obtain ⟨hraises, -, hsame⟩ := raisesAt_handle_iff started_halfDit.ready.2 hdown
    (r := .tune (.wpm 40)) rfl
  exact ⟨hraises, hsame.mpr (Or.inr hlength)⟩

/-- **A new pitch stretches a dit.** Left alone, the key goes up after the thirty milliseconds that
are left. If the pitch of the sidetone is set, it goes up after a whole unit. -/
theorem pitch_stretches_halfDit :
    halfDit.Started ∧ halfDit.sender.state.isDown = true ∧ halfDit.RaisesAt 30 ∧
      (halfDit.handle (.tune (.hz 700))).2.RaisesAt 60 ∧
      ¬∀ n, (halfDit.handle (.tune (.hz 700))).2.RaisesAt n ↔ halfDit.RaisesAt n := by
  have hleft : halfDit.RaisesAt 30 := by decide +kernel
  have hpitch : (halfDit.handle (.tune (.hz 700))).2.RaisesAt 60 := by decide +kernel
  refine ⟨started_halfDit, by decide +kernel, hleft, hpitch, ?_⟩
  intro hsame
  exact absurd (((hsame 60).mp hpitch).unique hleft) (by decide)

end Keyboard

end MorseKeyboard
