import MorseKeyboard.Proofs.Sender.Call

/-!
# The pace of the sender

Text is typed no faster than it is sounded. An element takes two calls at least, a unit apart, and
the decoder types nothing before the space that ends the letter, which takes its time as well. How
soon the next letter can end therefore depends on the state of the sender and on the elements that
its decoder has heard of that letter, and **no call is ahead of that pace**
(`MorseKeyboard.Sender.Call.pace`).

The pace is kept as an account in milliseconds. A state has a *lead*
(`MorseKeyboard.Sender.State.leadAt`), the least time before the sender takes up another symbol, the
first twelve milliseconds of which are those of the call that is due; and each element counts
twenty-four milliseconds. Either a call types nothing, and then the account falls by no more than
the millisecond of the call itself, or it takes up the space after a letter, and then the account
begins anew. A letter types at most four bytes, and only one if it has fewer than four elements
(`MorseKeyboard.Decoder.length_letter_le`).
-/

namespace MorseKeyboard

/-! ### How much a letter types -/

namespace Decoder

/-- The elements heard of the letter. -/
def elements (d : Decoder) : Nat := d.pattern.log2

@[simp] theorem elements_fresh : fresh.elements = 0 := rfl

/-- An element is counted, unless there is no room for it. -/
theorem elements_extend_le (d : Decoder) (s : Symbol) : (d.extend s).elements ≤ d.elements + 1 := by
  rw [extend]
  split
  · exact Nat.le_succ _
  · split
    · exact Nat.le_succ _
    · show (Pattern.extend d.pattern s).log2 ≤ d.pattern.log2 + 1
      rcases eq_or_ne d.pattern 0 with hp | hp
      · rw [hp]
        cases s <;> decide
      · exact Nat.le_of_eq (Pattern.log2_extend hp s)

/-- A procedural signal has four elements at least and types four bytes at most. -/
theorem prosign_bounds : ∀ p ∈ Code.prosigns, 16 ≤ p.pattern ∧ (signalText p).length ≤ 4 := by
  decide

/-- **A letter types four bytes at most, and one at most if it has fewer than four elements.** -/
theorem length_letter_le (d : Decoder) :
    d.letter.length ≤ 4 ∧ (d.elements < 4 → d.letter.length ≤ 1) := by
  rw [letter, meaning]
  split
  -- too many elements for any letter
  · exact ⟨Nat.zero_le _, fun _ => Nat.zero_le _⟩
  split
  -- a blank
  · exact ⟨by decide, fun _ => Nat.le_refl _⟩
  split
  -- a character of the alphabet
  · exact ⟨Nat.le_add_left 1 3, fun _ => Nat.le_refl _⟩
  split
  -- a procedural signal, which has its four elements
  · next p hp =>
    obtain ⟨hge, hlength⟩ := prosign_bounds p (List.mem_of_find?_eq_some hp)
    have hpattern : p.pattern = d.pattern := by simpa using List.find?_some hp
    refine ⟨hlength, ?_⟩
    intro hfew
    have hmany : 4 ≤ d.pattern.log2 := by
      rw [← hpattern]
      exact (Nat.le_log2 (by omega)).mpr hge
    exact absurd hfew (Nat.not_lt.mpr hmany)
  · exact ⟨Nat.zero_le _, fun _ => Nat.zero_le _⟩

end Decoder

namespace Sender

/-! ### How soon the next symbol can be taken up -/

/-- The least length of a unit, in milliseconds. -/
def leastUnit : Nat := 12

/-- The least milliseconds from the next call to the one that takes up a symbol. -/
def State.lead : State → Nat
  | idle | sendBit => 0
  | hyper => 1
  | bitSp => 12
  | dah2 => 24
  | dah => 36
  | charSp | wordSp3 => 13
  | wordSp2 => 25
  | wordSp => 37

/-- The least milliseconds before a symbol is taken up, if the next call is in `wait` of them. -/
def State.leadAt (state : State) (wait : Nat) : Nat := min wait leastUnit + state.lead

theorem State.leadAt_le_succ (state : State) {wait next : Nat} (h : wait ≤ next + 1) :
    state.leadAt wait ≤ state.leadAt next + 1 := by
  rw [leadAt, leadAt]
  omega

theorem State.leadAt_mono (state : State) {wait next : Nat}
    (h : wait ≤ next ∨ leastUnit ≤ next) : state.leadAt wait ≤ state.leadAt next := by
  rw [leadAt, leadAt]
  omega

/-- Letting time pass takes a unit off the lead, which is the wait for the next call. -/
theorem State.lead_successor? {state next : State} (h : state.successor? = some next) :
    state.lead ≤ next.lead + leastUnit := by
  cases state <;> cases h <;> decide

/-- A call that takes a unit off the lead lowers what is left by its own millisecond. -/
theorem State.leadAt_one_le {state next : State} {wait : Nat} (hwait : leastUnit ≤ wait)
    (h : state.lead ≤ next.lead + leastUnit) : state.leadAt 1 ≤ next.leadAt wait + 1 := by
  rw [leadAt, leadAt]
  omega

/-- After an element the next symbol is two units away. -/
theorem State.leastUnit_le_lead_stateAfter (s : Symbol) :
    leastUnit ≤ (Turn.stateAfter s).lead := by
  cases s <;> decide

variable {s : Sender} {chars : CharRing} {symbols : SymbolRing} {t : Turn} {dit period : Nat}

/-- Who is not idle is called once per unit, and a unit is not too short. -/
theorem Call.leastUnit_le_periodAfter (h : Call s chars symbols t) (hdit : leastUnit ≤ dit)
    (hperiod : s.state ≠ .idle → leastUnit ≤ period) (hidle : t.sender.state ≠ .idle) :
    leastUnit ≤ periodAfter dit period t.rate := by
  cases h with
  | wait hs | swallow hs => exact absurd hs hidle
  | blank | expand | wake => exact hdit
  | next hs => exact hperiod (by rw [hs]; decide)
  | settle => exact absurd rfl hidle
  | release hs => exact hperiod (by rw [hs]; decide)
  | pass hs =>
    apply hperiod
    intro hc
    rw [hc] at hs
    cases hs

/-- **What a call does to the account.** -/
inductive Pace (s : Sender) (t : Turn) (next : Nat) : Prop
  /-- Nothing is typed, and the account falls by a millisecond at most. -/
  | silent (hbytes : t.bytes = [])
      (hlead : s.state.leadAt 1 + 2 * leastUnit * t.sender.decoder.elements ≤
        t.sender.state.leadAt next + 2 * leastUnit * s.decoder.elements + 1)
  /-- A letter is typed, and the account begins anew: the next symbol is two units away. -/
  | letter (hbytes : t.bytes = s.decoder.letter) (hdecoder : t.sender.decoder = .fresh)
      (hbefore : s.state.leadAt 1 = 1) (hafter : 2 * leastUnit + 1 ≤ t.sender.state.leadAt next)

/-- Nothing is typed while time passes in one state or from one to the next. -/
theorem Pace.of_decoder_eq {next : Nat} (hbytes : t.bytes = [])
    (hdecoder : t.sender.decoder = s.decoder)
    (hlead : s.state.leadAt 1 ≤ t.sender.state.leadAt next + 1) : Pace s t next := by
  refine .silent hbytes ?_
  rw [hdecoder]
  omega

/-- A symbol is taken up. -/
theorem pace_taking {next : Nat} (hlead : s.state.lead = 0) (hnext : leastUnit ≤ next)
    (chars : CharRing) (x : Symbol) (rest : SymbolRing) (rate : Option Rate) :
    Pace s (s.taking chars x rest rate) next := by
  have hone : s.state.leadAt 1 = 1 := by rw [State.leadAt, hlead]; rfl
  have hunit : (Turn.stateAfter x).leadAt next = leastUnit + (Turn.stateAfter x).lead := by
    rw [State.leadAt, Nat.min_eq_right hnext]
  rcases Bool.eq_false_or_eq_true x.isElement with hx | hx
  -- an element counts two units, and it takes two units before the next symbol
  · have helements := s.decoder.elements_extend_le x
    have hafter := State.leastUnit_le_lead_stateAfter x
    have hhear := s.decoder.hear_element hx
    refine .silent (congrArg Prod.fst hhear) ?_
    show s.state.leadAt 1 + 2 * leastUnit * (s.decoder.hear x).2.elements ≤
      (Turn.stateAfter x).leadAt next + 2 * leastUnit * s.decoder.elements + 1
    rw [hone, hunit, hhear]
    simp only [leastUnit] at hafter ⊢
    omega
  · obtain rfl : x = .space := by cases x <;> first | rfl | cases hx
    exact .letter rfl rfl hone (by rw [taking, hunit]; decide)

/-- **No call is ahead of the pace**, if units are not too short. -/
theorem Call.pace (h : Call s chars symbols t) (hdit : leastUnit ≤ dit)
    (hperiod : s.state ≠ .idle → leastUnit ≤ period) :
    Pace s t (periodAfter dit period t.rate) := by
  cases h with
  | wait | swallow =>
    refine .of_decoder_eq rfl rfl (State.leadAt_le_succ _ ?_)
    exact Nat.le_add_left 1 period
  | blank hs =>
    refine .of_decoder_eq rfl rfl (State.leadAt_one_le hdit ?_)
    rw [hs]
    exact Nat.zero_le _
  | expand hs | wake hs => exact pace_taking (by rw [hs]; rfl) hdit _ _ _ _
  | next hs => exact pace_taking (by rw [hs]; rfl) (hperiod (by rw [hs]; decide)) _ _ _ _
  -- the lead of `hyper` is the millisecond of this call
  | settle hs =>
    refine .of_decoder_eq rfl rfl ?_
    show s.state.leadAt 1 ≤ State.idle.leadAt 1 + 1
    rcases hs with hs | ⟨hs, -⟩
    · rw [hs]
      decide
    · rw [hs]
      decide
  | release hs =>
    have hunit : leastUnit ≤ period := hperiod (by rw [hs]; decide)
    refine .of_decoder_eq rfl rfl (State.leadAt_one_le hunit ?_)
    rw [hs]
    exact Nat.le_refl _
  | pass hs =>
    have hunit : leastUnit ≤ period := by
      apply hperiod
      intro hc
      rw [hc] at hs
      cases hs
    exact .of_decoder_eq rfl rfl (State.leadAt_one_le hunit (State.lead_successor? hs))

end Sender

end MorseKeyboard
