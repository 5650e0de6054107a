import MorseKeyboard.Proofs.Sender.Keying
import MorseKeyboard.Proofs.Sender.Pace

/-!
# What a call of the sender cannot exceed

A call takes steps until one of them ends it, and nothing in its loop counts the steps. It ends all
the same: only an idle sender and one that asks for the next symbol go on within the call, the first
having made sure that there is a symbol, the second to a state that rests. So **the second step is
the last** (`MorseKeyboard.Sender.Turn.exists_done_of_again`).

What a call does in its steps is little, and one of its bounds matters to what is played. The
symbols of a byte are pushed without a look at the room that is left, and a full ring would lose its
oldest. But a byte is only expanded when no symbol waits, and the longest code has seven elements,
which with the space after them fill half of the ring: **nothing that is pushed overwrites
anything** (`MorseKeyboard.Sender.Call.moves`).
-/

namespace MorseKeyboard

/-- What is queued for a byte fills half of the queue at most. -/
theorem Code.length_played_le (byte : UInt8) : (played byte).length ≤ 8 := by
  rw [played]
  rcases he : elements? byte with _ | run
  · exact Nat.zero_le _
  · rw [List.length_append, List.length_singleton]
    exact Nat.succ_le_succ (elements?_bounds he).1

namespace Sender

/-! ### The loop of a call -/

namespace Turn

/-- **The loop of a call**: it takes so many steps, the last of which ends it with the turn `u`. -/
inductive Ends : Turn → Nat → Turn → Prop
  | done {t u : Turn} (h : t.step = .done u) : Ends t 1 u
  | again {t u v : Turn} {k : Nat} (h : t.step = .again u) (hrest : Ends u k v) : Ends t (k + 1) v

/-- **The loop has one end**, and it is found within any bound that is not too low. -/
theorem Ends.settle_eq {t u : Turn} {k : Nat} (h : Ends t k u) {bound : Nat} (hk : k ≤ bound) :
    settle bound t = u := by
  induction h generalizing bound with
  | done h =>
    obtain ⟨bound, rfl⟩ := Nat.exists_eq_add_of_le' hk
    exact settle_of_done h
  | again h _ ih =>
    obtain ⟨bound, rfl⟩ := Nat.exists_eq_add_of_le' hk
    rw [← Nat.add_assoc, settle_of_again h]
    exact ih (Nat.le_add_left _ _)

/-- An idle sender goes on within the call if there is a symbol to send, and then to send it. -/
theorem sendBit_of_stepIdle {t u : Turn} (h : t.stepIdle = .again u) :
    u.sender.state = .sendBit ∧ u.symbols.isEmpty = false := by
  rw [stepIdle] at h
  split at h
  · next hsymbols =>
    cases h
    exact ⟨rfl, by simpa [goTo] using hsymbols⟩
  split at h
  · cases h
  dsimp only at h
  split at h
  · cases h
  split at h
  · cases h
  · next run _ =>
    cases h
    obtain ⟨x, rest, hx⟩ := Ring.exists_pop?_push (t.symbols.pushAll run) .space
    exact ⟨rfl, Ring.isEmpty_of_pop?_eq_some hx⟩

/-- A sender that asks for the next symbol goes on within the call if there is none, and then to
rest. -/
theorem hyper_of_stepSymbol {t u : Turn} (h : t.stepSymbol = .again u) :
    u.sender.state = .hyper := by
  rw [stepSymbol] at h
  split at h <;> cases h
  rfl

/-- **The second step of a call is its last.** -/
theorem exists_done_of_again {t u : Turn} (h : t.step = .again u) : ∃ v, u.step = .done v := by
  rw [step] at h
  split at h
  case h_2 =>
    obtain ⟨hstate, hsymbols⟩ := sendBit_of_stepIdle h
    rcases hx : u.symbols.pop? with _ | ⟨x, rest⟩
    · rw [Ring.isEmpty_of_pop?_eq_none hx] at hsymbols
      cases hsymbols
    · simp [step, stepSymbol, hstate, hx]
  case h_3 => simp [step, hyper_of_stepSymbol h]
  all_goals cases h

/-- **The loop ends after two steps at most.** -/
theorem exists_ends (t : Turn) : ∃ k ≤ 2, ∃ u, Ends t k u := by
  rcases hstep : t.step with u | u
  · exact ⟨1, by decide, u, .done hstep⟩
  · obtain ⟨v, hlast⟩ := exists_done_of_again hstep
    exact ⟨2, Nat.le_refl 2, v, .again hstep (.done hlast)⟩

/-- A call is what its loop ends with. -/
theorem exists_ends_advance (s : Sender) (chars : CharRing) (symbols : SymbolRing) :
    ∃ k ≤ 2, Ends { sender := s, chars, symbols } k (s.advance chars symbols) := by
  obtain ⟨k, hk, u, h⟩ := exists_ends { sender := s, chars, symbols }
  have hadvance : s.advance chars symbols = u := h.settle_eq hk
  exact ⟨k, hk, hadvance ▸ h⟩

end Turn

/-! ### What a call takes and gives -/

variable {s : Sender} {chars : CharRing} {symbols : SymbolRing} {t : Turn}

/-- A call takes up one symbol at most. -/
theorem Effect.length_symbols_le (h : Effect s t) :
    (t.signals.filterMap Signal.symbol?).length ≤ 1 := by
  cases h with
  | rest _ _ hsignals | hold _ _ hsignals | lift _ _ hsignals =>
    rw [hsignals]
    decide
  | @strike x _ _ hsignals => simp [hsignals, filterMap_symbol?_signalsOf]

/-- A call moves the key once at most. -/
theorem Effect.length_keying_le (h : Effect s t) :
    (t.signals.filter Signal.isKeying).length ≤ 1 := by
  rcases h.filter_isKeying with ⟨hkeying, -⟩ | ⟨hkeying, -⟩ <;> simp [hkeying]

/-- A call types what a letter stands for at most. -/
theorem Effect.length_bytes_le (h : Effect s t) : t.bytes.length ≤ 4 := by
  cases h with
  | rest _ _ _ hheard | hold _ _ _ hheard | lift _ _ _ hheard =>
    rw [(Prod.mk.inj hheard).1]
    decide
  | @strike x _ _ _ hheard =>
    rw [(Prod.mk.inj hheard).1]
    cases x with
    | dit | dah => exact Nat.zero_le 4
    | space => exact s.decoder.length_letter_le.1

/-- **A call moves symbols from one end of their queue to the other, and loses none.** It takes off
what it takes up, and queues what it expands, which is a byte at most and only if no symbol
waits. -/
theorem Call.moves (h : Call s chars symbols t) (hsymbols : symbols.WellFormed) :
    ∃ taken, taken.length ≤ 1 ∧ chars.toList = taken ++ t.chars.toList ∧
      (taken ≠ [] → symbols.toList = []) ∧
      symbols.toList ++ taken.flatMap Code.played =
        t.signals.filterMap Signal.symbol? ++ t.symbols.toList := by
  cases h with
  | wait | settle | release | pass => exact ⟨[], by simp, rfl, by simp, List.append_nil _⟩
  | @swallow byte rest hs hq hc he =>
    have hnone := Ring.pop?_eq_none_iff.mp hq
    refine ⟨[byte], by simp, Ring.toList_of_pop? hc, fun _ => hnone, ?_⟩
    simp [hnone, Code.played, he]
  | @blank rest hs hq hc =>
    have hnone := Ring.pop?_eq_none_iff.mp hq
    refine ⟨[0x20], by simp, Ring.toList_of_pop? hc, fun _ => hnone, ?_⟩
    simp [hnone, toList_blank hsymbols hq]
  | @expand byte run chars' x rest hs hq hc hb he hx =>
    have hnone := Ring.pop?_eq_none_iff.mp hq
    have hrest := (Ring.toList_of_pop? hx).symm.trans (toList_expanded hsymbols hq he)
    refine ⟨[byte], by simp, Ring.toList_of_pop? hc, fun _ => hnone, ?_⟩
    simp [hnone, taking, filterMap_symbol?_signalsOf, hrest]
  | wake hs hx | next hs hx =>
    refine ⟨[], by simp, rfl, by simp, ?_⟩
    simp [taking, filterMap_symbol?_signalsOf, Ring.toList_of_pop? hx]

/-- **One call of the sender is bounded, and evicts nothing.** Its loop ends after two steps at
most. It takes one byte at most off its queue, and only if no symbol waits; it takes one symbol at
most off the other, and all that waited there or was queued in the call is either taken up or still
there. It moves the key once at most, and types four bytes at most. -/
theorem advance_bounded (s : Sender) (chars : CharRing) {symbols : SymbolRing}
    (hsymbols : symbols.WellFormed) :
    let t := s.advance chars symbols
    (∃ k ≤ 2, Turn.Ends { sender := s, chars, symbols } k t) ∧
      (∃ taken heard, chars.toList = taken ++ t.chars.toList ∧ taken.length ≤ 1 ∧
        symbols.toList ++ taken.flatMap Code.played = heard ++ t.symbols.toList ∧
        heard.length ≤ 1 ∧ (taken ≠ [] → symbols.toList = []) ∧
        (taken.flatMap Code.played).length ≤ 8) ∧
      (t.signals.filter Signal.isKeying).length ≤ 1 ∧ t.bytes.length ≤ 4 := by
  intro t
  have hcall : Call s chars symbols t := call_advance s chars symbols
  obtain ⟨taken, hone, hchars, hempty, hkept⟩ := hcall.moves hsymbols
  refine ⟨Turn.exists_ends_advance s chars symbols, ⟨taken, _, hchars, hone, hkept,
    hcall.effect.length_symbols_le, hempty, ?_⟩, hcall.effect.length_keying_le,
    hcall.effect.length_bytes_le⟩
  rcases taken with _ | ⟨byte, _ | ⟨other, more⟩⟩
  · exact Nat.zero_le 8
  · simpa using Code.length_played_le byte
  · simp at hone

/-- The dollar sign has the longest code. Its seven elements and the space after them are queued and
the first one is taken up in the same call, so seven symbols wait. -/
theorem advance_bounded_dollar :
    let chars := CharRing.empty.push 0x24
    let t := fresh.advance chars .empty
    SymbolRing.empty.WellFormed ∧ t.signals = [.symbol .dit, .keyDown] ∧
      t.symbols.toList = [.dit, .dit, .dah, .dit, .dit, .dah, .space] ∧
      ∃ k ≤ 2, Turn.Ends { sender := fresh, chars, symbols := .empty } k t := by
  intro chars t
  have hempty : SymbolRing.empty.WellFormed := Ring.wellFormed_empty 16 Symbol.space (by decide)
  exact ⟨hempty, by decide, by decide, (advance_bounded fresh chars hempty).1⟩

end Sender

end MorseKeyboard
