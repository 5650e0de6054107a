import MorseKeyboard.Proofs.Sender.Desk

/-!
# Text comes back

Bytes that are queued are expanded, played and listened to, and the decoder types them again. What
is typed in the end can be told at every moment before: it is the text typed so far, and after it
what the decoder, as it stands, would make of the symbols still queued and of those that the bytes
still queued will be expanded into. This is `MorseKeyboard.Sender.Desk.outlook`, and **no call
changes it** (`MorseKeyboard.Sender.Desk.outlook_call`), whatever the state of the sender: a call
moves text from one part of the outlook to another.

Every call does move something, or the time in a state, until there is nothing left to move:
`MorseKeyboard.Sender.Desk.weight` counts down with every call of a sender that is not at rest
(`MorseKeyboard.Sender.Desk.weight_call_lt`). At rest the outlook is the text typed, so the text
that comes back is what the outlook was in the beginning
(`MorseKeyboard.Sender.Desk.exists_calls_text_eq`).
-/

namespace MorseKeyboard.Sender

/-- The calls it takes to leave a state, and one more if the sender is then about to look for
something to send. -/
def State.weight : State → Nat
  | idle => 0
  | hyper | sendBit => 1
  | charSp | wordSp3 | bitSp => 2
  | wordSp2 | dah2 => 3
  | wordSp | dah => 4

theorem State.weight_successor? {state next : State} (h : state.successor? = some next) :
    next.weight < state.weight := by
  cases state <;> cases h <;> decide

theorem State.weight_stateAfter_le (s : Symbol) : (Turn.stateAfter s).weight ≤ 4 := by
  cases s <;> decide

namespace Desk

/-- The two queues of a desk are in order. -/
structure WellFormed (d : Desk) : Prop where
  chars : d.chars.WellFormed
  symbols : d.symbols.WellFormed

/-- Nothing is left to do. -/
structure AtRest (d : Desk) : Prop where
  idle : d.sender.state = .idle
  chars : d.chars.toList = []
  symbols : d.symbols.toList = []

/-- **The text typed in the end**: what is typed already, then what the decoder will make of the
symbols in the queue and of those that the queued bytes are expanded into. -/
def outlook (d : Desk) : List UInt8 :=
  d.text ++ (d.sender.decoder.hearAll (d.symbols.toList ++ d.chars.toList.flatMap Code.played)).1

/-- The calls still to come, counted generously: a symbol takes fewer than five of them, a byte has
at most eight symbols. -/
def weight (d : Desk) : Nat :=
  d.sender.state.weight + 5 * d.symbols.count + 64 * d.chars.count

variable {d : Desk}

/-! ### The outlook stays -/

/-- Taking up a symbol moves what the decoder makes of it into the text. -/
theorem outlook_taking (d : Desk) (chars : CharRing) (x : Symbol) (rest : SymbolRing)
    (rate : Option Rate) :
    (d.take (d.sender.taking chars x rest rate)).outlook =
      d.text ++ (d.sender.decoder.hearAll
        (x :: rest.toList ++ chars.toList.flatMap Code.played)).1 := by
  rw [outlook, List.cons_append, Decoder.hearAll_cons, ← List.append_assoc]
  rfl

/-- **No call changes the outlook.** -/
theorem outlook_call (h : d.WellFormed) : d.call.outlook = d.outlook := by
  obtain ⟨t, ht, hcall⟩ := d.exists_call
  rw [hcall]
  cases ht with
  | wait | settle | release | pass => simp only [outlook, take, List.append_nil]
  -- what is swallowed would have been played as nothing
  | swallow hs hq hc he =>
    rw [outlook, outlook, Ring.toList_of_pop? hc, List.flatMap_cons, Code.played, he]
    simp only [take, List.append_nil, List.nil_append]
  -- what a byte is played as moves from the bytes still queued to the symbols still queued
  | blank hs hq hc =>
    rw [outlook, outlook, Ring.toList_of_pop? hc, List.flatMap_cons, Ring.pop?_eq_none_iff.mp hq]
    simp only [take, List.append_nil, List.nil_append, toList_blank h.symbols hq]
  | expand hs hq hc hb he hx =>
    rw [outlook_taking, outlook, Ring.toList_of_pop? hc, List.flatMap_cons,
      Ring.pop?_eq_none_iff.mp hq, List.nil_append, ← toList_expanded h.symbols hq he,
      Ring.toList_of_pop? hx]
  -- what the decoder makes of a symbol moves into the text
  | wake hs hx | next hs hx => rw [outlook_taking, outlook, Ring.toList_of_pop? hx]

theorem WellFormed.call (h : d.WellFormed) : d.call.WellFormed := by
  obtain ⟨t, ht, hcall⟩ := d.exists_call
  obtain ⟨hchars, hsymbols⟩ := ht.wellFormed h.chars h.symbols
  rw [hcall]
  exact ⟨hchars, hsymbols⟩

/-! ### The calls come to an end -/

/-- **Every call of a sender that is not at rest brings the rest nearer.** -/
theorem weight_call_lt (h : d.WellFormed) (hr : ¬d.AtRest) : d.call.weight < d.weight := by
  obtain ⟨t, ht, hcall⟩ := d.exists_call
  rw [hcall, weight, weight]
  cases ht with
  | wait hs hq hc =>
    exact absurd ⟨hs, Ring.pop?_eq_none_iff.mp hc, Ring.pop?_eq_none_iff.mp hq⟩ hr
  | swallow hs hq hc he =>
    simp only [take, Ring.count_of_pop? hc]
    omega
  | blank hs hq hc =>
    have hcount : (d.symbols.push .space).count = 1 := by
      rw [← Ring.length_toList, toList_blank h.symbols hq]
      rfl
    simp only [take, hs, hcount, Ring.count_of_pop? hc, State.weight]
    omega
  -- the byte is worth more than its seven symbols, the space and the state they are taken up in
  | @expand byte run chars' x rest hs hq hc hb he hx =>
    have hcount : rest.count + 1 = run.length + 1 := by
      rw [← Ring.count_of_pop? hx, ← Ring.length_toList, toList_expanded h.symbols hq he,
        Code.played, he, List.length_append, List.length_singleton]
    have hrun := (Code.elements?_bounds he).1
    have hstate := State.weight_stateAfter_le x
    simp only [take, taking, Ring.count_of_pop? hc]
    omega
  | @wake x rest hs hx =>
    have hstate := State.weight_stateAfter_le x
    simp only [take, taking, Ring.count_of_pop? hx]
    omega
  | @next x rest hs hx =>
    have hstate := State.weight_stateAfter_le x
    simp only [take, taking, Ring.count_of_pop? hx]
    omega
  | settle hs =>
    have hstate : 0 < d.sender.state.weight := by
      rcases hs with hs | ⟨hs, -⟩ <;> rw [hs] <;> decide
    have hidle : State.idle.weight = 0 := rfl
    simp only [take, hidle]
    omega
  | release hs =>
    simp only [take, hs, State.weight]
    omega
  | pass hs =>
    have hstate := State.weight_successor? hs
    simp only [take]
    omega

/-- **At rest a call does nothing.** -/
theorem AtRest.call (hr : d.AtRest) : d.call.AtRest ∧ d.call.text = d.text := by
  have hq : d.symbols.pop? = none := Ring.pop?_eq_none_iff.mpr hr.symbols
  have hc : d.chars.pop? = none := Ring.pop?_eq_none_iff.mpr hr.chars
  have hidle := hr.idle
  obtain ⟨t, ht, hcall⟩ := d.exists_call
  rw [hcall]
  cases ht with
  | wait => exact ⟨⟨hr.idle, hr.chars, hr.symbols⟩, List.append_nil _⟩
  | swallow hs hq' hc' | blank hs hq' hc' | expand hs hq' hc' =>
    rw [hc] at hc'
    cases hc'
  | wake hs hx | next hs hx =>
    rw [hq] at hx
    cases hx
  | settle hs =>
    rw [hidle] at hs
    simp at hs
  | release hs =>
    rw [hidle] at hs
    cases hs
  | pass hs =>
    rw [hidle] at hs
    cases hs

theorem AtRest.calls (hr : d.AtRest) (n : Nat) :
    (d.calls n).AtRest ∧ (d.calls n).text = d.text :=
  calls_induction (P := fun e => e.AtRest ∧ e.text = d.text)
    (fun _ h => ⟨h.1.call.1, h.1.call.2.trans h.2⟩) ⟨hr, rfl⟩ n

/-- **A sender comes to rest**, having typed its outlook. -/
theorem exists_calls_atRest (h : d.WellFormed) :
    ∃ n, (d.calls n).AtRest ∧ (d.calls n).text = d.outlook := by
  induction hw : d.weight using Nat.strongRecOn generalizing d with
  | _ w ih =>
    by_cases hr : d.AtRest
    -- at rest both queues are empty, and the outlook is what was typed
    · refine ⟨0, hr, ?_⟩
      rw [outlook, hr.symbols, hr.chars]
      exact (List.append_nil _).symm
    · obtain ⟨n, hrest, htext⟩ := ih d.call.weight (hw ▸ weight_call_lt h hr) h.call rfl
      refine ⟨1 + n, ?_⟩
      rw [calls_add]
      exact ⟨hrest, htext.trans (outlook_call h)⟩

/-- **Text comes back.** Bytes are queued at once at a desk whose queues are empty and whose decoder
is between two letters; the sender may be in any state. After finitely many calls it is at rest, and
from then on the text typed is the images of the last 128 of those bytes, in order. -/
theorem exists_calls_text_eq (state : State) {chars : CharRing} {symbols : SymbolRing}
    (hchars : chars.WellFormed) (hnoChars : chars.toList = [])
    (hsymbols : symbols.WellFormed) (hnoSymbols : symbols.toList = []) (bytes : List UInt8) :
    ∃ n, ∀ m, n ≤ m →
      ((between state (chars.pushAll bytes) symbols).calls m).AtRest ∧
      ((between state (chars.pushAll bytes) symbols).calls m).text =
        (Ring.newest 128 bytes).flatMap Code.image := by
  have hwf : (between state (chars.pushAll bytes) symbols).WellFormed :=
    ⟨hchars.pushAll bytes, hsymbols⟩
  have houtlook : (between state (chars.pushAll bytes) symbols).outlook =
      (Ring.newest 128 bytes).flatMap Code.image := by
    simp only [outlook, between, hnoSymbols, Ring.toList_pushAll hchars, hnoChars,
      List.nil_append, Decoder.hearAll_flatMap_played]
  obtain ⟨n, hrest, htext⟩ := exists_calls_atRest hwf
  refine ⟨n, ?_⟩
  intro m hm
  obtain ⟨k, rfl⟩ := Nat.exists_eq_add_of_le hm
  rw [calls_add]
  obtain ⟨hrest', htext'⟩ := hrest.calls k
  exact ⟨hrest', htext'.trans (htext.trans houtlook)⟩

/-- In the middle of a dah, a capital, a blank, a dollar sign, a grave accent and a tilde are
queued: all come back but the tilde, which has no code. -/
theorem exists_calls_text_eq_of_dah2 :
    ∃ n, ∀ m, n ≤ m →
      ((between .dah2 (CharRing.empty.pushAll [0x53, 0x20, 0x24, 0x60, 0x7E])
        SymbolRing.empty).calls m).text = [0x73, 0x20, 0x2F, 0x24, 0x27] := by
  obtain ⟨n, hn⟩ := exists_calls_text_eq .dah2 (Ring.wellFormed_empty 128 0 (by decide)) rfl
    (Ring.wellFormed_empty 16 .space (by decide)) rfl [0x53, 0x20, 0x24, 0x60, 0x7E]
  refine ⟨n, fun m hm => (hn m hm).2.trans ?_⟩
  decide

end Desk

end MorseKeyboard.Sender
