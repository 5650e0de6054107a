import Mathlib.Data.List.Induction
import MorseKeyboard.Decoder

/-!
# What a played byte is heard as

A byte is played as the elements of its code and a space after them
(`MorseKeyboard.Code.played`), and a decoder that listens to that run hears a short text
(`MorseKeyboard.Code.image`). The two sides are tables of their own: one assigns a pattern to a
byte, the other a text to a pattern. What joins them is the run in between.

* **A pattern is its run**: writing the elements of a pattern gives the pattern back
  (`MorseKeyboard.Pattern.ofElements_elements`), which is the other half of
  `MorseKeyboard.Pattern.elements_ofElements`.
* **A letter is heard as the meaning of its pattern**
  (`MorseKeyboard.Decoder.hearAll_letter`), as long as it has no more elements than the longest
  procedural signal; a longer one is heard as nothing (`MorseKeyboard.Decoder.hearAll_reading`).
* **The two tables agree**: what is read from a pattern is played as that pattern
  (`MorseKeyboard.Code.pattern?_of_letter?`), and but for the blank and the dollar sign the pattern
  of a byte is read as its small letter (`MorseKeyboard.Code.letter?_of_pattern?`). Both are decided
  entry by entry.
* **A played byte is heard as its image** (`MorseKeyboard.Decoder.hearAll_played`), and the decoder
  is as fresh afterwards as it was before, so a text is heard byte by byte
  (`MorseKeyboard.Decoder.hearAll_flatMap_played`).
-/

namespace MorseKeyboard

/-! ### A pattern is its run -/

namespace Pattern

theorem ofElements_append (run : List Symbol) (s : Symbol) :
    ofElements (run ++ [s]) = extend (ofElements run) s := by
  rw [ofElements, List.foldl_append, List.foldl_cons, List.foldl_nil, ofElements]

/-- A pattern is its upper bits with the last element added. -/
theorem extend_half (p : Nat) : extend (p / 2) (elementAt p 0) = p := by
  rcases Nat.mod_two_eq_zero_or_one p with h | h
  · have hdit : elementAt p 0 = .dit := by simp [elementAt, Nat.testBit_zero, h]
    rw [hdit, extend, bit]
    omega
  · have hdah : elementAt p 0 = .dah := by simp [elementAt, Nat.testBit_zero, h]
    rw [hdah, extend, bit]
    omega

theorem isElement_elementAt (p i : Nat) : (elementAt p i).isElement = true := by
  rw [elementAt]
  split <;> rfl

/-- A pattern has elements only. -/
theorem isElement_of_mem_elements {p : Nat} {s : Symbol} (h : s ∈ elements p) :
    s.isElement = true := by
  obtain ⟨i, -, rfl⟩ := List.mem_map.mp h
  exact isElement_elementAt p i

theorem ofElements_ne_zero (run : List Symbol) : ofElements run ≠ 0 := by
  induction run using List.reverseRecOn with
  | nil => decide
  | append_singleton run s ih =>
    rw [ofElements_append]
    exact extend_ne_zero ih s

theorem length_elements (p : Nat) : (elements p).length = p.log2 := by
  rw [elements, List.length_map, List.length_reverse, List.length_range]

/-- A pattern has a bit for every element after its start bit. -/
theorem log2_ofElements {run : List Symbol} (h : ∀ s ∈ run, s.isElement = true) :
    (ofElements run).log2 = run.length := by
  rw [← length_elements, elements_ofElements h]

/-- Only the empty run is written as the bare start bit. -/
theorem ofElements_eq_seed_iff {run : List Symbol} (h : ∀ s ∈ run, s.isElement = true) :
    ofElements run = seed ↔ run = [] := by
  refine ⟨?_, ?_⟩
  · intro hseed
    have hlog := log2_ofElements h
    rw [hseed] at hlog
    exact List.length_eq_zero_iff.mp hlog.symm
  · rintro rfl
    rfl

/-- **Writing the elements of a pattern gives the pattern back.** -/
theorem ofElements_elements {p : Nat} (hp : p ≠ 0) : ofElements (elements p) = p := by
  induction p using Nat.strongRecOn with
  | _ p ih =>
    rcases Nat.lt_or_ge p 2 with hlt | hge
    -- the start bit alone has no elements
    · obtain rfl : p = 1 := by omega
      rfl
    -- any other pattern is its half with one more element at the end
    · have hhalf : p / 2 ≠ 0 := by omega
      have hrun : elements p = elements (p / 2) ++ [elementAt p 0] := by
        conv_lhs => rw [← extend_half p]
        exact elements_extend hhalf (isElement_elementAt p 0)
      rw [hrun, ofElements_append, ih (p / 2) (by omega) hhalf, extend_half]

end Pattern

/-! ### Listening -/

namespace Decoder

@[simp] theorem hearAll_nil (d : Decoder) : d.hearAll [] = ([], d) := rfl

theorem hearAll_cons (d : Decoder) (s : Symbol) (run : List Symbol) :
    d.hearAll (s :: run) =
      ((d.hear s).1 ++ ((d.hear s).2.hearAll run).1, ((d.hear s).2.hearAll run).2) := rfl

/-- **Listening to two runs is listening to one after the other.** -/
theorem hearAll_append (d : Decoder) (run more : List Symbol) :
    d.hearAll (run ++ more) =
      ((d.hearAll run).1 ++ ((d.hearAll run).2.hearAll more).1,
        ((d.hearAll run).2.hearAll more).2) := by
  induction run generalizing d with
  | nil => rfl
  | cons s run ih => simp only [List.cons_append, hearAll_cons, ih, List.append_assoc]

theorem hear_element (d : Decoder) {s : Symbol} (hs : s.isElement = true) :
    d.hear s = ([], d.extend s) := by
  cases s with
  | dit => rfl
  | dah => rfl
  | space => exact absurd hs (by decide)

@[simp] theorem hear_space (d : Decoder) : d.hear .space = (d.letter, fresh) := rfl

/-- With room for another element the pattern takes it in. -/
theorem extend_of_lt {d : Decoder} (hl : d.tooLong = false) (hp : d.pattern < limit) (s : Symbol) :
    d.extend s = { d with pattern := Pattern.extend d.pattern s } := by
  rw [extend, hl, if_neg (by decide), if_neg (Nat.not_le.mpr hp)]

/-- Elements make no text, and the pattern takes in all of them that it has room for. -/
theorem hearAll_elements {run : List Symbol} (h : ∀ s ∈ run, s.isElement = true) {d : Decoder}
    (hl : d.tooLong = false) (hp : d.pattern ≠ 0)
    (hroom : d.pattern.log2 + run.length ≤ Code.patternBits - 1) :
    d.hearAll run = ([], { d with pattern := run.foldl Pattern.extend d.pattern }) := by
  induction run generalizing d with
  | nil => rfl
  | cons s run ih =>
    have hs : s.isElement = true := h s List.mem_cons_self
    -- there is room for `s`, and what room is left after it is enough for the rest of the run
    have hlt : d.pattern < limit := by
      rw [limit, Nat.one_shiftLeft]
      refine (Nat.log2_lt hp).mp ?_
      rw [List.length_cons] at hroom
      omega
    have hlog : (Pattern.extend d.pattern s).log2 + run.length ≤ Code.patternBits - 1 := by
      rw [Pattern.log2_extend hp]
      rw [List.length_cons] at hroom
      omega
    have hrest : ({ d with pattern := Pattern.extend d.pattern s } : Decoder).hearAll run =
        ([], { d with pattern := run.foldl Pattern.extend (Pattern.extend d.pattern s) }) :=
      ih (fun t ht => h t (List.mem_cons_of_mem _ ht)) hl (Pattern.extend_ne_zero hp s) hlog
    rw [hearAll_cons, hear_element d hs, extend_of_lt hl hlt, hrest]
    rfl

/-- **A letter is heard as the meaning of its pattern.** -/
theorem hearAll_letter {run : List Symbol} (h : ∀ s ∈ run, s.isElement = true)
    (hlen : run.length ≤ Code.patternBits - 1) :
    fresh.hearAll (run ++ [.space]) = (meaning (Pattern.ofElements run), fresh) := by
  have hrun : fresh.hearAll run = ([], { fresh with pattern := Pattern.ofElements run }) :=
    hearAll_elements h rfl (by decide) (by
      rw [show fresh.pattern.log2 = 0 from rfl, Nat.zero_add]
      exact hlen)
  rw [hearAll_append, hrun]
  simp [hearAll_cons, letter, fresh]

/-! ### Letters of any length -/

/-- The text that a letter of some elements is heard as: the character of the alphabet, or else the
procedural signal, or else nothing. A letter with more elements than any signal is nothing. -/
def reading (run : List Symbol) : List UInt8 :=
  if Code.patternBits - 1 < run.length then []
  else match Code.letter? (Pattern.ofElements run) with
    | some byte => [byte]
    | none =>
      match Code.prosign? (Pattern.ofElements run) with
      | some p => signalText p
      | none => []

/-- A letter that is too long already stays so. -/
theorem hearAll_of_tooLong {run : List Symbol} (h : ∀ s ∈ run, s.isElement = true) {d : Decoder}
    (hl : d.tooLong = true) : d.hearAll run = ([], d) := by
  induction run with
  | nil => rfl
  | cons s run ih =>
    have hextend : d.extend s = d := by rw [extend, hl, if_pos rfl]
    rw [hearAll_cons, hear_element d (h s List.mem_cons_self), hextend,
      ih fun t ht => h t (List.mem_cons_of_mem _ ht)]
    rfl

/-- An element for which there is no room makes the letter too long. -/
theorem tooLong_extend {d : Decoder} (hp : limit ≤ d.pattern) (s : Symbol) :
    (d.extend s).tooLong = true := by
  rw [extend]
  split
  · next hl => exact hl
  · rfl

/-- A full pattern has no room for another element. -/
theorem limit_le_ofElements {run : List Symbol} (h : ∀ s ∈ run, s.isElement = true)
    (hlen : run.length = Code.patternBits - 1) : limit ≤ Pattern.ofElements run := by
  rw [limit, Nat.one_shiftLeft, ← hlen, ← Pattern.log2_ofElements h]
  exact Nat.log2_self_le (Pattern.ofElements_ne_zero run)

/-- **A letter with too many elements is heard as nothing.** -/
theorem hearAll_longLetter {run : List Symbol} (h : ∀ s ∈ run, s.isElement = true)
    (hlen : Code.patternBits - 1 < run.length) :
    fresh.hearAll (run ++ [.space]) = ([], fresh) := by
  -- the first nine elements fill the pattern, and the tenth finds no room
  obtain ⟨head, s, tail, hrun, hhead⟩ :
      ∃ head s tail, run = head ++ s :: tail ∧ head.length = Code.patternBits - 1 := by
    refine ⟨run.take (Code.patternBits - 1), run[Code.patternBits - 1],
      run.drop (Code.patternBits - 1 + 1), ?_, List.length_take_of_le (Nat.le_of_lt hlen)⟩
    rw [List.getElem_cons_drop, List.take_append_drop]
  have helements : ∀ t ∈ head, t.isElement = true := by
    intro t ht
    exact h t (hrun ▸ List.mem_append_left _ ht)
  have hs : s.isElement = true := h s (hrun ▸ List.mem_append_right _ List.mem_cons_self)
  have htail : ∀ t ∈ tail, t.isElement = true := by
    intro t ht
    exact h t (hrun ▸ List.mem_append_right _ (List.mem_cons_of_mem s ht))
  have hfull : fresh.hearAll head = ([], { fresh with pattern := Pattern.ofElements head }) :=
    hearAll_elements helements rfl (by decide) (Nat.le_of_eq (by rw [hhead]; rfl))
  have hlong := tooLong_extend (d := { fresh with pattern := Pattern.ofElements head })
    (limit_le_ofElements helements hhead) s
  rw [hrun, List.append_assoc, hearAll_append, hfull, List.cons_append, hearAll_cons,
    hear_element _ hs, hearAll_append, hearAll_of_tooLong htail hlong, hearAll_cons, hear_space,
    letter, hlong, if_pos rfl]
  rfl

/-- **A letter of any length is heard as its reading.** -/
theorem hearAll_reading {run : List Symbol} (h : ∀ s ∈ run, s.isElement = true) (hne : run ≠ []) :
    fresh.hearAll (run ++ [.space]) = (reading run, fresh) := by
  rw [reading]
  split
  · next hlen => exact hearAll_longLetter h hlen
  · next hlen =>
    -- a letter with an element is not a blank
    have hseed : Pattern.ofElements run ≠ Pattern.seed := by
      rwa [Ne, Pattern.ofElements_eq_seed_iff h]
    have hletter := hearAll_letter h (Nat.le_of_not_lt hlen)
    rw [meaning, if_neg hseed] at hletter
    exact hletter

end Decoder

/-! ### Bytes -/

namespace Code

/-- What a byte is expanded into: the elements of its code and the space after them, or nothing if
it has no code. A blank has no elements, so it is a space alone. -/
def played (byte : UInt8) : List Symbol :=
  match elements? byte with
  | some run => run ++ [.space]
  | none => []

/-- The small letter of a capital; any other byte itself. -/
def lowercase (byte : UInt8) : UInt8 :=
  if 0x41 ≤ byte ∧ byte ≤ 0x5A then byte + 0x20 else byte

/-- The text that a byte comes back as when what is played for it is listened to. -/
def image (byte : UInt8) : List UInt8 :=
  if byte = 0x20 then [0x20]
  else if byte = 0x24 then [0x2F, 0x24]
  else if byte = 0x60 then [0x27]
  else if (pattern? byte).isSome then [lowercase byte]
  else []

/-! ### The two tables -/

theorem lookup?_eq_some_iff {α : Type} [DecidableEq α] {table : Vector α 128} {zero entry : α}
    {i : Nat} : lookup? table zero i = some entry ↔ table[i]? = some entry ∧ entry ≠ zero := by
  rw [lookup?, Option.filter_eq_some_iff, decide_eq_true_eq]

theorem letter?_bounds {p : Nat} {byte : UInt8} (h : letter? p = some byte) :
    2 ≤ p ∧ p ≤ alphabetMax := by
  by_contra hrange
  rw [letter?, if_neg hrange] at h
  cases h

/-- Only bytes below 128 have a code, and it fits into a byte. -/
theorem pattern?_bounds {byte : UInt8} {p : Nat} (h : pattern? byte = some p) :
    byte.toNat < 128 ∧ p ≠ 0 ∧ p < 256 := by
  obtain ⟨entry, hentry, rfl⟩ := Option.map_eq_some_iff.mp h
  obtain ⟨hplace, hzero⟩ := lookup?_eq_some_iff.mp hentry
  refine ⟨?_, fun hp => hzero (UInt8.toNat_inj.mp hp), entry.toNat_lt⟩
  by_contra hbeyond
  rw [Vector.getElem?_eq_none (Nat.le_of_not_lt hbeyond)] at hplace
  cases hplace

/-- **What is read is played as it was read**: the second table has no entry that the first one does
not have. -/
theorem pattern?_of_letter? {p : Nat} {byte : UInt8} (h : letter? p = some byte) :
    pattern? byte = some p := by
  have htable : ∀ p < 128, ∀ byte ∈ letter? p, pattern? byte = some p := by decide +kernel
  exact htable p (Nat.lt_of_le_of_lt (letter?_bounds h).2 (by decide)) byte h

/-- **What is played is read as its small letter**, and a grave accent as an apostrophe: but for the
blank and the dollar sign, the first table has no entry that the second one does not have. -/
theorem letter?_of_pattern? {byte : UInt8} {p : Nat} (h : pattern? byte = some p)
    (hblank : byte ≠ 0x20) (hdollar : byte ≠ 0x24) :
    letter? p = some (if byte = 0x60 then 0x27 else lowercase byte) := by
  have htable : ∀ i < 128, ∀ p ∈ pattern? (.ofNat i),
      UInt8.ofNat i ≠ 0x20 → UInt8.ofNat i ≠ 0x24 →
      letter? p = some (if UInt8.ofNat i = 0x60 then 0x27 else lowercase (.ofNat i)) := by
    decide +kernel
  have hbyte := htable byte.toNat (pattern?_bounds h).1 p
  rw [UInt8.ofNat_toNat] at hbyte
  exact hbyte h hblank hdollar

/-- No letter is a blank. -/
theorem letter?_ne_blank (p : Nat) : letter? p ≠ some 0x20 := by
  intro h
  have hp : some Pattern.seed = some p := pattern?_of_letter? h
  exact absurd (letter?_bounds h).1 (Option.some.inj hp ▸ by decide)

/-- No two procedural signals have one pattern. -/
theorem prosign?_of_mem_prosigns : ∀ signal ∈ prosigns, prosign? signal.pattern = some signal := by
  decide

/-- **A pattern is looked up as the procedural signal that has it.** -/
theorem prosign?_eq_some_iff {p : Nat} {signal : Prosign} :
    prosign? p = some signal ↔ signal ∈ prosigns ∧ signal.pattern = p := by
  refine ⟨?_, ?_⟩
  · intro h
    rw [prosign?] at h
    exact ⟨List.mem_of_find?_eq_some h, by simpa using List.find?_some h⟩
  · rintro ⟨hmem, rfl⟩
    exact prosign?_of_mem_prosigns signal hmem

/-- **What is played for a byte has at most seven elements, and no space among them.** -/
theorem elements?_bounds {byte : UInt8} {run : List Symbol} (h : elements? byte = some run) :
    run.length ≤ 7 ∧ ∀ s ∈ run, s.isElement = true := by
  obtain ⟨p, hp, rfl⟩ := Option.map_eq_some_iff.mp h
  obtain ⟨-, hne, hlt⟩ := pattern?_bounds hp
  rw [Pattern.length_elements]
  exact ⟨Nat.le_of_lt_succ ((Nat.log2_lt hne).mpr hlt),
    fun s hs => Pattern.isElement_of_mem_elements hs⟩

/-- **The pattern of a byte means the byte's image.** -/
theorem meaning_of_pattern? {byte : UInt8} {p : Nat} (h : pattern? byte = some p) :
    Decoder.meaning p = image byte := by
  by_cases hblank : byte = 0x20
  · rw [hblank] at h ⊢
    rw [← Option.some.inj h]
    rfl
  by_cases hdollar : byte = 0x24
  -- the dollar sign is no letter: its pattern is the procedural signal of that name
  · rw [hdollar] at h ⊢
    rw [← Option.some.inj h]
    decide
  have hletter := letter?_of_pattern? h hblank hdollar
  have hseed : p ≠ Pattern.seed := by
    rintro rfl
    exact absurd (letter?_bounds hletter).1 (by decide)
  rw [Decoder.meaning, if_neg hseed, hletter, image, if_neg hblank, if_neg hdollar, h]
  by_cases hgrave : byte = 0x60
  · rw [if_pos hgrave, if_pos hgrave]
  · rw [if_neg hgrave, if_neg hgrave]
    rfl

end Code

namespace Decoder

/-- **A played byte is heard as its image**, and nothing of it is left in the decoder. -/
theorem hearAll_played (byte : UInt8) :
    fresh.hearAll (Code.played byte) = (Code.image byte, fresh) := by
  rcases hp : Code.pattern? byte with _ | p
  -- a byte without a code is none of those that `Code.image` singles out
  · have himage : Code.image byte = [] := by
      have hblank : byte ≠ 0x20 := by rintro rfl; cases hp
      have hdollar : byte ≠ 0x24 := by rintro rfl; cases hp
      have hgrave : byte ≠ 0x60 := by rintro rfl; exact absurd hp (by decide)
      rw [Code.image, if_neg hblank, if_neg hdollar, if_neg hgrave, hp]
      rfl
    rw [Code.played, Code.elements?, hp, himage]
    rfl
  · have he : Code.elements? byte = some (Pattern.elements p) := by rw [Code.elements?, hp]; rfl
    obtain ⟨hlen, hrun⟩ := Code.elements?_bounds he
    rw [Code.played, he, hearAll_letter hrun (Nat.le_trans hlen (by decide)),
      Pattern.ofElements_elements (Code.pattern?_bounds hp).2.1, Code.meaning_of_pattern? hp]

/-- **A played text is heard byte by byte.** -/
theorem hearAll_flatMap_played (bytes : List UInt8) :
    fresh.hearAll (bytes.flatMap Code.played) = (bytes.flatMap Code.image, fresh) := by
  induction bytes with
  | nil => rfl
  | cons byte bytes ih => simp only [List.flatMap_cons, hearAll_append, hearAll_played, ih]

end Decoder

end MorseKeyboard
