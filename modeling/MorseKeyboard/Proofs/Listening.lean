import Mathlib.Data.List.DropRight
import MorseKeyboard.Proofs.Decoding

/-!
# What a decoder makes of a run

A decoder is given symbols, and now and then it is told to forget the letter it is listening to. The
spaces cut such a run into letters, and of each piece only those elements count that came after its
last reset (`MorseKeyboard.Decoder.letters`); what has come since the last space or reset is a
letter that is not over yet (`MorseKeyboard.Decoder.unfinished`). **The text that is written is that
of the letters**, each for itself (`MorseKeyboard.Decoder.heardAs`), in their order.

What carries this through a run is that the decoder shows the letter that is not over yet: its
pattern is the pattern of the first nine elements of that letter, and the flag says that there are
more (`MorseKeyboard.Decoder.after_eq_listening`). So the pattern never has more than ten bits.

Which text a letter has is told by two lists of signs, `MorseKeyboard.Code.alphabet` before
`MorseKeyboard.Code.prosigns`, and `MorseKeyboard.Decoder.Means` says how without a search through
them. The alphabet is the Morse code as it is learned, a character and its elements; **a pattern is
looked up as the sign that has it** (`MorseKeyboard.Code.letter?_eq_some_iff`).
-/

namespace MorseKeyboard

/-! ### The alphabet -/

namespace Code

/-- The characters with a code of one to six elements, each with its pattern. Letters are in lower
case. -/
def alphabet : List (Char × Nat) :=
  [('e', 0b1_0), ('t', 0b1_1),
   ('i', 0b1_00), ('a', 0b1_01), ('n', 0b1_10), ('m', 0b1_11),
   ('s', 0b1_000), ('u', 0b1_001), ('r', 0b1_010), ('w', 0b1_011),
   ('d', 0b1_100), ('k', 0b1_101), ('g', 0b1_110), ('o', 0b1_111),
   ('h', 0b1_0000), ('v', 0b1_0001), ('f', 0b1_0010), ('l', 0b1_0100),
   ('p', 0b1_0110), ('j', 0b1_0111), ('b', 0b1_1000), ('x', 0b1_1001),
   ('c', 0b1_1010), ('y', 0b1_1011), ('z', 0b1_1100), ('q', 0b1_1101),
   ('5', 0b1_00000), ('4', 0b1_00001), ('3', 0b1_00011), ('2', 0b1_00111),
   ('+', 0b1_01010), ('1', 0b1_01111), ('6', 0b1_10000), ('=', 0b1_10001),
   ('/', 0b1_10010), ('(', 0b1_10110), ('7', 0b1_11000), ('8', 0b1_11100),
   ('9', 0b1_11110), ('0', 0b1_11111),
   ('?', 0b1_001100), ('_', 0b1_001101), ('"', 0b1_010010), ('.', 0b1_010101),
   ('\'', 0b1_011110), ('-', 0b1_100001), (';', 0b1_101010), ('!', 0b1_101011),
   (')', 0b1_101101), (',', 0b1_110011), (':', 0b1_111000)]

/-- **A pattern is looked up as the sign that has it.** -/
theorem letter?_eq_some_iff {p : Nat} {byte : UInt8} :
    letter? p = some byte ↔ ∃ c, (c, p) ∈ alphabet ∧ c.toUInt8 = byte := by
  have hsigns : ∀ sign ∈ alphabet, letter? sign.2 = some sign.1.toUInt8 := by decide +kernel
  have htable : ∀ p < 128, ∀ byte ∈ letter? p,
      ∃ sign ∈ alphabet, sign.1.toUInt8 = byte ∧ sign.2 = p := by
    decide +kernel
  refine ⟨?_, ?_⟩
  · intro h
    obtain ⟨⟨c, q⟩, hmem, hbyte, rfl⟩ :=
      htable p (Nat.lt_of_le_of_lt (letter?_bounds h).2 (by decide)) byte h
    exact ⟨c, hmem, hbyte⟩
  · rintro ⟨c, hmem, rfl⟩
    exact hsigns _ hmem

end Code

namespace Decoder

/-! ### What a decoder is given -/

/-- What a decoder is given. -/
inductive Input where
  /-- A symbol to listen to. -/
  | symbol (s : Symbol)
  /-- The letter so far is to be forgotten. -/
  | reset
  deriving DecidableEq, Repr

namespace Input

/-- The element, if this is one. -/
def element? : Input → Option Symbol
  | symbol .dit => some .dit
  | symbol .dah => some .dah
  | symbol .space | reset => none

theorem element?_symbol {s : Symbol} (hs : s.isElement = true) : element? (symbol s) = some s := by
  cases s with
  | dit | dah => rfl
  | space => cases hs

end Input

/-- What comes of an input: the text that it completes, and the decoder. -/
def step (d : Decoder) : Input → List UInt8 × Decoder
  | .symbol s => d.hear s
  | .reset => ([], fresh)

/-- The decoder after some inputs. -/
def after (d : Decoder) (inputs : List Input) : Decoder := inputs.foldl (fun d i => (d.step i).2) d

/-- The text that is written in the course of some inputs. -/
def written (d : Decoder) : List Input → List UInt8
  | [] => []
  | i :: inputs => (d.step i).1 ++ (d.step i).2.written inputs

theorem after_append (d : Decoder) (inputs more : List Input) :
    d.after (inputs ++ more) = (d.after inputs).after more := List.foldl_append

theorem after_concat (d : Decoder) (inputs : List Input) (i : Input) :
    d.after (inputs ++ [i]) = ((d.after inputs).step i).2 := after_append d inputs [i]

/-- **What is written in two runs is what is written in the first and then in the second.** -/
theorem written_append (d : Decoder) (inputs more : List Input) :
    d.written (inputs ++ more) = d.written inputs ++ (d.after inputs).written more := by
  induction inputs generalizing d with
  | nil => rfl
  | cons i inputs ih => rw [List.cons_append, written, ih, written, List.append_assoc]; rfl

/-! ### The letters of a run -/

/-- **The letter that is not over yet**: the elements since the last space or reset. -/
def unfinished (inputs : List Input) : List Symbol :=
  (inputs.rtakeWhile fun i => i.element?.isSome).filterMap Input.element?

/-- **The letters of a run**: it is cut at its spaces, and of the elements before each space those
count that came after the last reset. What comes after the last space is no letter yet. -/
def letters (inputs : List Input) : List (List Symbol) :=
  (inputs.splitOn (.symbol .space)).dropLast.map unfinished

@[simp] theorem unfinished_nil : unfinished [] = [] := rfl

theorem unfinished_concat_element (inputs : List Input) {s : Symbol} (hs : s.isElement = true) :
    unfinished (inputs ++ [.symbol s]) = unfinished inputs ++ [s] := by
  have helement := Input.element?_symbol hs
  rw [unfinished, List.rtakeWhile_concat_pos _ _ _ (by rw [helement]; rfl), List.filterMap_append,
    List.filterMap_cons_some helement]
  rfl

theorem unfinished_concat_of_none (inputs : List Input) {i : Input} (hi : i.element? = none) :
    unfinished (inputs ++ [i]) = [] := by
  rw [unfinished, List.rtakeWhile_concat_neg _ _ _ (by rw [hi]; exact Bool.false_ne_true)]
  rfl

/-- A letter has elements only. -/
theorem isElement_of_mem_unfinished {inputs : List Input} {s : Symbol} (h : s ∈ unfinished inputs) :
    s.isElement = true := by
  obtain ⟨i, -, hi⟩ := List.mem_filterMap.mp h
  rcases i with (_ | _ | _) | _ <;> cases hi <;> rfl

theorem isElement_of_mem_letter {inputs : List Input} {letter : List Symbol}
    (hletter : letter ∈ letters inputs) {s : Symbol} (h : s ∈ letter) : s.isElement = true := by
  obtain ⟨part, -, rfl⟩ := List.mem_map.mp hletter
  exact isElement_of_mem_unfinished h

theorem letters_of_not_mem {inputs : List Input} (h : .symbol .space ∉ inputs) :
    letters inputs = [] := by
  rw [letters, List.splitOn_eq_singleton h]
  rfl

/-- **The first letter of a run** is what comes before the first space. -/
theorem letters_append_cons {part : List Input} (h : .symbol .space ∉ part) (rest : List Input) :
    letters (part ++ .symbol .space :: rest) = unfinished part :: letters rest := by
  have hsplit : (part ++ .symbol .space :: rest).splitOn (.symbol .space) =
      part.splitOn (.symbol .space) ++ rest.splitOn (.symbol .space) :=
    List.splitOnP_append_cons part rest (beq_self_eq_true _)
  rw [letters, hsplit, List.splitOn_eq_singleton h, List.singleton_append,
    List.dropLast_cons_of_ne_nil (List.splitOn_ne_nil _ rest), List.map_cons, letters]

/-! ### What a letter means -/

/-- **The text of a letter**: a blank if it has no elements, and else what it is read as. -/
def heardAs (letter : List Symbol) : List UInt8 := if letter = [] then [0x20] else reading letter

/-- **What a letter means.** The alphabet comes before the procedural signals, and a letter has nine
elements at most. -/
inductive Means : List Symbol → List UInt8 → Prop
  /-- A space that no element comes before is a blank. -/
  | blank : Means [] [0x20]
  /-- The pattern of the letter is that of a sign. -/
  | sign {letter : List Symbol} {c : Char} (hlen : letter.length ≤ 9)
      (hc : (c, Pattern.ofElements letter) ∈ Code.alphabet) : Means letter [c.toUInt8]
  /-- It is not, but it is the pattern of a procedural signal that takes text back. -/
  | takesBack {letter : List Symbol} {signal : Code.Prosign} (hlen : letter.length ≤ 9)
      (hnone : ∀ c, (c, Pattern.ofElements letter) ∉ Code.alphabet)
      (hsignal : signal ∈ Code.prosigns) (hpattern : signal.pattern = Pattern.ofElements letter)
      (hback : signal.takesBack = true) : Means letter signal.bytes
  /-- It is that of another procedural signal, which is marked with a stroke. -/
  | signal {letter : List Symbol} {signal : Code.Prosign} (hlen : letter.length ≤ 9)
      (hnone : ∀ c, (c, Pattern.ofElements letter) ∉ Code.alphabet)
      (hsignal : signal ∈ Code.prosigns) (hpattern : signal.pattern = Pattern.ofElements letter)
      (hback : signal.takesBack = false) : Means letter (0x2F :: signal.bytes)
  /-- It is in neither table. -/
  | nothing {letter : List Symbol} (hne : letter ≠ []) (hlen : letter.length ≤ 9)
      (hnone : ∀ c, (c, Pattern.ofElements letter) ∉ Code.alphabet)
      (hnoSignal : ∀ signal ∈ Code.prosigns, signal.pattern ≠ Pattern.ofElements letter) :
      Means letter []
  /-- The letter is longer than any signal. -/
  | tooLong {letter : List Symbol} (hlen : 9 < letter.length) : Means letter []

/-- The empty run is in neither table. -/
theorem seed_not_mem_tables :
    (∀ sign ∈ Code.alphabet, sign.2 ≠ Pattern.seed) ∧
      ∀ signal ∈ Code.prosigns, signal.pattern ≠ Pattern.seed := by
  decide

section

variable {letter : List Symbol} {text : List UInt8}

/-- A pattern without a sign is not looked up. -/
theorem letter?_eq_none_iff {p : Nat} : Code.letter? p = none ↔ ∀ c, (c, p) ∉ Code.alphabet := by
  rw [Option.eq_none_iff_forall_ne_some]
  refine ⟨?_, ?_⟩
  · intro h c hc
    exact h _ (Code.letter?_eq_some_iff.mpr ⟨c, hc, rfl⟩)
  · intro h byte hbyte
    obtain ⟨c, hc, -⟩ := Code.letter?_eq_some_iff.mp hbyte
    exact h c hc

theorem prosign?_eq_none_iff {p : Nat} :
    Code.prosign? p = none ↔ ∀ signal ∈ Code.prosigns, signal.pattern ≠ p := by
  rw [Option.eq_none_iff_forall_ne_some]
  refine ⟨?_, ?_⟩
  · intro h signal hsignal hp
    exact h _ (Code.prosign?_eq_some_iff.mpr ⟨hsignal, hp⟩)
  · intro h signal hfound
    obtain ⟨hsignal, hp⟩ := Code.prosign?_eq_some_iff.mp hfound
    exact h signal hsignal hp

theorem heardAs_of_lt (hlen : 9 < letter.length) : heardAs letter = [] := by
  have hne : letter ≠ [] := List.length_pos_iff.mp (Nat.zero_lt_of_lt hlen)
  rw [heardAs, if_neg hne, reading]
  exact if_pos hlen

/-- A letter that is short enough is heard as the meaning of its pattern. -/
theorem heardAs_of_le (h : ∀ s ∈ letter, s.isElement = true) (hlen : letter.length ≤ 9) :
    heardAs letter = meaning (Pattern.ofElements letter) := by
  rw [heardAs, meaning]
  by_cases hnil : letter = []
  · rw [if_pos hnil, if_pos ((Pattern.ofElements_eq_seed_iff h).mpr hnil)]
  · have hreading : ¬Code.patternBits - 1 < letter.length := Nat.not_lt.mpr hlen
    rw [if_neg hnil, if_neg (mt (Pattern.ofElements_eq_seed_iff h).mp hnil), reading]
    exact if_neg hreading

/-- **The text of a letter is what it means.** -/
theorem means_heardAs (h : ∀ s ∈ letter, s.isElement = true) : Means letter (heardAs letter) := by
  rcases Nat.lt_or_ge 9 letter.length with hlen | hlen
  · rw [heardAs_of_lt hlen]
    exact .tooLong hlen
  rw [heardAs_of_le h hlen, meaning]
  split
  · next hseed =>
    rw [(Pattern.ofElements_eq_seed_iff h).mp hseed]
    exact .blank
  next hseed =>
  rcases hletter : Code.letter? (Pattern.ofElements letter) with _ | byte
  · have hnone := letter?_eq_none_iff.mp hletter
    rcases hfound : Code.prosign? (Pattern.ofElements letter) with _ | signal
    · refine .nothing ?_ hlen hnone (prosign?_eq_none_iff.mp hfound)
      rwa [Pattern.ofElements_eq_seed_iff h] at hseed
    · obtain ⟨hsignal, hpattern⟩ := Code.prosign?_eq_some_iff.mp hfound
      dsimp only
      rw [signalText]
      split
      · next hback => exact .takesBack hlen hnone hsignal hpattern hback
      · next hback => exact .signal hlen hnone hsignal hpattern (Bool.eq_false_iff.mpr hback)
  · obtain ⟨c, hc, rfl⟩ := Code.letter?_eq_some_iff.mp hletter
    exact .sign hlen hc

/-- **A letter has one meaning.** -/
theorem Means.eq_heardAs (hm : Means letter text) (h : ∀ s ∈ letter, s.isElement = true) :
    text = heardAs letter := by
  cases hm with
  | blank => rfl
  | @sign _ c hlen hc =>
    rw [heardAs_of_le h hlen, meaning, if_neg (seed_not_mem_tables.1 _ hc),
      Code.letter?_eq_some_iff.mpr ⟨c, hc, rfl⟩]
  | takesBack hlen hnone hsignal hpattern hback =>
    rw [heardAs_of_le h hlen, meaning, if_neg (hpattern ▸ seed_not_mem_tables.2 _ hsignal),
      letter?_eq_none_iff.mpr hnone, Code.prosign?_eq_some_iff.mpr ⟨hsignal, hpattern⟩]
    exact (if_pos hback).symm
  | signal hlen hnone hsignal hpattern hback =>
    rw [heardAs_of_le h hlen, meaning, if_neg (hpattern ▸ seed_not_mem_tables.2 _ hsignal),
      letter?_eq_none_iff.mpr hnone, Code.prosign?_eq_some_iff.mpr ⟨hsignal, hpattern⟩]
    exact (if_neg (Bool.eq_false_iff.mp hback)).symm
  | nothing hne hlen hnone hnoSignal =>
    have hseed : Pattern.ofElements letter ≠ Pattern.seed := by
      rwa [Ne, Pattern.ofElements_eq_seed_iff h]
    rw [heardAs_of_le h hlen, meaning, if_neg hseed, letter?_eq_none_iff.mpr hnone,
      prosign?_eq_none_iff.mpr hnoSignal]
  | tooLong hlen => exact (heardAs_of_lt hlen).symm

end

/-! ### What a decoder shows of a letter -/

/-- **A decoder that has listened to a letter so far**: it has taken in the first nine elements, and
knows whether there were more. -/
def listening (letter : List Symbol) : Decoder where
  pattern := Pattern.ofElements (letter.take 9)
  tooLong := decide (9 < letter.length)

section

variable {letter : List Symbol}

/-- **One element more.** -/
theorem extend_listening (h : ∀ s ∈ letter, s.isElement = true) (s : Symbol) :
    (listening letter).extend s = listening (letter ++ [s]) := by
  rcases lt_trichotomy letter.length 9 with hlt | heq | hgt
  -- there is room for it
  · have hlong : (listening letter).tooLong = false := decide_eq_false (by omega)
    have hroom : (listening letter).pattern < limit := by
      rw [listening, List.take_of_length_le (Nat.le_of_lt hlt), limit, Nat.one_shiftLeft]
      refine (Nat.log2_lt (Pattern.ofElements_ne_zero letter)).mp ?_
      rw [Pattern.log2_ofElements h]
      exact hlt
    have hlen : (letter ++ [s]).length ≤ 9 := by
      rw [List.length_append, List.length_singleton]
      omega
    rw [extend_of_lt hlong hroom, listening, listening, List.take_of_length_le (Nat.le_of_lt hlt),
      List.take_of_length_le hlen, Pattern.ofElements_append,
      decide_eq_false (Nat.not_lt.mpr hlen), decide_eq_false (by omega)]
  -- it is the first for which there is none
  · have hlong : (listening letter).tooLong = false := decide_eq_false (by omega)
    have hfull : limit ≤ (listening letter).pattern := by
      rw [listening, List.take_of_length_le (Nat.le_of_eq heq)]
      exact limit_le_ofElements h heq
    have hlen : 9 < (letter ++ [s]).length := by
      rw [List.length_append, List.length_singleton]
      omega
    rw [extend, hlong, if_neg Bool.false_ne_true, if_pos hfull, listening, listening,
      List.take_append_of_le_length (Nat.le_of_eq heq.symm), decide_eq_true hlen]
  -- the letter was too long before
  · have hlong : (listening letter).tooLong = true := decide_eq_true hgt
    have hlen : 9 < (letter ++ [s]).length := by
      rw [List.length_append, List.length_singleton]
      omega
    rw [extend, hlong, if_pos rfl, listening, listening,
      List.take_append_of_le_length (Nat.le_of_lt hgt), decide_eq_true hlen, decide_eq_true hgt]

/-- **What a letter would be if it ended here.** -/
theorem letter_listening (h : ∀ s ∈ letter, s.isElement = true) :
    (listening letter).letter = heardAs letter := by
  rw [Decoder.letter, listening]
  rcases Nat.lt_or_ge 9 letter.length with hlen | hlen
  · rw [decide_eq_true hlen, if_pos rfl, heardAs_of_lt hlen]
  · rw [decide_eq_false (Nat.not_lt.mpr hlen), if_neg Bool.false_ne_true, heardAs_of_le h hlen,
      List.take_of_length_le hlen]

/-- **The pattern of a letter has ten bits at most**, and the decoder is idle exactly if no element
has come. -/
theorem pattern_listening_bounds (h : ∀ s ∈ letter, s.isElement = true) :
    1 ≤ (listening letter).pattern ∧ (listening letter).pattern ≤ 1023 ∧
      ((listening letter).isIdle = true ↔ letter = []) := by
  have htake : ∀ s ∈ letter.take 9, s.isElement = true := fun s hs => h s (List.mem_of_mem_take hs)
  have hpos := Pattern.ofElements_ne_zero (letter.take 9)
  have hlt : Pattern.ofElements (letter.take 9) < 2 ^ 10 := by
    refine (Nat.log2_lt hpos).mp ?_
    rw [Pattern.log2_ofElements htake]
    exact Nat.lt_succ_of_le (List.length_take_le 9 letter)
  refine ⟨Nat.one_le_iff_ne_zero.mpr hpos, Nat.le_of_lt_succ hlt, ?_⟩
  have hseed : (listening letter).pattern = Pattern.seed ↔ letter = [] := by
    rw [listening, Pattern.ofElements_eq_seed_iff htake, List.take_eq_nil_iff]
    simp
  rw [isIdle, Bool.and_eq_true, beq_iff_eq, hseed, and_iff_left_iff_imp]
  rintro rfl
  rfl

end

/-! ### Runs -/

/-- **The decoder shows the letter that is not over yet.** -/
theorem after_eq_listening (inputs : List Input) :
    fresh.after inputs = listening (unfinished inputs) := by
  induction inputs using List.reverseRecOn with
  | nil => rfl
  | append_singleton inputs i ih =>
    rw [after_concat, ih]
    rcases i with s | _
    · rcases hs : s.isElement with _ | _
      · obtain rfl : s = .space := by cases s <;> first | rfl | cases hs
        rw [unfinished_concat_of_none inputs rfl]
        rfl
      · rw [step, hear_element _ hs, unfinished_concat_element inputs hs]
        exact extend_listening (fun _ => isElement_of_mem_unfinished) s
    · rw [unfinished_concat_of_none inputs rfl]
      rfl

/-- Before the first space nothing is written. -/
theorem written_of_not_mem {d : Decoder} {inputs : List Input} (h : .symbol .space ∉ inputs) :
    d.written inputs = [] := by
  induction inputs generalizing d with
  | nil => rfl
  | cons i inputs ih =>
    rw [written, ih (List.not_mem_of_not_mem_cons h), List.append_nil]
    rcases i with (_ | _ | _) | _
    · rfl
    · rfl
    · exact absurd List.mem_cons_self h
    · rfl

/-- **A space ends a letter**: its text is written, and what follows is listened to afresh. -/
theorem written_append_space (inputs rest : List Input) :
    fresh.written (inputs ++ .symbol .space :: rest) =
      fresh.written inputs ++ heardAs (unfinished inputs) ++ fresh.written rest := by
  rw [written_append, after_eq_listening, written, step, hear_space,
    letter_listening fun _ => isElement_of_mem_unfinished, List.append_assoc]

/-- **What is written is the text of the letters.** -/
theorem written_eq_flatMap_letters (inputs : List Input) :
    fresh.written inputs = (letters inputs).flatMap heardAs := by
  induction hn : inputs.length using Nat.strongRecOn generalizing inputs with
  | _ n ih =>
    by_cases hspace : .symbol .space ∈ inputs
    · obtain ⟨part, rest, rfl, hpart⟩ := List.eq_append_cons_of_mem hspace
      have hlen : rest.length < n := by
        rw [← hn, List.length_append, List.length_cons]
        omega
      rw [written_append_space, written_of_not_mem hpart, letters_append_cons hpart,
        List.flatMap_cons, ih _ hlen rest rfl, List.nil_append]
    · rw [written_of_not_mem hspace, letters_of_not_mem hspace]
      rfl

/-- A dit that is forgotten, then a `t` and a blank. -/
example : fresh.written [.symbol .dit, .reset, .symbol .dah, .symbol .space, .symbol .space] =
    [0x74, 0x20] := by decide

/-- A word of 16 bits has room for one bit more than a pattern of 15. -/
theorem toNat_toUInt16_shiftLeft {p : Nat} (h : p < 0x8000) : (p.toUInt16 <<< 1).toNat = 2 * p := by
  have hword : p.toUInt16.toNat = p := Nat.mod_eq_of_lt (by omega)
  have hone : UInt16.toNat 1 % 16 = 1 := rfl
  rw [UInt16.toNat_shiftLeft, hword, hone, Nat.shiftLeft_eq, Nat.mod_eq_of_lt (by omega)]
  omega

/-- **What a decoder makes of a run.** A decoder that has heard nothing is given symbols and resets
in any order. It writes the texts of the letters of the run, one after another, and what is written
after a space does not depend on what came before it. At every moment its pattern is that of the
first nine elements since the last space or reset. It lies between 1 and 1023, so a word of 16 bits
loses nothing when it is shifted for another element, and the decoder is idle exactly when there are
no such elements. -/
theorem written_and_pattern_after (inputs : List Input) :
    let d := fresh.after inputs
    fresh.written inputs = (letters inputs).flatMap heardAs ∧
      (∀ letter ∈ letters inputs, ∀ text, Means letter text ↔ text = heardAs letter) ∧
      (∀ rest, fresh.written (inputs ++ .symbol .space :: rest) =
        fresh.written (inputs ++ [.symbol .space]) ++ fresh.written rest) ∧
      d.pattern = Pattern.ofElements ((unfinished inputs).take 9) ∧
      1 ≤ d.pattern ∧ d.pattern ≤ 1023 ∧
      (d.pattern.toUInt16 <<< 1).toNat = 2 * d.pattern ∧
      (d.isIdle = true ↔ unfinished inputs = []) := by
  intro d
  have hd : d = listening (unfinished inputs) := after_eq_listening inputs
  have hunfinished : ∀ s ∈ unfinished inputs, s.isElement = true :=
    fun _ => isElement_of_mem_unfinished
  obtain ⟨hpos, hle, hidle⟩ := pattern_listening_bounds hunfinished
  rw [← hd] at hpos hle hidle
  refine ⟨written_eq_flatMap_letters inputs, ?_, ?_, by rw [hd]; rfl, hpos, hle, ?_, hidle⟩
  · intro letter hletter text
    have helements : ∀ s ∈ letter, s.isElement = true := fun _ => isElement_of_mem_letter hletter
    refine ⟨fun hmeans => hmeans.eq_heardAs helements, ?_⟩
    rintro rfl
    exact means_heardAs helements
  · intro rest
    have hnil : fresh.written [] = [] := rfl
    rw [written_append_space, written_append_space inputs [], hnil, List.append_nil]
  · exact toNat_toUInt16_shiftLeft (by omega)

end Decoder

end MorseKeyboard
