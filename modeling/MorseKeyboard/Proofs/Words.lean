import Mathlib.Data.List.TakeWhile
import Mathlib.Data.Nat.Digits.Defs
import MorseKeyboard.Text.Blank
import MorseKeyboard.Text.Lines
import MorseKeyboard.Text.Number

/-!
# What the words of a line say

A line is read in three ways: it is split at its first separator, it is trimmed of blanks, and a
word of it is read as a number. Each is a function that looks at one character after another. Here
each is told by what its result is.

* A list is split into a part without the separator and what comes after the first separator
  (`MorseKeyboard.Text.Splits`), in one way only.
* A trimmed text neither begins nor ends with a blank, and **blanks alone are missing from it**
  (`MorseKeyboard.Text.Trims`, `MorseKeyboard.Text.trimChars_eq_iff`).
* **A number is read from its numerals**, decimal digits with a plus before them or not
  (`MorseKeyboard.Text.Numeral`), and from nothing else, unless it is above the limit
  (`MorseKeyboard.Text.number?_eq_some_iff`).
-/

namespace MorseKeyboard.Text

/-! ### Splitting -/

section Split

variable {α : Type} {separator : α} {as word rest : List α}

/-- **A list up to its first separator, and what comes after it**: if there is no separator, nothing
does. -/
def Splits (separator : α) (as word rest : List α) : Prop :=
  separator ∉ word ∧ (as = word ++ separator :: rest ∨ as = word ∧ rest = [])

variable [DecidableEq α]

theorem splitFirst?_append (h : separator ∉ word) (rest : List α) :
    splitFirst? separator (word ++ separator :: rest) = some (word, rest) := by
  induction word with
  | nil => simp [splitFirst?]
  | cons a word ih =>
    obtain ⟨hne, hword⟩ := not_or.mp (mt List.mem_cons.mpr h)
    simp [splitFirst?, Ne.symm hne, ih hword]

theorem splitFirst?_of_not_mem (h : separator ∉ as) : splitFirst? separator as = none := by
  induction as with
  | nil => rfl
  | cons a as ih =>
    obtain ⟨hne, hrest⟩ := not_or.mp (mt List.mem_cons.mpr h)
    simp [splitFirst?, Ne.symm hne, ih hrest]

/-- **A list is split in one way.** -/
theorem Splits.splitFirst?_getD (h : Splits separator as word rest) :
    (splitFirst? separator as).getD (as, []) = (word, rest) := by
  obtain ⟨hword, rfl | ⟨rfl, rfl⟩⟩ := h
  · rw [splitFirst?_append hword, Option.getD_some]
  · rw [splitFirst?_of_not_mem hword, Option.getD_none]

/-- Every list is split. -/
theorem exists_splits (separator : α) (as : List α) :
    ∃ word rest, Splits separator as word rest := by
  by_cases h : separator ∈ as
  · obtain ⟨word, rest, rfl, hword⟩ := List.eq_append_cons_of_mem h
    exact ⟨word, rest, hword, Or.inl rfl⟩
  · exact ⟨as, [], h, Or.inr ⟨rfl, rfl⟩⟩

end Split

/-! ### Trimming -/

/-- **A text without the blanks at either end**: only blanks are missing from it, and it neither
begins nor ends with one. -/
structure Trims (cs core : List Char) : Prop where
  exists_blanks : ∃ before after, cs = before ++ core ++ after ∧
    ∀ c ∈ before ++ after, isBlank c = true
  head : ∀ c ∈ core.head?, isBlank c = false
  last : ∀ c ∈ core.getLast?, isBlank c = false

/-- What is left when leading blanks are dropped does not begin with one. -/
theorem isBlank_of_mem_head?_dropWhile (cs : List Char) :
    ∀ c ∈ (cs.dropWhile isBlank).head?, isBlank c = false := by
  intro c hc
  have hnot := cs.head?_dropWhile_not isBlank
  rwa [hc] at hnot

/-- A text that does not begin with a blank is kept when leading blanks are dropped. -/
theorem dropWhile_isBlank_append {blanks cs : List Char} (hblanks : ∀ c ∈ blanks, isBlank c = true)
    (hcs : ∀ c ∈ cs.head?, isBlank c = false) : (blanks ++ cs).dropWhile isBlank = cs := by
  rw [List.dropWhile_append_of_pos hblanks]
  cases cs with
  | nil => rfl
  | cons c cs => exact List.dropWhile_cons_of_neg (by simp [hcs c rfl])

/-- A text is trimmed to what trims it. -/
theorem Trims.trimChars_eq {cs core : List Char} (h : Trims cs core) : trimChars cs = core := by
  obtain ⟨⟨before, after, rfl, hblank⟩, hhead, hlast⟩ := h
  obtain ⟨hbefore, hafter⟩ := List.forall_mem_append.mp hblank
  have hreverse : ∀ c ∈ after.reverse, isBlank c = true := by simpa using hafter
  rw [trimChars, List.append_assoc]
  rcases core with _ | ⟨c, core⟩
  -- a text of blanks alone is dropped from the front
  · rw [List.nil_append, ← List.append_nil (before ++ after), dropWhile_isBlank_append hblank hhead]
    rfl
  · rw [dropWhile_isBlank_append hbefore (by simpa using hhead), List.reverse_append,
      dropWhile_isBlank_append hreverse (by rwa [List.head?_reverse]), List.reverse_reverse]

theorem trims_trimChars (cs : List Char) : Trims cs (trimChars cs) := by
  rw [trimChars]
  have hfront := List.takeWhile_append_dropWhile (p := isBlank) (l := cs)
  have hhead := isBlank_of_mem_head?_dropWhile cs
  generalize cs.dropWhile isBlank = kept at hfront hhead ⊢
  have hback := List.takeWhile_append_dropWhile (p := isBlank) (l := kept.reverse)
  have hlast := isBlank_of_mem_head?_dropWhile kept.reverse
  generalize kept.reverse.dropWhile isBlank = core at hback hlast ⊢
  have hkept : kept = core.reverse ++ (kept.reverse.takeWhile isBlank).reverse := by
    rw [← List.reverse_append, hback, List.reverse_reverse]
  refine ⟨⟨cs.takeWhile isBlank, (kept.reverse.takeWhile isBlank).reverse, ?_, ?_⟩, ?_, ?_⟩
  · rw [List.append_assoc, ← hkept, hfront]
  · rw [List.forall_mem_append]
    refine ⟨fun c => List.mem_takeWhile_imp, fun c hc => ?_⟩
    exact List.mem_takeWhile_imp (List.mem_reverse.mp hc)
  · intro c hc
    refine hhead c ?_
    rw [hkept, List.head?_append, Option.mem_def.mp hc, Option.some_or]
    rfl
  · simpa using hlast

/-- **A text is trimmed in one way.** -/
theorem trimChars_eq_iff {cs core : List Char} : trimChars cs = core ↔ Trims cs core := by
  refine ⟨?_, Trims.trimChars_eq⟩
  rintro rfl
  exact trims_trimChars cs

/-! ### Numbers -/

/-- The number that some decimal digits stand for. -/
def decimal (digits : List Char) : Nat :=
  Nat.ofDigits 10 (digits.reverse.map fun c => c.toNat - '0'.toNat)

/-- **The numerals of a number**: decimal digits, at least one, with a plus before them or not. -/
structure Numeral (cs : List Char) (value : Nat) : Prop where
  exists_digits : ∃ digits, (cs = digits ∨ cs = '+' :: digits) ∧ digits ≠ [] ∧
    (∀ c ∈ digits, c.isDigit = true) ∧ decimal digits = value

theorem decimal_cons (c : Char) (cs : List Char) :
    decimal (c :: cs) = decimal cs + 10 ^ cs.length * (c.toNat - '0'.toNat) := by
  simp [decimal, Nat.ofDigits_append]

/-- **Digits are read one after another** as the number that they stand for. -/
theorem digits?_eq_some_iff {cs : List Char} {value v : Nat} :
    digits? value cs = some v ↔
      (∀ c ∈ cs, c.isDigit = true) ∧ decimal cs + 10 ^ cs.length * value = v := by
  induction cs generalizing value with
  | nil => simp [digits?, decimal]
  | cons c cs ih =>
    rw [digits?, digit?]
    by_cases hc : c.isDigit = true
    · simp only [hc, if_true, ih, decimal_cons, List.forall_mem_cons, true_and, List.length_cons]
      rw [show decimal cs + 10 ^ cs.length * (10 * value + (c.toNat - '0'.toNat)) =
        decimal cs + 10 ^ cs.length * (c.toNat - '0'.toNat) + 10 ^ (cs.length + 1) * value by ring]
    · simp [hc]

theorem unsigned?_eq_some_iff {cs : List Char} {v : Nat} :
    unsigned? cs = some v ↔ cs ≠ [] ∧ (∀ c ∈ cs, c.isDigit = true) ∧ decimal cs = v := by
  cases cs with
  | nil => simp [unsigned?]
  | cons c cs => simp [unsigned?, digits?_eq_some_iff]

/-- **A number is read just from its numerals**, unless it is above the limit. -/
theorem number?_eq_some_iff {limit v : Nat} {cs : List Char} :
    number? limit cs = some v ↔ Numeral cs v ∧ v ≤ limit := by
  unfold number?
  rw [Option.filter_eq_some_iff, decide_eq_true_eq]
  refine and_congr_left' ?_
  constructor
  · intro h
    split at h
    · exact ⟨_, Or.inr rfl, unsigned?_eq_some_iff.mp h⟩
    · exact ⟨_, Or.inl rfl, unsigned?_eq_some_iff.mp h⟩
  · rintro ⟨digits, rfl | rfl, hdigits⟩
    · split
      -- the plus is no digit
      · exact absurd (hdigits.2.1 '+' List.mem_cons_self) (by decide)
      · exact unsigned?_eq_some_iff.mpr hdigits
    · exact unsigned?_eq_some_iff.mpr hdigits

end MorseKeyboard.Text
