import MorseKeyboard.Symbol

/-!
# Patterns

A run of dits and dahs is kept as one number: a leading one bit, the *start bit*, and after it one
bit per element, zero for a dit and one for a dah. The number 20 is `0b1_0100`, so it stands for
dit, dah, dit, dit, the letter l. The start bit alone, `MorseKeyboard.Pattern.seed`, is the empty
run; zero is no run at all.

`MorseKeyboard.Pattern.ofElements` writes a run as a number and `MorseKeyboard.Pattern.elements`
reads a number as a run. **Reading undoes writing** (`MorseKeyboard.Pattern.elements_ofElements`),
so two runs never share a pattern.
-/

namespace MorseKeyboard.Pattern

/-- The empty run: the start bit alone. -/
def seed : Nat := 1

/-- The bit of an element. -/
def bit : Symbol → Nat
  | .dah => 1
  | .dit | .space => 0

/-- The pattern of a run with one more element. -/
def extend (pattern : Nat) (s : Symbol) : Nat := 2 * pattern + bit s

/-- The pattern of a run. -/
def ofElements (run : List Symbol) : Nat := run.foldl extend seed

/-- The element that bit `i` of a pattern stands for. -/
def elementAt (pattern i : Nat) : Symbol := if pattern.testBit i then .dah else .dit

/-- The run a pattern stands for, read from the bit under the start bit down. -/
def elements (pattern : Nat) : List Symbol :=
  (List.range pattern.log2).reverse.map (elementAt pattern)

/-! ### Reading undoes writing -/

@[simp] theorem elements_seed : elements seed = [] := rfl

theorem log2_extend {p : Nat} (hp : p ≠ 0) (s : Symbol) : (extend p s).log2 = p.log2 + 1 := by
  have hb : (2 * p + bit s) / 2 = p := by cases s <;> simp only [bit] <;> omega
  rw [extend, Nat.log2_def, if_pos (by omega), hb]

theorem elementAt_extend_zero {s : Symbol} (hs : s.isElement = true) (p : Nat) :
    elementAt (extend p s) 0 = s := by
  cases s <;> simp_all [elementAt, extend, bit, Symbol.isElement, Nat.testBit_zero]

theorem elementAt_extend_succ (p : Nat) (s : Symbol) (i : Nat) :
    elementAt (extend p s) (i + 1) = elementAt p i := by
  have hb : (2 * p + bit s) / 2 = p := by cases s <;> simp only [bit] <;> omega
  rw [elementAt, extend, Nat.testBit_succ, hb, elementAt]

/-- **One more element at the end of the number is one more at the end of the run.** -/
theorem elements_extend {p : Nat} (hp : p ≠ 0) {s : Symbol} (hs : s.isElement = true) :
    elements (extend p s) = elements p ++ [s] := by
  rw [elements, log2_extend hp, List.range_succ_eq_map, List.reverse_cons, List.map_append,
    ← List.map_reverse, List.map_map, List.map_singleton, elementAt_extend_zero hs, elements]
  congr 1
  exact List.map_congr_left fun i _ => elementAt_extend_succ p s i

theorem extend_ne_zero {p : Nat} (hp : p ≠ 0) (s : Symbol) : extend p s ≠ 0 := by
  unfold extend
  omega

theorem elements_foldl_extend {run : List Symbol} (h : ∀ s ∈ run, s.isElement = true) {p : Nat}
    (hp : p ≠ 0) : elements (run.foldl extend p) = elements p ++ run := by
  induction run generalizing p with
  | nil => simp
  | cons s run ih =>
    rw [List.foldl_cons, ih (fun t ht => h t (List.mem_cons_of_mem _ ht)) (extend_ne_zero hp s),
      elements_extend hp (h s List.mem_cons_self), List.append_assoc, List.singleton_append]

/-- **Reading a written run gives the run back.** -/
theorem elements_ofElements {run : List Symbol} (h : ∀ s ∈ run, s.isElement = true) :
    elements (ofElements run) = run := by
  rw [ofElements, elements_foldl_extend h (by decide : seed ≠ 0), elements_seed, List.nil_append]

end MorseKeyboard.Pattern
