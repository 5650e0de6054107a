/-!
# Scheduler slots

A periodic job is registered in one of seven slots, each named for the job that owns it. When
several jobs fall due in one millisecond they run in the order of their slots.

`MorseKeyboard.PerSlot` is a table with one row per slot, and `MorseKeyboard.SlotSet` a set of
slots, kept as a table of truth values. A set is read from its first slot on:
`MorseKeyboard.SlotSet.toList` lists it in slot order, and `MorseKeyboard.SlotSet.next?` takes the
first slot out.
-/

namespace MorseKeyboard

/-- The owner of a periodic job, in the order in which due jobs run. -/
inductive Slot where
  /-- Debouncing the paddle contacts. -/
  | debounce
  /-- The clock of the keyer. -/
  | keyer
  /-- The clock of the output. -/
  | output
  /-- Polling by the host. -/
  | host
  /-- Blinking the status light. -/
  | light
  /-- Counting down the repeated messages, once a minute. -/
  | minute
  /-- The watchdog. -/
  | watchdog
  deriving DecidableEq, Repr

namespace Slot

/-- All slots, in order. -/
def all : List Slot :=
  [debounce, keyer, output, host, light, minute, watchdog]

/-- The place of a slot in the order. -/
def index : Slot → Fin 7
  | debounce => 0
  | keyer => 1
  | output => 2
  | host => 3
  | light => 4
  | minute => 5
  | watchdog => 6

/-- The slot at a place in the order. -/
def ofIndex : Fin 7 → Slot
  | 0 => debounce
  | 1 => keyer
  | 2 => output
  | 3 => host
  | 4 => light
  | 5 => minute
  | 6 => watchdog

/-- The name of a slot. -/
def name : Slot → String
  | debounce => "debounce"
  | keyer => "cw_parse"
  | output => "cw_advance"
  | host => "usb_work"
  | light => "status_led"
  | minute => "memory_repeat"
  | watchdog => "watchdog"

@[simp] theorem ofIndex_index (s : Slot) : ofIndex s.index = s := by
  cases s <;> rfl

theorem index_inj {s t : Slot} : s.index = t.index ↔ s = t :=
  ⟨fun h => by rw [← ofIndex_index s, h, ofIndex_index], fun h => h ▸ rfl⟩

theorem mem_all (s : Slot) : s ∈ all := by
  cases s <;> decide

end Slot

/-! ### One value per slot -/

/-- A table with one row per slot. -/
structure PerSlot (α : Type) where
  rows : Vector α 7
  deriving DecidableEq, Repr

namespace PerSlot

variable {α : Type}

/-- The table whose rows are given by a function. -/
def ofFn (f : Slot → α) : PerSlot α := ⟨Vector.ofFn fun i => f (Slot.ofIndex i)⟩

/-- The row of a slot. -/
def get (t : PerSlot α) (s : Slot) : α := t.rows[s.index]

/-- The table with the row of one slot replaced. -/
def set (t : PerSlot α) (s : Slot) (a : α) : PerSlot α := ⟨t.rows.set s.index a⟩

/-- The rows, in slot order. -/
def toList (t : PerSlot α) : List α := Slot.all.map t.get

@[simp] theorem get_ofFn (f : Slot → α) (s : Slot) : (ofFn f).get s = f s := by
  simp [get, ofFn]

@[simp] theorem get_set_self (t : PerSlot α) (s : Slot) (a : α) : (t.set s a).get s = a := by
  simp [get, set]

theorem get_set_of_ne {s r : Slot} (h : s ≠ r) (t : PerSlot α) (a : α) :
    (t.set s a).get r = t.get r := by
  have hi : (s.index : Nat) ≠ r.index := fun e => h (Slot.index_inj.mp (Fin.ext e))
  simp [get, set, hi]

/-- Two tables with the same rows are the same. -/
theorem ext_get {t u : PerSlot α} (h : ∀ s, t.get s = u.get s) : t = u := by
  obtain ⟨rows⟩ := t
  obtain ⟨rows'⟩ := u
  congr
  ext i hi
  have := h (Slot.ofIndex ⟨i, hi⟩)
  match i, hi, this with
  | 0, _, this | 1, _, this | 2, _, this | 3, _, this | 4, _, this | 5, _, this | 6, _, this =>
    exact this

end PerSlot

/-! ### Sets of slots -/

/-- A set of slots. -/
structure SlotSet where
  members : PerSlot Bool
  deriving DecidableEq, Repr

namespace SlotSet

/-- No slot. -/
def empty : SlotSet := ⟨PerSlot.ofFn fun _ => false⟩

/-- The slots with a property. -/
def ofPred (p : Slot → Bool) : SlotSet := ⟨PerSlot.ofFn p⟩

/-- Whether a slot is in the set. -/
def contains (x : SlotSet) (s : Slot) : Bool := x.members.get s

/-- The set with one more slot. -/
def insert (x : SlotSet) (s : Slot) : SlotSet := ⟨x.members.set s true⟩

/-- The set without a slot. -/
def erase (x : SlotSet) (s : Slot) : SlotSet := ⟨x.members.set s false⟩

/-- The slots in the set, in order. -/
def toList (x : SlotSet) : List Slot := Slot.all.filter x.contains

/-- Whether no slot is in the set. -/
def isEmpty (x : SlotSet) : Bool := x.toList.isEmpty

/-- The first slot of the set, and the set without it. -/
def next? (x : SlotSet) : Option (Slot × SlotSet) :=
  match x.toList with
  | [] => none
  | s :: _ => some (s, x.erase s)

/-- All slots of either set. -/
def union (x y : SlotSet) : SlotSet := ofPred fun s => x.contains s || y.contains s

@[simp] theorem contains_empty (s : Slot) : empty.contains s = false := by
  simp [empty, contains]

@[simp] theorem contains_ofPred (p : Slot → Bool) (s : Slot) : (ofPred p).contains s = p s := by
  simp [ofPred, contains]

@[simp] theorem contains_insert (x : SlotSet) (s r : Slot) :
    (x.insert s).contains r = (s == r || x.contains r) := by
  by_cases h : s = r
  · subst h; simp [insert, contains]
  · simp [insert, contains, PerSlot.get_set_of_ne h, h]

@[simp] theorem contains_erase (x : SlotSet) (s r : Slot) :
    (x.erase s).contains r = (s != r && x.contains r) := by
  by_cases h : s = r
  · subst h; simp [erase, contains]
  · simp [erase, contains, PerSlot.get_set_of_ne h, h]

@[simp] theorem contains_union (x y : SlotSet) (s : Slot) :
    (x.union y).contains s = (x.contains s || y.contains s) :=
  contains_ofPred _ s

/-- **The list of a set holds exactly its slots.** -/
@[simp] theorem mem_toList {x : SlotSet} {s : Slot} : s ∈ x.toList ↔ x.contains s = true := by
  simp [toList, Slot.mem_all]

/-- Two sets with the same slots are the same. -/
theorem ext_contains {x y : SlotSet} (h : ∀ s, x.contains s = y.contains s) : x = y := by
  obtain ⟨t⟩ := x
  obtain ⟨u⟩ := y
  exact congrArg SlotSet.mk (PerSlot.ext_get h)

end SlotSet

end MorseKeyboard
