import MorseKeyboard.Ring.Basic

/-!
# What rings hold

The operations of a ring, told by the list of its unread values
(`MorseKeyboard.Ring.toList`). Two things have to be in order for that, and every operation keeps
them in order (`MorseKeyboard.Ring.WellFormed`): no more values are unread than there are slots, and
the write place lies as many slots after the read place as there are unread values.

* A push appends, and **keeps the newest values if there are too many**
  (`MorseKeyboard.Ring.toList_push`); pushing one value after another keeps the newest of all of
  them (`MorseKeyboard.Ring.toList_pushAll`).
* A pop takes the first value (`MorseKeyboard.Ring.toList_of_pop?`), and there is none exactly when
  the list is empty (`MorseKeyboard.Ring.pop?_eq_none_iff`).
* Draining gives the whole list (`MorseKeyboard.Ring.toList_drain`).
-/

namespace MorseKeyboard.Ring

variable {α : Type} {n : Nat}

/-! ### The newest values of a list -/

/-- The last `n` values of a list, or all of them if there are fewer. -/
def newest (n : Nat) (as : List α) : List α := as.drop (as.length - n)

theorem newest_of_length_le {as : List α} (h : as.length ≤ n) : newest n as = as := by
  rw [newest, Nat.sub_eq_zero_of_le h, List.drop_zero]

theorem length_newest_le (n : Nat) (as : List α) : (newest n as).length ≤ n := by
  rw [newest, List.length_drop]
  omega

/-- Values that are given up before others are appended would be given up afterwards. -/
theorem newest_newest_append (n : Nat) (as bs : List α) :
    newest n (newest n as ++ bs) = newest n (as ++ bs) := by
  have hk : as.length - n ≤ as.length := Nat.sub_le _ _
  rw [newest, newest, newest, ← List.drop_append_of_le_length hk, List.drop_drop]
  congr 1
  simp only [List.length_append, List.length_drop]
  omega

/-! ### Places -/

theorem val_next (i : Fin n) : (next i).val = (i.val + 1) % n := by
  unfold next
  split
  · next h => exact (Nat.mod_eq_of_lt h).symm
  · next h =>
    have hi : i.val + 1 = n := by
      have := i.isLt
      omega
    rw [hi, Nat.mod_self]

theorem val_slotAfter (r : Ring α n) (i : Nat) : (r.slotAfter i).val = (r.read.val + i) % n := rfl

/-- Counting from the next read place is counting one slot further. -/
theorem slotAfter_of_read_eq_next {r s : Ring α n} (h : s.read = next r.read) (i : Nat) :
    s.slotAfter i = r.slotAfter (i + 1) := by
  apply Fin.ext
  rw [val_slotAfter, val_slotAfter, h, val_next, Nat.mod_add_mod]
  congr 1
  omega

theorem next_slotAfter (r : Ring α n) (i : Nat) : next (r.slotAfter i) = r.slotAfter (i + 1) := by
  apply Fin.ext
  rw [val_next, val_slotAfter, val_slotAfter, Nat.mod_add_mod, Nat.add_assoc]

theorem slotAfter_zero (r : Ring α n) : r.slotAfter 0 = r.read := by
  apply Fin.ext
  rw [val_slotAfter, Nat.add_zero, Nat.mod_eq_of_lt r.read.isLt]

/-- A whole turn leads back to the read place. -/
theorem slotAfter_self (r : Ring α n) : r.slotAfter n = r.read := by
  apply Fin.ext
  rw [val_slotAfter, Nat.add_mod_right, Nat.mod_eq_of_lt r.read.isLt]

/-- **Within one turn no slot comes twice.** -/
theorem slotAfter_ne (r : Ring α n) {i j : Nat} (hij : i < j) (hj : j < n) :
    r.slotAfter j ≠ r.slotAfter i := by
  intro h
  have hv := congrArg Fin.val h
  rw [val_slotAfter, val_slotAfter] at hv
  have hsub := Nat.sub_mod_eq_zero_of_mod_eq hv
  rw [Nat.add_sub_add_left, Nat.mod_eq_of_lt (by omega)] at hsub
  omega

/-! ### Every operation keeps the order -/

/-- The places and the number of unread values agree. -/
structure WellFormed (r : Ring α n) : Prop where
  /-- There is a slot for every unread value. -/
  count_le : r.count ≤ n
  /-- The write place follows the last unread value. -/
  write_eq : r.write = r.slotAfter r.count

/-- A push into a full ring. -/
theorem push_of_full {r : Ring α n} (hc : r.count = n) (a : α) :
    r.push a = { r.store a with read := next r.read } := if_pos hc

/-- A push into a ring with room. -/
theorem push_of_lt {r : Ring α n} (hc : r.count < n) (a : α) :
    r.push a = { r.store a with count := r.count + 1 } := if_neg (Nat.ne_of_lt hc)

/-- A pop from a ring that is not all read. -/
theorem pop?_of_pos {r : Ring α n} (hc : 0 < r.count) :
    r.pop? = some (r.slots.get r.read, { r with read := next r.read, count := r.count - 1 }) :=
  if_neg (Nat.ne_of_gt hc)

theorem pop?_of_eq_zero {r : Ring α n} (hc : r.count = 0) : r.pop? = none := if_pos hc

theorem wellFormed_empty (n : Nat) (filling : α) (h : 0 < n) :
    (empty n filling h).WellFormed where
  count_le := Nat.zero_le n
  write_eq := (slotAfter_zero (empty n filling h)).symm

theorem WellFormed.push {r : Ring α n} (h : r.WellFormed) (a : α) : (r.push a).WellFormed := by
  rcases Nat.lt_or_eq_of_le h.count_le with hc | hc
  · rw [push_of_lt hc]
    refine ⟨hc, ?_⟩
    exact (congrArg next h.write_eq).trans (next_slotAfter r r.count)
  · rw [push_of_full hc]
    refine ⟨h.count_le, ?_⟩
    rw [slotAfter_of_read_eq_next (r := r) rfl]
    exact (congrArg next h.write_eq).trans (next_slotAfter r r.count)

theorem WellFormed.pushAll {r : Ring α n} (h : r.WellFormed) (as : List α) :
    (r.pushAll as).WellFormed := by
  induction as generalizing r with
  | nil => exact h
  | cons a as ih => exact ih (h.push a)

theorem wellFormed_clear (r : Ring α n) : r.clear.WellFormed where
  count_le := Nat.zero_le n
  write_eq := (slotAfter_zero r.clear).symm

theorem WellFormed.of_pop? {r s : Ring α n} {a : α} (h : r.WellFormed)
    (hp : r.pop? = some (a, s)) : s.WellFormed := by
  rcases Nat.eq_zero_or_pos r.count with hc | hc
  · rw [pop?_of_eq_zero hc] at hp
    cases hp
  · rw [pop?_of_pos hc] at hp
    obtain ⟨-, rfl⟩ := Prod.mk.inj (Option.some.inj hp)
    refine ⟨Nat.le_trans (Nat.sub_le _ _) h.count_le, ?_⟩
    rw [slotAfter_of_read_eq_next (r := r) rfl, Nat.sub_add_cancel hc, h.write_eq]

/-! ### What the operations do to the list -/

@[simp] theorem length_toList (r : Ring α n) : r.toList.length = r.count := by
  rw [toList, List.length_map, List.length_range]

@[simp] theorem toList_empty (n : Nat) (filling : α) (h : 0 < n) :
    (empty n filling h).toList = [] :=
  rfl

@[simp] theorem toList_clear (r : Ring α n) : r.clear.toList = [] := rfl

theorem toList_eq_nil_iff {r : Ring α n} : r.toList = [] ↔ r.count = 0 := by
  rw [← List.length_eq_zero_iff, length_toList]

/-- The unread values, the first one apart. -/
theorem toList_of_count_eq_succ {r : Ring α n} {k : Nat} (hk : r.count = k + 1) :
    r.toList = r.slots.get r.read ::
      (List.range k).map fun i => r.slots.get (r.slotAfter (i + 1)) := by
  rw [toList, hk, List.range_succ_eq_map, List.map_cons, slotAfter_zero, List.map_map]
  rfl

theorem get_store_write (r : Ring α n) (a : α) : (r.store a).slots.get r.write = a :=
  Vector.getElem_set_self r.write.isLt

theorem get_store_of_ne (r : Ring α n) (a : α) {i : Fin n} (hi : r.write ≠ i) :
    (r.store a).slots.get i = r.slots.get i := by
  have hne : (r.write : Nat) ≠ i := fun e => hi (Fin.ext e)
  exact Vector.getElem_set_ne r.write.isLt i.isLt hne

/-- With room, a push appends. -/
theorem toList_push_of_lt {r : Ring α n} (h : r.WellFormed) (a : α) (hn : r.count < n) :
    (r.push a).toList = r.toList ++ [a] := by
  have hold : ∀ i ∈ List.range r.count,
      (r.store a).slots.get (r.slotAfter i) = r.slots.get (r.slotAfter i) := by
    intro i hi
    apply get_store_of_ne
    rw [h.write_eq]
    exact slotAfter_ne r (List.mem_range.mp hi) hn
  have hnew : (r.store a).slots.get (r.slotAfter r.count) = a := by
    rw [← h.write_eq, get_store_write]
  rw [push_of_lt hn]
  calc (List.range (r.count + 1)).map (fun i => (r.store a).slots.get (r.slotAfter i))
      = (List.range r.count).map (fun i => (r.store a).slots.get (r.slotAfter i)) ++
          [(r.store a).slots.get (r.slotAfter r.count)] := by
        rw [List.range_succ, List.map_append, List.map_singleton]
    _ = r.toList ++ [a] := by rw [hnew, List.map_congr_left hold, toList]

/-- Without room, a push appends and gives up the first value. -/
theorem toList_push_of_full {r : Ring α n} (h : r.WellFormed) (a : α) (hn : r.count = n) :
    (r.push a).toList = r.toList.drop 1 ++ [a] := by
  have hw : r.write = r.read := by rw [h.write_eq, hn, slotAfter_self]
  obtain ⟨k, hk⟩ : ∃ k, r.count = k + 1 := ⟨r.count - 1, by have := r.read.isLt; omega⟩
  have hold : ∀ i ∈ List.range k,
      (r.store a).slots.get (r.slotAfter (i + 1)) = r.slots.get (r.slotAfter (i + 1)) := by
    intro i hi
    have hik := List.mem_range.mp hi
    apply get_store_of_ne
    rw [hw, ← slotAfter_zero r]
    exact (slotAfter_ne r (Nat.succ_pos i) (by omega)).symm
  have hnew : (r.store a).slots.get (r.slotAfter (k + 1)) = a := by
    rw [← hk, ← h.write_eq, get_store_write]
  have hstep : ∀ i, (r.push a).slotAfter i = r.slotAfter (i + 1) := fun i =>
    slotAfter_of_read_eq_next (by rw [push_of_full hn]) i
  have hcount : (r.push a).count = k + 1 := by rw [push_of_full hn]; exact hk
  have hslots : (r.push a).slots = (r.store a).slots := by rw [push_of_full hn]
  rw [toList_of_count_eq_succ hk, List.drop_succ_cons, List.drop_zero,
    ← List.map_congr_left hold, toList, hcount, hslots, List.range_succ, List.map_append,
    List.map_singleton, hstep, hnew]
  exact congrArg (· ++ [a]) (List.map_congr_left fun i _ => by rw [hstep])

/-- **A push appends, and keeps the newest values if there are too many.** -/
theorem toList_push {r : Ring α n} (h : r.WellFormed) (a : α) :
    (r.push a).toList = newest n (r.toList ++ [a]) := by
  rcases Nat.lt_or_eq_of_le h.count_le with hc | hc
  · rw [toList_push_of_lt h a hc, newest_of_length_le]
    rw [List.length_append, length_toList, List.length_singleton]
    exact hc
  · have hpos : 1 ≤ r.toList.length := by
      rw [length_toList, hc]
      exact Nat.lt_of_le_of_lt (Nat.zero_le _) r.read.isLt
    rw [toList_push_of_full h a hc, newest, List.length_append, length_toList, hc,
      List.length_singleton, Nat.add_sub_cancel_left, List.drop_append_of_le_length hpos]

/-- **Pushing one value after another keeps the newest of all.** -/
theorem toList_pushAll {r : Ring α n} (h : r.WellFormed) (as : List α) :
    (r.pushAll as).toList = newest n (r.toList ++ as) := by
  induction as generalizing r with
  | nil =>
    rw [List.append_nil, newest_of_length_le (by rw [length_toList]; exact h.count_le)]
    rfl
  | cons a as ih =>
    calc ((r.push a).pushAll as).toList
        = newest n ((r.push a).toList ++ as) := ih (h.push a)
      _ = newest n (r.toList ++ a :: as) := by
        rw [toList_push h, newest_newest_append, List.append_assoc, List.singleton_append]

/-- What is peeked at is the first unread value. -/
theorem peek?_eq_head? (r : Ring α n) : r.peek? = r.toList.head? := by
  rcases Nat.eq_zero_or_pos r.count with hc | hc
  · rw [toList_eq_nil_iff.mpr hc, List.head?_nil]
    exact if_pos hc
  · obtain ⟨k, hk⟩ : ∃ k, r.count = k + 1 := ⟨r.count - 1, by omega⟩
    rw [toList_of_count_eq_succ hk, List.head?_cons]
    exact if_neg (Nat.ne_of_gt hc)

/-- **A pop takes the first unread value and leaves the others.** -/
theorem toList_of_pop? {r s : Ring α n} {a : α} (hp : r.pop? = some (a, s)) :
    r.toList = a :: s.toList := by
  rcases Nat.eq_zero_or_pos r.count with hc | hc
  · rw [pop?_of_eq_zero hc] at hp
    cases hp
  · obtain ⟨k, hk⟩ : ∃ k, r.count = k + 1 := ⟨r.count - 1, by omega⟩
    rw [pop?_of_pos hc, hk, Nat.add_sub_cancel] at hp
    obtain ⟨rfl, rfl⟩ := Prod.mk.inj (Option.some.inj hp)
    rw [toList_of_count_eq_succ hk]
    refine congrArg (_ :: ·) (List.map_congr_left fun i _ => ?_)
    exact congrArg r.slots.get (slotAfter_of_read_eq_next rfl i).symm

/-- There is nothing to pop exactly when everything is read. -/
theorem pop?_eq_none_iff {r : Ring α n} : r.pop? = none ↔ r.toList = [] := by
  rw [toList_eq_nil_iff]
  constructor
  · intro h
    rcases Nat.eq_zero_or_pos r.count with hc | hc
    · exact hc
    · rw [pop?_of_pos hc] at h
      cases h
  · exact pop?_of_eq_zero

theorem isEmpty_iff {r : Ring α n} : r.isEmpty = true ↔ r.toList = [] := by
  rw [toList_eq_nil_iff, isEmpty, beq_iff_eq]

/-! ### Taking many values out -/

theorem take_of_pop? {r s : Ring α n} {a : α} (hp : r.pop? = some (a, s)) (k : Nat) :
    r.take (k + 1) = (a :: (s.take k).1, (s.take k).2) := by
  rw [take, hp]

theorem take_of_pop?_eq_none {r : Ring α n} (hp : r.pop? = none) (k : Nat) :
    r.take k = ([], r) := by
  cases k with
  | zero => rfl
  | succ k => rw [take, hp]

theorem WellFormed.take {r : Ring α n} (h : r.WellFormed) (k : Nat) : (r.take k).2.WellFormed := by
  induction k generalizing r with
  | zero => exact h
  | succ k ih =>
    rcases hp : r.pop? with _ | ⟨a, s⟩
    · rw [take_of_pop?_eq_none hp]
      exact h
    · rw [take_of_pop? hp]
      exact ih (h.of_pop? hp)

/-- **Taking values out splits the list**: the first ones come out and the others stay. -/
theorem toList_take (r : Ring α n) (k : Nat) :
    (r.take k).1 = r.toList.take k ∧ (r.take k).2.toList = r.toList.drop k := by
  induction k generalizing r with
  | zero => exact ⟨rfl, rfl⟩
  | succ k ih =>
    rcases hp : r.pop? with _ | ⟨a, s⟩
    · rw [take_of_pop?_eq_none hp, pop?_eq_none_iff.mp hp]
      exact ⟨rfl, rfl⟩
    · rw [take_of_pop? hp, toList_of_pop? hp, List.take_succ_cons, List.drop_succ_cons]
      exact ⟨congrArg (a :: ·) (ih s).1, (ih s).2⟩

/-- **Draining gives the unread values in order and leaves none.** -/
theorem toList_drain (r : Ring α n) : r.drain.1 = r.toList ∧ r.drain.2.toList = [] := by
  obtain ⟨hout, hleft⟩ := toList_take r r.count
  rw [← length_toList, List.take_length] at hout
  rw [← length_toList, List.drop_length] at hleft
  rw [length_toList] at hout hleft
  exact ⟨hout, hleft⟩

end MorseKeyboard.Ring
