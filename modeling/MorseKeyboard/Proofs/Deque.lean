import MorseKeyboard.Ring.Lemmas

/-!
# Rings are bounded queues

What a ring does can be said without slots and places, on the plain list of what it holds: a push
appends, and gives up the first value if the list holds `n` already; a pop takes the first value
off; clearing leaves nothing (`MorseKeyboard.Ring.stepList`). This file runs the two side by side.

A ring can be copied at any time, and the copy leads a life of its own. So a run does not go over
one ring but over a *shelf* of them (`MorseKeyboard.Shelf`): an act is an operation on one of the
rings, or takes a copy of one and puts it behind the others. **Operated alike, a shelf of rings and
a shelf of lists give the same answers and hold the same** (`MorseKeyboard.Ring.run_eq_run_list`),
from a fresh ring on and as long as one likes; the places of every ring stay inside it and in step
with what it holds (`MorseKeyboard.Ring.Consistent`).

A ring that two contexts share is locked during every operation. So for it, too, one operation comes
after another, and the snapshot that one context takes of it is such a copy.
-/

namespace MorseKeyboard

/-! ### Operations -/

namespace Ring

variable {α : Type} {n : Nat}

/-- Something done to a ring. -/
inductive Op (α : Type) where
  /-- Append a value. -/
  | push (a : α)
  /-- Take the oldest unread value. -/
  | pop
  /-- Look at the oldest unread value. -/
  | peek
  /-- Count everything as read. -/
  | clear
  /-- Pop until nothing is left. -/
  | drain
  deriving DecidableEq, Repr

/-- What an operation answers. -/
inductive Answer (α : Type) where
  /-- Nothing. -/
  | done
  /-- One value, if there is one. -/
  | value (a? : Option α)
  /-- All values. -/
  | values (as : List α)
  deriving DecidableEq, Repr

/-- Operate a ring: the answer and the ring afterwards. -/
def step (r : Ring α n) : Op α → Answer α × Ring α n
  | .push a => (.done, r.push a)
  | .pop =>
    match r.pop? with
    | none => (.value none, r)
    | some (a, s) => (.value (some a), s)
  | .peek => (.value r.peek?, r)
  | .clear => (.done, r.clear)
  | .drain => (.values r.drain.1, r.drain.2)

/-- Operate a list that holds `n` values at most: the answer and the list afterwards. -/
def stepList (n : Nat) (as : List α) : Op α → Answer α × List α
  | .push a => (.done, (if as.length = n then as.tail else as) ++ [a])
  | .pop => (.value as.head?, as.tail)
  | .peek => (.value as.head?, as)
  | .clear => (.done, [])
  | .drain => (.values as, [])

end Ring

/-! ### Shelves -/

/-- Something done to a shelf of containers. -/
inductive Shelf.Act (ω : Type) where
  /-- Operate the container with a number. -/
  | operate (i : Nat) (op : ω)
  /-- Put a copy of the container with a number behind the others. -/
  | copy (i : Nat)
  deriving DecidableEq, Repr

namespace Shelf

variable {σ τ ω β : Type}

/-- The number of the container that an act changes, if it changes one. -/
def Act.target? : Act ω → Option Nat
  | operate i _ => some i
  | copy _ => none

/-- Carry out an act: the answer, if there is a container with that number, and the shelf
afterwards. -/
def act (f : σ → ω → β × σ) (shelf : List σ) : Act ω → Option β × List σ
  | .operate i op =>
    match shelf[i]? with
    | none => (none, shelf)
    | some s => (some (f s op).1, shelf.set i (f s op).2)
  | .copy i => (none, shelf ++ shelf[i]?.toList)

/-- Carry out one act after another: the answers, and the shelf afterwards. -/
def run (f : σ → ω → β × σ) (shelf : List σ) : List (Act ω) → List (Option β) × List σ
  | [] => ([], shelf)
  | a :: acts =>
    let (answer, next) := act f shelf a
    let (answers, last) := run f next acts
    (answer :: answers, last)

variable {f : σ → ω → β × σ} {g : τ → ω → β × τ} {view : σ → τ} {Inv : σ → Prop} {shelf : List σ}

/-- What holds of all containers, and is kept by operating them, holds of all of them after an
act. -/
theorem forall_mem_act (hkeep : ∀ s op, Inv s → Inv (f s op).2) (h : ∀ s ∈ shelf, Inv s)
    (a : Act ω) : ∀ s ∈ (act f shelf a).2, Inv s := by
  cases a with
  | operate i op =>
    rw [act]
    split
    · exact h
    · next s hs =>
      intro t ht
      rcases List.mem_or_eq_of_mem_set ht with ht | rfl
      · exact h t ht
      · exact hkeep s op (h s (List.mem_of_getElem? hs))
  | copy i =>
    intro s hs
    rcases List.mem_append.mp hs with hs | hs
    · exact h s hs
    · exact h s (List.mem_of_getElem? (Option.mem_toList.mp hs))

theorem forall_mem_run (hkeep : ∀ s op, Inv s → Inv (f s op).2) (h : ∀ s ∈ shelf, Inv s)
    (acts : List (Act ω)) : ∀ s ∈ (run f shelf acts).2, Inv s := by
  induction acts generalizing shelf with
  | nil => exact h
  | cons a acts ih => exact ih (forall_mem_act hkeep h a)

/-- An act on containers is an act on what is seen of them, if operating one is. -/
theorem act_map (hstep : ∀ s op, Inv s → g (view s) op = ((f s op).1, view (f s op).2))
    (h : ∀ s ∈ shelf, Inv s) (a : Act ω) :
    act g (shelf.map view) a = ((act f shelf a).1, (act f shelf a).2.map view) := by
  cases a with
  | operate i op =>
    rw [act, act, List.getElem?_map]
    rcases hs : shelf[i]? with _ | s
    · rfl
    · have hsame := hstep s op (h s (List.mem_of_getElem? hs))
      rw [Option.map_some]
      dsimp only
      rw [hsame, List.map_set]
  | copy i =>
    rw [act, act, List.getElem?_map, List.map_append]
    cases shelf[i]? <;> rfl

/-- **A run over containers is a run over what is seen of them.** -/
theorem run_map (hstep : ∀ s op, Inv s → g (view s) op = ((f s op).1, view (f s op).2))
    (hkeep : ∀ s op, Inv s → Inv (f s op).2) (h : ∀ s ∈ shelf, Inv s) (acts : List (Act ω)) :
    run g (shelf.map view) acts = ((run f shelf acts).1, (run f shelf acts).2.map view) := by
  induction acts generalizing shelf with
  | nil => rfl
  | cons a acts ih =>
    have hrest := ih (forall_mem_act hkeep h a)
    rw [run, run, act_map hstep h a]
    dsimp only
    rw [hrest]

/-- A container is changed by what is done to it and by nothing else. -/
theorem getElem?_act {i : Nat} (hi : i < shelf.length) {a : Act ω} (ha : a.target? ≠ some i) :
    (act f shelf a).2[i]? = shelf[i]? := by
  cases a with
  | operate j op =>
    have hne : j ≠ i := fun heq => ha (congrArg some heq)
    rw [act]
    split
    · rfl
    · exact List.getElem?_set_ne hne
  | copy j => exact List.getElem?_append_left hi

theorem length_le_act (f : σ → ω → β × σ) (shelf : List σ) (a : Act ω) :
    shelf.length ≤ (act f shelf a).2.length := by
  cases a with
  | operate j op =>
    rw [act]
    split
    · exact Nat.le_refl _
    · exact Nat.le_of_eq List.length_set.symm
  | copy j =>
    rw [act, List.length_append]
    exact Nat.le_add_right _ _

/-- **A container and its copy go their own ways.** -/
theorem getElem?_run {i : Nat} (hi : i < shelf.length) {acts : List (Act ω)}
    (h : ∀ a ∈ acts, a.target? ≠ some i) : (run f shelf acts).2[i]? = shelf[i]? := by
  induction acts generalizing shelf with
  | nil => rfl
  | cons a acts ih =>
    have hrest := ih (Nat.lt_of_lt_of_le hi (length_le_act f shelf a)) fun b hb =>
      h b (List.mem_cons_of_mem a hb)
    exact hrest.trans (getElem?_act hi (h a List.mem_cons_self))

end Shelf

/-! ### Rings and lists -/

namespace Ring

variable {α : Type} {n : Nat} {r : Ring α n}

theorem WellFormed.step (h : r.WellFormed) (op : Op α) : (r.step op).2.WellFormed := by
  cases op with
  | push a => exact h.push a
  | pop =>
    rw [Ring.step]
    split
    · exact h
    · next hp => exact h.of_pop? hp
  | peek => exact h
  | clear => exact wellFormed_clear r
  | drain => exact h.take r.count

/-- **Operating a ring is operating the list of what it holds.** -/
theorem stepList_toList (r : Ring α n) (op : Op α) (h : r.WellFormed) :
    stepList n r.toList op = ((r.step op).1, (r.step op).2.toList) := by
  cases op with
  | push a =>
    rw [stepList, length_toList, step]
    rcases Nat.lt_or_eq_of_le h.count_le with hc | hc
    · rw [if_neg (Nat.ne_of_lt hc), toList_push_of_lt h a hc]
    · rw [if_pos hc, toList_push_of_full h a hc, List.drop_one]
  | pop =>
    rw [stepList, step]
    rcases hp : r.pop? with _ | ⟨a, s⟩
    · rw [pop?_eq_none_iff.mp hp]
      rfl
    · rw [toList_of_pop? hp]
      rfl
  | peek => rw [stepList, step, peek?_eq_head?]
  | clear => rfl
  | drain =>
    obtain ⟨hall, hnone⟩ := r.toList_drain
    rw [stepList, step, hall, hnone]

/-- **What a ring tells about itself is true**: its places lie inside it and in step with what it
holds, and so do the answers to every question. -/
structure Consistent (r : Ring α n) : Prop where
  read_lt : r.read.val < n
  write_lt : r.write.val < n
  count_le : r.count ≤ n
  /-- The write place lies behind the unread values. -/
  write_eq : r.write.val = (r.read.val + r.count) % n
  size_eq : r.size = r.toList.length
  isEmpty_iff : r.isEmpty = true ↔ r.toList = []
  isFull_iff : r.isFull = true ↔ r.toList.length = n
  peek?_eq : r.peek? = r.toList.head?
  drain_eq : r.drain.1 = r.toList
  /-- A pop that finds nothing changes nothing. -/
  pop_of_nil : r.toList = [] → r.step .pop = (.value none, r)

theorem WellFormed.consistent (h : r.WellFormed) : r.Consistent where
  read_lt := r.read.isLt
  write_lt := r.write.isLt
  count_le := h.count_le
  write_eq := congrArg Fin.val h.write_eq
  size_eq := r.length_toList.symm
  isEmpty_iff := Ring.isEmpty_iff
  isFull_iff := by rw [isFull, beq_iff_eq, length_toList]
  peek?_eq := r.peek?_eq_head?
  drain_eq := r.toList_drain.1
  pop_of_nil hnil := by rw [Ring.step, pop?_eq_none_iff.mpr hnil]

/-- **A ring is a queue of at most so many values.** On a shelf with a fresh ring of any capacity,
rings are pushed to, popped, peeked at, cleared, drained and copied, in any order and number. Every
answer is that of the lists of what the rings hold, operated alike, where a push into a list of `n`
values gives up the first; the rings hold what is in these lists; everything that they tell about
themselves is true; and no ring is changed by what is done to another, its copies included. -/
theorem run_eq_run_list (filling : α) (h : 0 < n) (acts : List (Shelf.Act (Op α))) :
    let (answers, rings) := Shelf.run step [empty n filling h] acts
    let (expected, lists) := Shelf.run (stepList n) [[]] acts
    answers = expected ∧ rings.map toList = lists ∧ (∀ r ∈ rings, r.Consistent) ∧
      ∀ i < rings.length, ∀ more : List (Shelf.Act (Op α)), (∀ a ∈ more, a.target? ≠ some i) →
        (Shelf.run step rings more).2[i]? = rings[i]? := by
  have hfresh : ∀ r ∈ [empty n filling h], r.WellFormed := fun r hr =>
    List.mem_singleton.mp hr ▸ wellFormed_empty n filling h
  have hrun : Shelf.run (stepList n) ([empty n filling h].map toList) acts =
      ((Shelf.run step [empty n filling h] acts).1,
        (Shelf.run step [empty n filling h] acts).2.map toList) :=
    Shelf.run_map stepList_toList (fun r op hr => hr.step op) hfresh acts
  rw [List.map_singleton, toList_empty] at hrun
  rw [hrun]
  refine ⟨rfl, rfl, fun r hr => ?_, fun i hi more hmore => Shelf.getElem?_run hi hmore⟩
  exact (Shelf.forall_mem_run (fun r op hr => hr.step op) hfresh acts r hr).consistent

/-- Four values go into a ring for three, and the first is given up. A copy is drained, and the
ring still holds the others. -/
theorem run_eq_run_list_copied :
    let acts : List (Shelf.Act (Op Nat)) :=
      [.operate 0 (.push 1), .operate 0 (.push 2), .operate 0 (.push 3), .operate 0 (.push 4),
        .copy 0, .operate 1 .drain, .operate 1 .pop, .operate 0 .pop]
    let (answers, rings) := Shelf.run step [empty 3 0] acts
    answers = [some .done, some .done, some .done, some .done, none, some (.values [2, 3, 4]),
        some (.value none), some (.value (some 2))] ∧
      rings.map toList = [[3, 4], []] := by
  intro acts
  obtain ⟨hanswers, hlists, -, -⟩ := run_eq_run_list 0 (Nat.zero_lt_succ 2) acts
  exact ⟨hanswers.trans (by decide), hlists.trans (by decide)⟩

end Ring

end MorseKeyboard
