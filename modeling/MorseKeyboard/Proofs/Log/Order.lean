import Mathlib.Data.List.Induction
import Mathlib.Data.Nat.ModEq
import MorseKeyboard.Log.Stream

/-!
# What comes out of a log stream

A stream counts the records pushed and the records pulled in 64 bits, and the record with number `k`
lives in slot `k % n`. **The counters tell how many records wait, also when they have wrapped**
(`MorseKeyboard.Log.Stream.Counts`): as many as were accepted and did not come out, and never more
than `n`. So a record of a level that passes is refused exactly when `n` of them wait, after every
run (`MorseKeyboard.Log.Stream.Orderly`).

What waits has consecutive numbers. Two of them have slots of their own, unless the counter wraps on
the way from the one to the other and they are as far apart as `2 ^ 64` is beyond the last whole
turn (`MorseKeyboard.Log.Stream.slot_ofNat_eq_iff`), which cannot be if `n` divides `2 ^ 64`, nor
before the counter wraps (`MorseKeyboard.Log.Regular`). And **a record that shares its slot with
none comes out as it was accepted, in its place**
(`MorseKeyboard.Log.Stream.accepted_eq_drained_append`). This is shown from the end of the run,
where the last act either leaves what waits alone, or stores a record behind it, or takes the first
one away (`MorseKeyboard.Log.Stream.Moves`).

It does not hold of all records: for every `n` that does not divide `2 ^ 64` there is a run in which
the record that is pushed when the counter has wrapped overwrites one that waits
(`MorseKeyboard.Log.Stream.overwritten_wrapping`).
-/

namespace MorseKeyboard.Log

/-! ### Entries -/

/-- What is logged: a time, a level and the bytes of a message. -/
structure Entry where
  time : UInt16
  level : Level
  message : List UInt8
  deriving DecidableEq, Repr

/-- What a record keeps of an entry: a message that is too long is cut. -/
def Entry.kept (e : Entry) : Entry := { e with message := e.message.take Message.capacity }

/-- The entry in a record. -/
def Record.entry (r : Record) : Entry where
  time := r.time
  level := r.level
  message := r.body

theorem Record.entry_reuse (r : Record) (e : Entry) :
    (r.reuse e.time e.level e.message).entry = e.kept := by
  rw [Record.entry, body_reuse]
  rfl

/-! ### Numbers and slots -/

/-- The slots of the numbers below `k` come round without a break: the numbers do not wrap, or they
wrap where the slots begin again. -/
def Regular (n k : Nat) : Prop := n ∣ 2 ^ 64 ∨ k ≤ 2 ^ 64

theorem Regular.mono {n k l : Nat} (h : Regular n k) (hle : l ≤ k) : Regular n l :=
  h.imp_right (Nat.le_trans hle)

/-- **Two numbers clash** if the counter wraps on the way from the one to the other, and they are as
far apart as `2 ^ 64` is beyond the last whole turn. -/
def Clash (n k l : Nat) : Prop := l = k + 2 ^ 64 % n ∧ 2 ^ 64 ≤ k % 2 ^ 64 + 2 ^ 64 % n

/-- Where the slots come round without a break, no numbers clash. -/
theorem Regular.not_clash {n k l m : Nat} (h : Regular n m) (hl : l < m) : ¬Clash n k l := by
  rintro ⟨rfl, hwraps⟩
  rcases h with hdvd | hle
  · rw [Nat.mod_eq_zero_of_dvd hdvd, Nat.add_zero] at hwraps
    exact Nat.not_lt_of_le hwraps (Nat.mod_lt k (by decide))
  · rw [Nat.mod_eq_of_lt (by omega)] at hwraps
    omega

namespace Stream

variable {n : Nat} {s : Stream n} {pulled pushed : Nat} {pending : List Entry}

/-- **When a slot comes again within one turn**: if the counter wraps on the way, and the two
numbers are as far apart as `2 ^ 64` is beyond the last whole turn. -/
theorem slot_add_eq_iff (s : Stream n) (hn : n < 2 ^ 64) (number : UInt64) {d : Nat} (hd : 0 < d)
    (hturn : d < n) : s.slot (number + UInt64.ofNat d) = s.slot number ↔
      2 ^ 64 ≤ number.toNat + d ∧ d = 2 ^ 64 % n := by
  have hlt := number.toNat_lt
  have hval : s.slot (number + UInt64.ofNat d) = s.slot number ↔
      (number.toNat + d) % 2 ^ 64 ≡ number.toNat [MOD n] := by
    rw [Fin.ext_iff, ← UInt64.toNat_ofNat_of_lt' (Nat.lt_trans hturn hn), ← UInt64.toNat_add,
      UInt64.toNat_ofNat_of_lt' (Nat.lt_trans hturn hn)]
    rfl
  rw [hval]
  rcases Nat.lt_or_ge (number.toNat + d) (2 ^ 64) with hbefore | hwraps
  -- before the counter wraps the numbers would be whole turns apart
  · rw [Nat.mod_eq_of_lt hbefore]
    refine iff_of_false (fun heq => ?_) fun h => Nat.not_lt_of_le h.1 hbefore
    have hzero : d ≡ 0 [MOD n] := Nat.ModEq.add_left_cancel' number.toNat heq
    rw [Nat.ModEq, Nat.zero_mod, Nat.mod_eq_of_lt hturn] at hzero
    exact Nat.ne_of_gt hd hzero
  · have hsum : (number.toNat + d) % 2 ^ 64 + 2 ^ 64 ≡ number.toNat + d [MOD n] := by
      rw [Nat.mod_eq_sub_mod hwraps, Nat.mod_eq_of_lt (by omega), Nat.sub_add_cancel hwraps]
    have hleft : d = 2 ^ 64 % n ↔ 2 ^ 64 ≡ d [MOD n] := by
      rw [Nat.ModEq, Nat.mod_eq_of_lt hturn, eq_comm]
    rw [and_iff_right hwraps, hleft]
    exact ⟨fun h => h.add_left_cancel hsum, fun h => h.add_right_cancel hsum⟩

/-- **Within one turn two numbers have the same slot just if they clash.** -/
theorem slot_ofNat_eq_iff (s : Stream n) (hn : n < 2 ^ 64) {k l : Nat} (hkl : k < l)
    (hturn : l < k + n) : s.slot (UInt64.ofNat k) = s.slot (UInt64.ofNat l) ↔ Clash n k l := by
  obtain ⟨d, rfl⟩ := Nat.exists_eq_add_of_le (Nat.le_of_lt hkl)
  rw [UInt64.ofNat_add, eq_comm, s.slot_add_eq_iff hn _ (by omega) (by omega),
    UInt64.toNat_ofNat', Clash, Nat.add_left_cancel_iff, and_comm]
  exact and_congr_right fun hd => by rw [hd]

/-- **Within one turn no slot comes twice**, where the slots come round without a break. -/
theorem slot_ne (s : Stream n) (hn : n < 2 ^ 64) {k l m : Nat} (h : Regular n m) (hkl : k < l)
    (hturn : l < k + n) (hl : l < m) : s.slot (UInt64.ofNat k) ≠ s.slot (UInt64.ofNat l) :=
  fun heq => h.not_clash hl ((s.slot_ofNat_eq_iff hn hkl hturn).mp heq)

/-! ### Storing an entry -/

/-- The entry in the slot of a number. -/
def entryAt (s : Stream n) (k : UInt64) : Entry := s.slots[s.slot k].entry

/-- The slots, with the one of a number reused for an entry. -/
def reused (s : Stream n) (k : UInt64) (e : Entry) : Vector Record n :=
  s.slots.set (s.slot k) (s.slots[s.slot k].reuse e.time e.level e.message)

/-- The stream with one more entry, in the slot of its number. -/
def store (s : Stream n) (e : Entry) : Stream n :=
  { s with slots := s.reused s.head e, head := s.head + 1 }

/-- The stream with one more record rejected. -/
def reject (s : Stream n) : Stream n := { s with rejected := s.rejected + 1 }

section Push

variable {most : Level} {e : Entry}

/-- A record of a level that does not pass is passed over. -/
theorem push_of_not_passes (hpass : e.level.passes most = false) :
    s.push most e.time e.level e.message = (false, s) := by
  rw [push, hpass]
  rfl

theorem push_of_isFull (hpass : e.level.passes most = true) (hfull : s.isFull = true) :
    s.push most e.time e.level e.message = (false, s.reject) := by
  rw [push, hpass, if_neg (by decide), if_pos hfull]
  rfl

theorem push_of_not_isFull (hpass : e.level.passes most = true) (hfull : s.isFull = false) :
    s.push most e.time e.level e.message = (true, s.store e) := by
  rw [push, hpass, if_neg (by decide), hfull]
  rfl

end Push

theorem entryAt_store_head (s : Stream n) (e : Entry) :
    (s.store e).entryAt s.head = e.kept := by
  rw [← Record.entry_reuse s.slots[s.slot s.head] e]
  exact congrArg Record.entry (Vector.getElem_set_self (s.slot s.head).isLt)

theorem entryAt_store_of_ne (e : Entry) {k : UInt64} (h : s.slot s.head ≠ s.slot k) :
    (s.store e).entryAt k = s.entryAt k := by
  have hne : (s.slot s.head : Nat) ≠ s.slot k := fun heq => h (Fin.ext heq)
  exact congrArg Record.entry (Vector.getElem_set_ne (s.slot s.head).isLt (s.slot k).isLt hne)

/-! ### What waits in a stream -/

/-- The entries that wait, the oldest first. -/
def contents (s : Stream n) : List Entry :=
  (List.range s.waiting).map fun i => s.entryAt (s.tail + UInt64.ofNat i)

theorem length_contents (s : Stream n) : s.contents.length = s.waiting := by
  rw [contents, List.length_map, List.length_range]

theorem getElem?_contents_of_lt {i : Nat} (h : i < s.waiting) :
    s.contents[i]? = some (s.entryAt (s.tail + UInt64.ofNat i)) := by
  rw [contents, List.getElem?_map, List.getElem?_range h, Option.map_some]

theorem contents_congr {t : Stream n} (hslots : t.slots = s.slots) (hhead : t.head = s.head)
    (htail : t.tail = s.tail) : t.contents = s.contents := by
  cases s
  cases t
  cases hslots
  cases hhead
  cases htail
  rfl

/-- **The counters tell how many records wait**, also when they have wrapped. -/
theorem waiting_of_eq {m : Nat} (hhead : s.head = UInt64.ofNat (pulled + m))
    (htail : s.tail = UInt64.ofNat pulled) (hm : m < 2 ^ 64) : s.waiting = m := by
  rw [waiting, hhead, htail, UInt64.ofNat_add, UInt64.add_comm, UInt64.add_sub_cancel,
    UInt64.toNat_ofNat', Nat.mod_eq_of_lt hm]

theorem tail_add_waiting (s : Stream n) : s.tail + UInt64.ofNat s.waiting = s.head := by
  rw [waiting, UInt64.ofNat_toNat, UInt64.add_comm, UInt64.sub_add_cancel]

theorem tail_ne_head (h : 0 < s.waiting) : s.tail ≠ s.head := by
  intro heq
  rw [waiting, heq, UInt64.sub_self] at h
  exact absurd h (Nat.not_lt_zero _)

/-! ### Pulling -/

section Pull

variable {r : Record} {t : Stream n}

theorem exists_pull? (h : 0 < s.waiting) : ∃ r t, s.pull? = some (r, t) :=
  ⟨_, _, if_neg (tail_ne_head h)⟩

theorem tail_of_pull? (h : s.pull? = some (r, t)) : t.tail = s.tail + 1 ∧ t.head = s.head := by
  rw [pull?] at h
  split at h
  · cases h
  · obtain ⟨-, rfl⟩ := Prod.mk.inj (Option.some.inj h)
    exact ⟨rfl, rfl⟩

/-- A pull takes one record away, also where the counters wrap. -/
theorem waiting_of_pull? (h : s.pull? = some (r, t)) : s.waiting = t.waiting + 1 := by
  rw [pull?] at h
  split at h
  · cases h
  · next hne =>
    obtain ⟨-, rfl⟩ := Prod.mk.inj (Option.some.inj h)
    have hnat : s.tail.toNat ≠ s.head.toNat := fun heq => hne (UInt64.toNat_inj.mp heq)
    have htail := s.tail.toNat_lt
    have hhead := s.head.toNat_lt
    simp only [waiting, UInt64.toNat_sub, UInt64.toNat_add, UInt64.reduceToNat]
    omega

/-- **A pull takes the first of the entries that wait**, in any stream. -/
theorem contents_of_pull? (h : s.pull? = some (r, t)) : s.contents = r.entry :: t.contents := by
  have hwaiting := waiting_of_pull? h
  rw [pull?] at h
  split at h
  · cases h
  · obtain ⟨rfl, rfl⟩ := Prod.mk.inj (Option.some.inj h)
    rw [contents, hwaiting, List.range_succ_eq_map, List.map_cons, List.map_map]
    refine congrArg₂ List.cons (congrArg s.entryAt (UInt64.add_zero s.tail)) ?_
    refine List.map_congr_left fun i _ => congrArg s.entryAt ?_
    rw [Nat.succ_eq_add_one, Nat.add_comm, UInt64.ofNat_add, ← UInt64.add_assoc]
    rfl

/-- A pull gives nothing just if nothing waits, in any stream. -/
theorem pull?_eq_none_iff (s : Stream n) : s.pull? = none ↔ s.contents = [] := by
  rw [← List.length_eq_zero_iff, length_contents]
  constructor
  · intro hnone
    by_contra hwaits
    obtain ⟨r, t, hpull⟩ := exists_pull? (Nat.pos_of_ne_zero hwaits)
    rw [hnone] at hpull
    cases hpull
  · intro hempty
    have hhead := s.tail_add_waiting
    rw [hempty] at hhead
    rw [pull?, if_pos ((UInt64.add_zero s.tail).symm.trans hhead)]

end Pull

/-! ### The counters -/

/-- **What the counters tell**: so many records were pulled, and so many pushed. -/
structure Counts (s : Stream n) (pulled pushed : Nat) : Prop where
  tail_eq : s.tail = UInt64.ofNat pulled
  head_eq : s.head = UInt64.ofNat pushed
  le : pulled ≤ pushed
  /-- There is a slot for each of the others. -/
  le_add : pushed ≤ pulled + n

theorem counts_empty (pos : 0 < n) : (empty pos).Counts 0 0 where
  tail_eq := rfl
  head_eq := rfl
  le := Nat.le_refl 0
  le_add := Nat.zero_le _

/-- Any counters tell this, unless more records wait than there are slots. -/
theorem counts_of_waiting_le (h : s.waiting ≤ n) :
    s.Counts s.tail.toNat (s.tail.toNat + s.waiting) where
  tail_eq := UInt64.ofNat_toNat.symm
  head_eq := by rw [UInt64.ofNat_add, UInt64.ofNat_toNat, tail_add_waiting]
  le := Nat.le_add_right _ _
  le_add := Nat.add_le_add_left h _

/-- **How a stream behaves as a queue.** -/
structure Orderly (s : Stream n) : Prop where
  length_le : s.contents.length ≤ n
  /-- An entry of a level that passes is rejected if as many entries wait as there are slots. -/
  push_eq_false_iff (most : Level) (e : Entry) (hpass : e.level.passes most = true) :
    (s.push most e.time e.level e.message).1 = false ↔ s.contents.length = n
  /-- An entry of another level leaves no trace. -/
  push_of_not_passes (most : Level) (e : Entry) (hpass : e.level.passes most = false) :
    s.push most e.time e.level e.message = (false, s)
  pull?_eq_none_iff : s.pull? = none ↔ s.contents = []

namespace Counts

variable {e : Entry} {r : Record} {t : Stream n}

theorem waiting_eq (h : s.Counts pulled pushed) (hn : n < 2 ^ 64) :
    s.waiting = pushed - pulled := by
  have hle := h.le_add
  refine waiting_of_eq ?_ h.tail_eq (by omega)
  rw [h.head_eq, Nat.add_sub_cancel' h.le]

/-- A stream is full if there are as many entries as slots. -/
theorem isFull_iff (h : s.Counts pulled pushed) (hn : n < 2 ^ 64) :
    s.isFull = true ↔ pushed = pulled + n := by
  have hle := h.le
  have hroom := h.le_add
  rw [isFull, decide_eq_true_eq, h.waiting_eq hn]
  omega

theorem congr (h : s.Counts pulled pushed) (hhead : t.head = s.head) (htail : t.tail = s.tail) :
    t.Counts pulled pushed where
  tail_eq := htail.trans h.tail_eq
  head_eq := hhead.trans h.head_eq
  le := h.le
  le_add := h.le_add

theorem store (h : s.Counts pulled pushed) (hroom : pushed < pulled + n) (e : Entry) :
    (s.store e).Counts pulled (pushed + 1) where
  tail_eq := h.tail_eq
  head_eq := by
    rw [UInt64.ofNat_add, ← h.head_eq]
    rfl
  le := Nat.le_succ_of_le h.le
  le_add := hroom

theorem pull (h : s.Counts pulled pushed) (hn : n < 2 ^ 64) (hpull : s.pull? = some (r, t)) :
    t.Counts (pulled + 1) pushed where
  tail_eq := by
    rw [(tail_of_pull? hpull).1, h.tail_eq, UInt64.ofNat_add]
    rfl
  head_eq := (tail_of_pull? hpull).2.trans h.head_eq
  le := by
    have hwaiting := waiting_of_pull? hpull
    rw [h.waiting_eq hn] at hwaiting
    omega
  le_add := by
    have hle := h.le_add
    omega

/-- **An entry that is stored waits behind the others**, and leaves them alone but for those in the
slot that it goes to. -/
theorem getElem?_contents_store (h : s.Counts pulled pushed) (hn : n < 2 ^ 64)
    (hroom : s.waiting < n) (e : Entry) {i : Nat}
    (hapart : i < s.waiting → s.slot s.head ≠ s.slot (s.tail + UInt64.ofNat i)) :
    (s.store e).contents[i]? = (s.contents ++ [e.kept])[i]? := by
  have hstored : (s.store e).waiting = s.waiting + 1 := by
    have hle := h.le
    rw [h.waiting_eq hn] at hroom ⊢
    rw [(h.store (by omega) e).waiting_eq hn]
    omega
  rcases Nat.lt_trichotomy i s.waiting with hold | rfl | hbeyond
  · rw [List.getElem?_append_left (by rwa [length_contents]), getElem?_contents_of_lt hold,
      getElem?_contents_of_lt (by omega), ← entryAt_store_of_ne e (hapart hold)]
    rfl
  · rw [← length_contents, List.getElem?_concat_length, length_contents,
      getElem?_contents_of_lt (by omega), ← entryAt_store_head s e, ← tail_add_waiting]
    rfl
  · rw [List.getElem?_eq_none, List.getElem?_eq_none]
    · rw [List.length_append, length_contents, List.length_singleton]
      exact hbeyond
    · rw [length_contents, hstored]
      exact hbeyond

/-- **A stream is a queue of as many entries as it has slots**, as far as its counters tell. -/
theorem orderly (h : s.Counts pulled pushed) (hn : n < 2 ^ 64) : s.Orderly where
  length_le := by
    have hle := h.le_add
    rw [length_contents, h.waiting_eq hn]
    omega
  push_eq_false_iff most e hpass := by
    have hfull : s.contents.length = n ↔ s.isFull = true := by
      have hle := h.le
      rw [h.isFull_iff hn, length_contents, h.waiting_eq hn]
      omega
    rw [hfull]
    cases hfull : s.isFull with
    | true => simp [push_of_isFull hpass hfull]
    | false => simp [push_of_not_isFull hpass hfull]
  push_of_not_passes _ _ hpass := push_of_not_passes hpass
  pull?_eq_none_iff := s.pull?_eq_none_iff

end Counts

/-! ### Which entries wait -/

/-- **What is known of a stream**: so many records were pulled, and these entries wait. -/
structure Keeps (s : Stream n) (pulled : Nat) (pending : List Entry) : Prop
    extends s.Counts pulled (pulled + pending.length) where
  /-- They live in the slots of their numbers. -/
  entryAt_eq (i : Nat) (h : i < pending.length) :
    s.entryAt (UInt64.ofNat (pulled + i)) = pending[i]

theorem keeps_empty (pos : 0 < n) : (empty pos).Keeps 0 [] where
  toCounts := counts_empty pos
  entryAt_eq _ h := absurd h (Nat.not_lt_zero _)

/-- **A stream keeps what it contains.** -/
theorem Counts.keeps (h : s.Counts pulled pushed) (hn : n < 2 ^ 64) :
    s.Keeps pulled s.contents where
  toCounts := by rwa [length_contents, h.waiting_eq hn, Nat.add_sub_cancel' h.le]
  entryAt_eq i hi := by
    rw [UInt64.ofNat_add, ← h.tail_eq]
    simp only [contents, List.getElem_map, List.getElem_range]

namespace Keeps

theorem length_le (h : s.Keeps pulled pending) : pending.length ≤ n :=
  Nat.le_of_add_le_add_left h.le_add

theorem waiting_eq (h : s.Keeps pulled pending) (hn : n < 2 ^ 64) :
    s.waiting = pending.length := by
  rw [h.toCounts.waiting_eq hn, Nat.add_sub_cancel_left]

theorem contents_eq (h : s.Keeps pulled pending) (hn : n < 2 ^ 64) : s.contents = pending := by
  refine List.ext_getElem ?_ fun i hi hi' => ?_
  · rw [length_contents, h.waiting_eq hn]
  · rw [← h.entryAt_eq i hi', UInt64.ofNat_add, ← h.tail_eq]
    simp only [contents, List.getElem_map, List.getElem_range]

/-- A stream is full if there are as many entries as slots. -/
theorem isFull_iff (h : s.Keeps pulled pending) (hn : n < 2 ^ 64) :
    s.isFull = true ↔ pending.length = n := by
  rw [h.toCounts.isFull_iff hn, Nat.add_left_cancel_iff]

theorem length_lt (h : s.Keeps pulled pending) (hn : n < 2 ^ 64) (hfull : s.isFull = false) :
    pending.length < n := by
  refine Nat.lt_of_le_of_ne h.length_le fun heq => ?_
  rw [(h.isFull_iff hn).mpr heq] at hfull
  cases hfull

/-- **An entry stored in a free slot waits behind the others**, which have other slots. -/
theorem store (h : s.Keeps pulled pending) (hn : n < 2 ^ 64)
    (hfit : Regular n (pulled + pending.length + 1)) (hroom : pending.length < n) (e : Entry) :
    (s.store e).Keeps pulled (pending ++ [e.kept]) := by
  have hwaiting := h.waiting_eq hn
  have hcontents : (s.store e).contents = pending ++ [e.kept] := by
    rw [← h.contents_eq hn]
    refine List.ext_getElem? fun i => h.getElem?_contents_store hn (by omega) e fun hi => ?_
    rw [h.head_eq, h.tail_eq, ← UInt64.ofNat_add]
    exact (s.slot_ne hn hfit (by omega) (by omega) (by omega)).symm
  rw [← hcontents]
  exact (h.toCounts.store (by omega) e).keeps hn

/-- A record that is rejected changes nothing but the count of them. -/
theorem reject (h : s.Keeps pulled pending) : s.reject.Keeps pulled pending where
  toCounts := h.toCounts.congr rfl rfl
  entryAt_eq := h.entryAt_eq

/-- **A pull takes the first entry that waits.** -/
theorem pull?_cons {e : Entry} (h : s.Keeps pulled (e :: pending)) (hn : n < 2 ^ 64) :
    ∃ r t, s.pull? = some (r, t) ∧ r.entry = e ∧ t.Keeps (pulled + 1) pending := by
  obtain ⟨r, t, hpull⟩ := exists_pull? (by rw [h.waiting_eq hn]; exact Nat.succ_pos _)
  have hcontents := contents_of_pull? hpull
  rw [h.contents_eq hn] at hcontents
  obtain ⟨rfl, rfl⟩ := List.cons.inj hcontents
  exact ⟨r, t, hpull, rfl, (h.toCounts.pull hn hpull).keeps hn⟩

end Keeps

/-! ### Acts -/

/-- Something done to a stream. -/
inductive Act where
  /-- Push an entry, while the filter keeps records up to some level. -/
  | push (most : Level) (e : Entry)
  /-- Pull a record. -/
  | pull
  deriving DecidableEq, Repr

/-- What becomes of a stream in an act. -/
def act (s : Stream n) : Act → Stream n
  | .push most e => (s.push most e.time e.level e.message).2
  | .pull => (s.pull?.map Prod.snd).getD s

/-- The entry that is accepted in an act, if one is. -/
def accepts (s : Stream n) : Act → List Entry
  | .push most e => if (s.push most e.time e.level e.message).1 then [e] else []
  | .pull => []

/-- The entry that comes out in an act, if one does. -/
def yields (s : Stream n) : Act → List Entry
  | .push _ _ => []
  | .pull => (s.pull?.map fun p => p.1.entry).toList

/-- **What an act may do to a stream**: what becomes of it, which entries are accepted, and which
come out. -/
inductive Moves (s : Stream n) : Stream n → List Entry → List Entry → Prop
  /-- Nothing is taken and nothing comes out. A record may be counted as rejected. -/
  | still {t : Stream n} (hslots : t.slots = s.slots) (hhead : t.head = s.head)
      (htail : t.tail = s.tail) : Moves s t [] []
  /-- An entry is stored, for there is room. -/
  | store (hroom : s.waiting < n) (e : Entry) : Moves s (s.store e) [e] []
  | pull {r : Record} {t : Stream n} (hpull : s.pull? = some (r, t)) : Moves s t [] [r.entry]

theorem moves_act (s : Stream n) (a : Act) : s.Moves (s.act a) (s.accepts a) (s.yields a) := by
  cases a with
  | push most e =>
    rw [act, accepts, yields]
    cases hpass : e.level.passes most with
    | false =>
      rw [push_of_not_passes hpass]
      exact .still rfl rfl rfl
    | true =>
      cases hfull : s.isFull with
      | true =>
        rw [push_of_isFull hpass hfull]
        exact .still rfl rfl rfl
      | false =>
        rw [push_of_not_isFull hpass hfull]
        exact .store (by rwa [isFull, decide_eq_false_iff_not, Nat.not_le] at hfull) e
  | pull =>
    rw [act, accepts, yields]
    cases hpull : s.pull? with
    | none => exact .still rfl rfl rfl
    | some p => exact .pull hpull

section Moves

variable {t : Stream n} {taken given : List Entry}

/-- Every act is counted. -/
theorem Counts.moves (h : s.Counts pulled pushed) (hn : n < 2 ^ 64)
    (hmoves : s.Moves t taken given) :
    t.Counts (pulled + given.length) (pushed + taken.length) := by
  cases hmoves with
  | still _ hhead htail => exact h.congr hhead htail
  | store hroom e =>
    rw [h.waiting_eq hn] at hroom
    exact h.store (by omega) e
  | pull hpull => exact h.pull hn hpull

/-- **What waits and what is taken is what comes out and what waits then**, in its place, if no
record that is taken has the slot of the one in this place while it waits. -/
theorem Moves.getElem?_append (hmoves : s.Moves t taken given) (h : s.Counts pulled pushed)
    (hn : n < 2 ^ 64) {i : Nat} (hapart : given.length ≤ i → ∀ l, pulled + i < l →
      l < pushed + taken.length → s.slot (UInt64.ofNat (pulled + i)) ≠ s.slot (UInt64.ofNat l)) :
    (given ++ t.contents)[i]? = (s.contents ++ taken.map Entry.kept)[i]? := by
  cases hmoves with
  | still hslots hhead htail =>
    rw [contents_congr hslots hhead htail, List.nil_append, List.map_nil, List.append_nil]
  | store hroom e =>
    refine h.getElem?_contents_store hn hroom e fun hi => ?_
    rw [h.waiting_eq hn] at hi
    rw [h.head_eq, h.tail_eq, ← UInt64.ofNat_add]
    exact (hapart (Nat.zero_le i) pushed (by omega) (Nat.lt_succ_self pushed)).symm
  | pull hpull =>
    rw [contents_of_pull? hpull, List.map_nil, List.append_nil, List.singleton_append]

end Moves

/-! ### Runs -/

/-- What becomes of a stream in one act after another. -/
def run (s : Stream n) (acts : List Act) : Stream n := acts.foldl act s

/-- The entries that are accepted in one act after another. -/
def accepted (s : Stream n) : List Act → List Entry
  | [] => []
  | a :: acts => s.accepts a ++ (s.act a).accepted acts

/-- The entries that come out in one act after another. -/
def drained (s : Stream n) : List Act → List Entry
  | [] => []
  | a :: acts => s.yields a ++ (s.act a).drained acts

theorem run_cons (s : Stream n) (a : Act) (acts : List Act) :
    s.run (a :: acts) = (s.act a).run acts := rfl

theorem run_append (s : Stream n) (acts more : List Act) :
    s.run (acts ++ more) = (s.run acts).run more := List.foldl_append

theorem accepted_append (s : Stream n) (acts more : List Act) :
    s.accepted (acts ++ more) = s.accepted acts ++ (s.run acts).accepted more := by
  induction acts generalizing s with
  | nil => rfl
  | cons a acts ih =>
    rw [List.cons_append, accepted, accepted, ih, List.append_assoc]
    rfl

theorem drained_append (s : Stream n) (acts more : List Act) :
    s.drained (acts ++ more) = s.drained acts ++ (s.run acts).drained more := by
  induction acts generalizing s with
  | nil => rfl
  | cons a acts ih =>
    rw [List.cons_append, drained, drained, ih, List.append_assoc]
    rfl

theorem accepted_singleton (s : Stream n) (a : Act) : s.accepted [a] = s.accepts a :=
  List.append_nil _

theorem drained_singleton (s : Stream n) (a : Act) : s.drained [a] = s.yields a :=
  List.append_nil _

/-- **Every run is counted.** -/
theorem counts_run (pos : 0 < n) (hn : n < 2 ^ 64) (acts : List Act) :
    ((empty pos).run acts).Counts ((empty pos).drained acts).length
      ((empty pos).accepted acts).length := by
  induction acts using List.reverseRecOn with
  | nil => exact counts_empty pos
  | append_singleton acts a ih =>
    rw [run_append, accepted_append, drained_append, accepted_singleton, drained_singleton,
      List.length_append, List.length_append]
    exact ih.moves hn (moves_act _ a)

theorem length_accepted (pos : 0 < n) (hn : n < 2 ^ 64) (acts : List Act) :
    ((empty pos).accepted acts).length =
      ((empty pos).drained acts).length + ((empty pos).run acts).contents.length := by
  have hcounts := counts_run pos hn acts
  rw [length_contents, hcounts.waiting_eq hn, Nat.add_sub_cancel' hcounts.le]

/-- **A record shares its slot in a run** if at some time of the run it waits, and so does one that
was accepted after it and has the same slot. -/
def SharesSlot (s : Stream n) (acts : List Act) (k : Nat) : Prop :=
  ∃ part l, part <+: acts ∧ (s.drained part).length ≤ k ∧ k < l ∧
    l < (s.accepted part).length ∧ s.slot (UInt64.ofNat k) = s.slot (UInt64.ofNat l)

theorem SharesSlot.append {acts : List Act} {k : Nat} (h : s.SharesSlot acts k) (more : List Act) :
    s.SharesSlot (acts ++ more) k := by
  obtain ⟨part, l, hpart, hrest⟩ := h
  exact ⟨part, l, hpart.trans (List.prefix_append acts more), hrest⟩

/-- **A record that shares its slot with none stays what it is**: it waits, or came out, in the
place in which it was accepted. -/
theorem getElem?_drained_append (pos : 0 < n) (hn : n < 2 ^ 64) (acts : List Act) {k : Nat}
    (h : ¬(empty pos).SharesSlot acts k) :
    ((empty pos).drained acts ++ ((empty pos).run acts).contents)[k]? =
      (((empty pos).accepted acts).map Entry.kept)[k]? := by
  induction acts using List.reverseRecOn with
  | nil => exact congrArg (·[k]?) ((keeps_empty pos).contents_eq hn)
  | append_singleton acts a ih =>
    have hcounts := counts_run pos hn acts
    have hlength := length_accepted pos hn acts
    have hbefore := ih fun hshares => h (hshares.append [a])
    -- the last act leaves the place alone
    have hlast (hk : ((empty pos).drained acts).length ≤ k) :=
      (moves_act ((empty pos).run acts) a).getElem?_append hcounts hn
        (i := k - ((empty pos).drained acts).length) fun hgiven l hkl hl hslot => by
          rw [Nat.add_sub_cancel' hk] at hkl hslot
          refine h ⟨acts ++ [a], l, List.prefix_rfl, ?_, hkl, ?_, hslot⟩
          · rw [drained_append, drained_singleton, List.length_append]
            omega
          · rwa [accepted_append, accepted_singleton, List.length_append]
    rw [run_append, drained_append, accepted_append, drained_singleton, accepted_singleton,
      List.map_append, List.append_assoc]
    rcases Nat.lt_or_ge k ((empty pos).drained acts).length with hk | hk
    · rw [List.getElem?_append_left hk] at hbefore ⊢
      rw [hbefore, List.getElem?_append_left (by rw [List.length_map]; omega)]
    · have hmap : (((empty pos).accepted acts).map Entry.kept).length =
          ((empty pos).drained acts ++ ((empty pos).run acts).contents).length := by
        rw [List.length_map, List.length_append, hlength]
      calc ((empty pos).drained acts ++ (((empty pos).run acts).yields a ++
              (((empty pos).run acts).act a).contents))[k]?
        _ = ((empty pos).drained acts ++ (((empty pos).run acts).contents ++
              (((empty pos).run acts).accepts a).map Entry.kept))[k]? := by
          rw [List.getElem?_append_right hk, List.getElem?_append_right hk, hlast hk]
        _ = (((empty pos).accepted acts).map Entry.kept ++
              (((empty pos).run acts).accepts a).map Entry.kept)[k]? := by
          rw [← List.append_assoc, List.getElem?_append, hbefore, ← hmap, ← List.getElem?_append]

/-- Where the slots come round without a break, no record shares its slot. -/
theorem not_sharesSlot (pos : 0 < n) (hn : n < 2 ^ 64) {acts : List Act}
    (hfit : Regular n ((empty pos).accepted acts).length) (k : Nat) :
    ¬(empty pos).SharesSlot acts k := by
  rintro ⟨part, l, ⟨more, rfl⟩, hk, hkl, hl, hslot⟩
  have hturn := (counts_run pos hn part).le_add
  rw [accepted_append, List.length_append] at hfit
  exact (empty pos).slot_ne hn (hfit.mono (Nat.le_add_right _ _)) hkl (by omega) hl hslot

theorem map_kept_accepted (pos : 0 < n) (hn : n < 2 ^ 64) {acts : List Act}
    (hfit : Regular n ((empty pos).accepted acts).length) :
    ((empty pos).accepted acts).map Entry.kept =
      (empty pos).drained acts ++ ((empty pos).run acts).contents :=
  List.ext_getElem? fun k =>
    (getElem?_drained_append pos hn acts (not_sharesSlot pos hn hfit k)).symm

/-- **First in, first out.** A stream of any capacity is pushed to and pulled from in any order,
under a filter that may change, and its counters may wrap. As many entries wait as were accepted and
did not come out, and the stream is ready to go on as a queue of so many entries as it has slots.

Every record that shared its slot with none comes out, or waits, in the place in which it was
accepted: its time and its level as they were, and its message as far as a record holds it. Two
records that wait have the same slot only if the counter wraps on the way from the one to the other
and they are as far apart as `2 ^ 64` is beyond the last whole turn. So if the capacity divides
`2 ^ 64`, or no more than `2 ^ 64` records have been accepted, then no record shares its slot, and
what was accepted is what came out, in the same order, and what waits. -/
theorem accepted_eq_drained_append (pos : 0 < n) (hn : n < 2 ^ 64) (acts : List Act) :
    let fresh := empty pos
    let s := fresh.run acts
    s.Counts (fresh.drained acts).length (fresh.accepted acts).length ∧ s.Orderly ∧
      (fresh.accepted acts).length = (fresh.drained acts).length + s.contents.length ∧
      (∀ k, ¬fresh.SharesSlot acts k → (fresh.drained acts ++ s.contents)[k]? =
        ((fresh.accepted acts).map Entry.kept)[k]?) ∧
      (∀ k l, (fresh.drained acts).length ≤ k → k < l → l < (fresh.accepted acts).length →
        s.slot (UInt64.ofNat k) = s.slot (UInt64.ofNat l) → Clash n k l) ∧
      (Regular n (fresh.accepted acts).length → (∀ k, ¬fresh.SharesSlot acts k) ∧
        (fresh.accepted acts).map Entry.kept = fresh.drained acts ++ s.contents) := by
  intro fresh s
  have hcounts := counts_run pos hn acts
  refine ⟨hcounts, hcounts.orderly hn, length_accepted pos hn acts,
    fun k hk => getElem?_drained_append pos hn acts hk, fun k l hk hkl hl hslot => ?_,
    fun hfit => ⟨not_sharesSlot pos hn hfit, map_kept_accepted pos hn hfit⟩⟩
  have hturn : l < k + n :=
    Nat.lt_of_lt_of_le hl (hcounts.le_add.trans (Nat.add_le_add_right hk n))
  exact (s.slot_ofNat_eq_iff hn hkl hturn).mp hslot

/-- A message of five bytes goes through a stream of three slots, and another one waits behind
it. -/
theorem accepted_eq_drained_append_three :
    let e : Entry := ⟨7, .warn, [0x68, 0x65, 0x6c, 0x6c, 0x6f]⟩
    let acts : List Act := [.push .info e, .push .info ⟨8, .debug, []⟩, .push .info e, .pull]
    0 < 3 ∧ 3 < 2 ^ 64 ∧ Regular 3 ((empty (by decide : 0 < 3)).accepted acts).length ∧
      (empty (by decide : 0 < 3)).accepted acts = [e, e] ∧
      (empty (by decide : 0 < 3)).drained acts ++
        ((empty (by decide : 0 < 3)).run acts).contents = [e, e] := by
  intro e acts
  have hn : 3 < 2 ^ 64 := by decide
  have haccepted : (empty (by decide : 0 < 3)).accepted acts = [e, e] := by decide +kernel
  have hfit : Regular 3 ((empty (by decide : 0 < 3)).accepted acts).length := by
    rw [haccepted]
    exact Or.inr (by decide)
  obtain ⟨-, -, -, -, -, hregular⟩ := accepted_eq_drained_append (by decide) hn acts
  refine ⟨by decide, hn, hfit, haccepted, ?_⟩
  rw [← (hregular hfit).2, haccepted]
  decide

/-! ### Counters that wrap -/

/-- Push the same entry so many times, under a filter that lets everything pass. -/
def pushes (e : Entry) (m : Nat) : List Act := List.replicate m (.push .trace e)

/-- Push the same entry so many times, and pull it every time. -/
def exchanges (e : Entry) : Nat → List Act
  | 0 => []
  | m + 1 => .push .trace e :: .pull :: exchanges e m

/-- Push an entry and pull it until the counters are about to wrap, fill the slots from the first
one on as far as there are numbers left, and push one more entry. -/
def wrapping (n : Nat) (first last : Entry) : List Act :=
  exchanges first (2 ^ 64 - 2 ^ 64 % n) ++ (pushes first (2 ^ 64 % n) ++ [.push .trace last])

/-- A push into a stream with room. -/
theorem Keeps.act_push (h : s.Keeps pulled pending) (hn : n < 2 ^ 64)
    (hroom : pending.length < n) (e : Entry) :
    s.act (.push .trace e) = s.store e ∧ s.accepts (.push .trace e) = [e] := by
  have hfull : s.isFull = false := by
    rw [← Bool.not_eq_true, h.isFull_iff hn]
    exact Nat.ne_of_lt hroom
  rw [Stream.act, accepts, push_of_not_isFull e.level.passes_trace hfull]
  exact ⟨rfl, rfl⟩

/-- Entries that are pushed with room for all of them wait behind the others. -/
theorem Keeps.run_pushes (h : s.Keeps pulled pending) (hn : n < 2 ^ 64) {m : Nat}
    (hroom : pending.length + m ≤ n) (hfit : Regular n (pulled + (pending.length + m))) (e : Entry) :
    (s.run (pushes e m)).Keeps pulled (pending ++ List.replicate m e.kept) ∧
      s.accepted (pushes e m) = List.replicate m e ∧ s.drained (pushes e m) = [] := by
  induction m generalizing s pending with
  | zero => exact ⟨(List.append_nil pending).symm ▸ h, rfl, rfl⟩
  | succ m ih =>
    obtain ⟨hact, haccepts⟩ := h.act_push hn (by omega) e
    have hlength : (pending ++ [e.kept]).length + m = pending.length + (m + 1) := by
      rw [List.length_append, List.length_singleton, Nat.add_assoc, Nat.add_comm 1]
    obtain ⟨hkeeps, haccepted, hdrained⟩ :=
      ih (h.store hn (hfit.mono (by omega)) (by omega) e) (by rwa [hlength]) (by rwa [hlength])
    rw [List.append_assoc, List.singleton_append] at hkeeps
    rw [pushes, List.replicate_succ, run_cons, accepted, drained, haccepts, hact]
    exact ⟨hkeeps, congrArg (e :: ·) haccepted, hdrained⟩

/-- Entries that are pulled one by one leave a stream as empty as it was. -/
theorem Keeps.run_exchanges (h : s.Keeps pulled []) (hn : n < 2 ^ 64) {m : Nat}
    (hfit : Regular n (pulled + m)) (e : Entry) :
    (s.run (exchanges e m)).Keeps (pulled + m) [] ∧
      s.accepted (exchanges e m) = List.replicate m e ∧
      s.drained (exchanges e m) = List.replicate m e.kept := by
  induction m generalizing s pulled with
  | zero => exact ⟨h, rfl, rfl⟩
  | succ m ih =>
    obtain ⟨hact, haccepts⟩ := h.act_push hn s.pos e
    obtain ⟨r, t, hpull, hr, hkeeps⟩ :=
      (h.store hn (hfit.mono (by rw [List.length_nil]; omega)) s.pos e).pull?_cons hn
    have hpulled : (s.store e).act .pull = t ∧ (s.store e).yields .pull = [e.kept] := by
      rw [Stream.act, yields, hpull, ← hr]
      exact ⟨rfl, rfl⟩
    obtain ⟨hrun, haccepted, hdrained⟩ := ih hkeeps (by rwa [Nat.add_assoc, Nat.add_comm 1])
    rw [Nat.add_assoc, Nat.add_comm 1] at hrun
    rw [exchanges, run_cons, run_cons, accepted, accepted, drained, drained, haccepts, hact,
      hpulled.1, hpulled.2, haccepted, hdrained]
    exact ⟨hrun, rfl, rfl⟩

/-- **An entry stored in the slot of the oldest one comes out in its place.** -/
theorem Keeps.contents_store (h : s.Keeps pulled pending) (hn : n < 2 ^ 64)
    (hroom : pending.length < n) (hslot : s.slot s.tail = s.slot s.head) (e : Entry) :
    (s.store e).waiting = pending.length + 1 ∧ (s.store e).contents.head? = some e.kept ∧
      (s.store e).yields .pull = [e.kept] := by
  have hhead : (s.store e).head = UInt64.ofNat (pulled + (pending.length + 1)) := by
    rw [← Nat.add_assoc, UInt64.ofNat_add, ← h.head_eq]
    rfl
  have hwaiting := waiting_of_eq (s := s.store e) hhead h.tail_eq (by omega)
  have hfirst : (s.store e).entryAt (s.store e).tail = e.kept := by
    rw [← entryAt_store_head s e, entryAt, entryAt]
    exact congrArg (fun i : Fin n => (s.store e).slots[i].entry) hslot
  refine ⟨hwaiting, ?_, ?_⟩
  · rw [contents, hwaiting, List.range_succ_eq_map, List.map_cons, List.head?_cons]
    exact congrArg some ((congrArg (s.store e).entryAt (UInt64.add_zero _)).trans hfirst)
  · rw [yields, pull?, if_neg (tail_ne_head (by rw [hwaiting]; exact Nat.succ_pos _))]
    exact congrArg (fun e => [e]) hfirst

/-- **When the counters have wrapped, an entry that waits is overwritten**, if the capacity does not
divide `2 ^ 64`. The last entry goes into the slot of the oldest one that waits, and comes out in
its place. -/
theorem overwritten_wrapping (pos : 0 < n) (hn : n < 2 ^ 64) (hdvd : ¬n ∣ 2 ^ 64)
    (first last : Entry) :
    let acts := wrapping n first last
    let s := (empty pos).run acts
    (empty pos).accepted acts = List.replicate (2 ^ 64) first ++ [last] ∧
      (empty pos).drained acts = List.replicate (2 ^ 64 - 2 ^ 64 % n) first.kept ∧
      s.waiting = 2 ^ 64 % n + 1 ∧
      s.slot s.tail = s.slot (s.tail + UInt64.ofNat (2 ^ 64 % n)) ∧
      s.contents.head? = some last.kept ∧ s.yields .pull = [last.kept] := by
  have hlt : 2 ^ 64 % n < n := Nat.mod_lt _ pos
  have hrest : 0 < 2 ^ 64 % n := Nat.pos_of_ne_zero fun hzero => hdvd (Nat.dvd_of_mod_eq_zero hzero)
  have hsum : 2 ^ 64 - 2 ^ 64 % n + 2 ^ 64 % n = 2 ^ 64 := Nat.sub_add_cancel (Nat.mod_le _ _)
  have hclash : Clash n (2 ^ 64 - 2 ^ 64 % n) (2 ^ 64 - 2 ^ 64 % n + 2 ^ 64 % n) := by
    refine ⟨rfl, ?_⟩
    rw [Nat.mod_eq_of_lt (by omega), hsum]
  have hslot := ((empty pos).slot_ofNat_eq_iff hn (by omega) (by omega)).mpr hclash
  rw [wrapping]
  generalize 2 ^ 64 % n = m at *
  generalize 2 ^ 64 - m = k at *
  intro acts s
  obtain ⟨hempty, haccepted, hdrained⟩ :=
    (keeps_empty pos).run_exchanges hn (m := k) (Or.inr (by omega)) first
  obtain ⟨hfilled, haccepted', hdrained'⟩ :=
    hempty.run_pushes hn (m := m) (by simp only [List.length_nil]; omega)
      (Or.inr (by simp only [List.length_nil]; omega)) first
  rw [List.nil_append, Nat.zero_add] at hfilled
  have hlength : (List.replicate m first.kept).length = m := List.length_replicate
  obtain ⟨hact, haccepts⟩ := hfilled.act_push hn (by rwa [hlength]) last
  have hs : s = (((empty pos).run (exchanges first k)).run (pushes first m)).store last := by
    rw [← hact, ← run_append]
    exact (congrArg (empty pos).run (List.append_assoc _ _ _).symm).trans (run_append _ _ _)
  have htail : s.tail = UInt64.ofNat k := by
    rw [hs]
    exact hfilled.tail_eq
  have hlast : s.tail + UInt64.ofNat m = UInt64.ofNat (k + m) := by rw [htail, UInt64.ofNat_add]
  obtain ⟨hwaiting, hcontents, hyields⟩ := hfilled.contents_store hn (by rwa [hlength])
    (by rw [hfilled.tail_eq, hfilled.head_eq, hlength]; exact hslot) last
  rw [hlength] at hwaiting
  refine ⟨?_, ?_, by rw [hs, hwaiting], ?_, by rw [hs, hcontents], by rw [hs, hyields]⟩
  · rw [accepted_append, accepted_append, haccepted, haccepted', ← hsum,
      ← List.replicate_append_replicate, List.append_assoc, accepted, accepted, haccepts]
    rfl
  · rw [drained_append, drained_append, hdrained, hdrained']
    exact List.append_nil _
  · rw [hlast, htail]
    exact hslot

/-- **The condition is exact**: a stream is first in, first out for as long as it has accepted `k`
entries at most just if its slots come round without a break for so many. -/
theorem regular_iff_forall_accepted (pos : 0 < n) (hn : n < 2 ^ 64) (k : Nat) :
    Regular n k ↔ ∀ acts, ((empty pos).accepted acts).length ≤ k →
      ((empty pos).accepted acts).map Entry.kept =
        (empty pos).drained acts ++ ((empty pos).run acts).contents := by
  constructor
  · exact fun h acts hk => map_kept_accepted pos hn (h.mono hk)
  intro hall
  by_contra hbreak
  obtain ⟨hdvd, hk⟩ := not_or.mp hbreak
  have hrest : 0 < 2 ^ 64 % n :=
    Nat.pos_of_ne_zero fun hzero => hdvd (Nat.dvd_of_mod_eq_zero hzero)
  obtain ⟨haccepted, hdrained, -, -, hcontents, -⟩ :=
    overwritten_wrapping pos hn hdvd ⟨1, .error, []⟩ ⟨2, .error, []⟩
  have heq := hall (wrapping n ⟨1, .error, []⟩ ⟨2, .error, []⟩) (by
    rw [haccepted, List.length_append, List.length_replicate]
    exact Nat.lt_of_not_le hk)
  rw [haccepted, hdrained, List.map_append, List.map_replicate] at heq
  -- what ought to come out next is the first entry, and what comes out is the last one
  generalize hm : 2 ^ 64 - 2 ^ 64 % n = m at heq
  have hnext := congrArg (·[m]?) heq
  rw [List.getElem?_append_left (by rw [List.length_replicate]; omega),
    List.getElem?_append_right (by rw [List.length_replicate]), List.length_replicate,
    Nat.sub_self, ← List.head?_eq_getElem?, hcontents, List.getElem?_replicate,
    if_pos (by omega)] at hnext
  exact absurd hnext (by decide)

/-- A stream of three slots cuts a message of 121 bytes. And when its counters have wrapped, the two
entries that wait share a slot, so that the newer one comes out instead of the older one. -/
theorem cut_and_overwritten_three :
    let long : Entry := ⟨7, .error, List.replicate 121 0x61⟩
    let first : Entry := ⟨1, .error, []⟩
    let last : Entry := ⟨2, .error, []⟩
    let fresh : Stream 3 := empty (by decide)
    let wrapped := fresh.run (wrapping 3 first last)
    (fresh.accepted [.push .info long, .pull] = [long] ∧
        fresh.drained [.push .info long, .pull] =
          [{ long with message := List.replicate 120 0x61 }]) ∧
      fresh.accepted (wrapping 3 first last) = List.replicate (2 ^ 64) first ++ [last] ∧
      fresh.drained (wrapping 3 first last) = List.replicate (2 ^ 64 - 1) first ∧
      wrapped.waiting = 2 ∧ wrapped.slot wrapped.tail = wrapped.slot (wrapped.tail + 1) ∧
      wrapped.yields .pull = [last] := by
  intro long first last fresh wrapped
  have hcut : fresh.accepted [.push .info long, .pull] = [long] ∧
      fresh.drained [.push .info long, .pull] =
        [{ long with message := List.replicate 120 0x61 }] := by
    decide +kernel
  have hwrapped := overwritten_wrapping (by decide : 0 < 3) (by decide) (by decide) first last
  have hone : 2 ^ 64 % 3 = 1 := by decide
  have hfirst : first.kept = first := by decide
  have hlast : last.kept = last := by decide
  rw [hone, hfirst, hlast] at hwrapped
  obtain ⟨haccepted, hdrained, hwaiting, hslot, -, hyields⟩ := hwrapped
  exact ⟨hcut, haccepted, hdrained, hwaiting, hslot, hyields⟩

end Stream

end MorseKeyboard.Log
