/-!
# Ring queues

Every queue of the keyboard is a ring of fixed capacity: paddle edges, symbols, characters to play,
decoded characters to type. Whoever fills a queue must never wait, so **a push into a full ring
gives up the oldest unread value**.

A ring is its slots, the slot to be written next, the slot to be read next and the number of unread
values. The two places are elements of `Fin n`, so they are inside the ring by their type; that the
write place lies `count` slots after the read place is what the operations keep, not what the type
says. What a ring holds is `MorseKeyboard.Ring.toList`, the unread values from the oldest to the
newest, found by counting slots from the read place. Taking values out one at a time until none is
left is `MorseKeyboard.Ring.drain`.
-/

namespace MorseKeyboard

/-- A queue of at most `n` unread values of type `α`. -/
structure Ring (α : Type) (n : Nat) where
  /-- The values, read and unread. -/
  slots : Vector α n
  /-- The slot that the next push writes. -/
  write : Fin n
  /-- The slot of the oldest unread value. -/
  read : Fin n
  /-- How many values are unread. -/
  count : Nat
  deriving DecidableEq, Repr

namespace Ring

variable {α : Type} {n : Nat}

/-- A ring with nothing to read. The filling is never read back. -/
def empty (n : Nat) (filling : α) (h : 0 < n := by exact Nat.zero_lt_succ _) : Ring α n where
  slots := Vector.replicate n filling
  write := ⟨0, h⟩
  read := ⟨0, h⟩
  count := 0

/-- The slot after a slot, the first one coming after the last. -/
def next (i : Fin n) : Fin n :=
  if h : i.val + 1 < n then ⟨i.val + 1, h⟩ else ⟨0, Nat.lt_of_le_of_lt (Nat.zero_le _) i.isLt⟩

/-- The number of unread values. -/
def size (r : Ring α n) : Nat := r.count

/-- Whether all is read. -/
def isEmpty (r : Ring α n) : Bool := r.count == 0

/-- Whether the next push gives up a value. -/
def isFull (r : Ring α n) : Bool := r.count == n

/-- The most unread values a ring can hold. -/
def capacity (_ : Ring α n) : Nat := n

/-- Put a value into the slot to be written, and go on to the next one. -/
def store (r : Ring α n) (a : α) : Ring α n :=
  { r with slots := r.slots.set r.write a, write := next r.write }

/-- Append a value; the oldest unread one goes if there is no room. -/
def push (r : Ring α n) (a : α) : Ring α n :=
  if r.count = n then { r.store a with read := next r.read }
  else { r.store a with count := r.count + 1 }

/-- Append values one after another. -/
def pushAll (r : Ring α n) (as : List α) : Ring α n := as.foldl push r

/-- The oldest unread value, left where it is. -/
def peek? (r : Ring α n) : Option α :=
  if r.count = 0 then none else some (r.slots.get r.read)

/-- The oldest unread value and the ring without it; nothing if all is read. -/
def pop? (r : Ring α n) : Option (α × Ring α n) :=
  if r.count = 0 then none
  else some (r.slots.get r.read, { r with read := next r.read, count := r.count - 1 })

/-- The ring with everything counted as read. -/
def clear (r : Ring α n) : Ring α n := { r with read := r.write, count := 0 }

/-! ### What a ring holds -/

/-- The slot `i` places after the read place. -/
def slotAfter (r : Ring α n) (i : Nat) : Fin n :=
  ⟨(r.read.val + i) % n, Nat.mod_lt _ (Nat.lt_of_le_of_lt (Nat.zero_le _) r.read.isLt)⟩

/-- The unread values, oldest first. -/
def toList (r : Ring α n) : List α :=
  (List.range r.count).map fun i => r.slots.get (r.slotAfter i)

/-- Pop up to so many times: the values that came out, and the ring afterwards. -/
def take (r : Ring α n) : Nat → List α × Ring α n
  | 0 => ([], r)
  | k + 1 =>
    match r.pop? with
    | none => ([], r)
    | some (a, s) =>
      let (as, last) := s.take k
      (a :: as, last)

/-- Pop until nothing is left: the values that came out, and the ring afterwards. -/
def drain (r : Ring α n) : List α × Ring α n := r.take r.count

end Ring

end MorseKeyboard
