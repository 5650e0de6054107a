import MorseKeyboard.Log.Writer

/-!
# Log streams

A stream hands records from one producer to one consumer through a fixed number of slots. It counts
the records ever pushed and the records ever pulled; the record with number `k` lives in slot
`k % n`. The counters are 64 bits wide and wrap, the number of records waiting is their difference.
**A full stream rejects the record, and counts it**, unlike a ring queue, which gives up the
oldest value: what was logged first is what explains the rest.
-/

namespace MorseKeyboard.Log

/-- A queue of records in `n` slots. -/
structure Stream (n : Nat) where
  slots : Vector Record n
  /-- How many records were ever pushed. -/
  head : UInt64
  /-- How many records were ever pulled. -/
  tail : UInt64
  /-- How many records found no free slot since counting was started afresh. -/
  rejected : UInt32
  /-- There is at least one slot. -/
  pos : 0 < n
  deriving DecidableEq

namespace Stream

variable {n : Nat}

/-- A stream in which nothing was pushed. -/
def empty (pos : 0 < n) : Stream n where
  slots := Vector.replicate n Record.blank
  head := 0
  tail := 0
  rejected := 0
  pos

/-- The empty stream with `n` slots, if that is at least one. -/
def empty? (n : Nat) : Option (Stream n) := if pos : 0 < n then some (empty pos) else none

/-- The slot of the record with number `k`. -/
def slot (s : Stream n) (k : UInt64) : Fin n := ⟨k.toNat % n, Nat.mod_lt _ s.pos⟩

/-- How many records are pushed and not yet pulled. -/
def waiting (s : Stream n) : Nat := (s.head - s.tail).toNat

/-- The number of records waiting, as far as 32 bits can tell it. -/
def pending (s : Stream n) : UInt32 := (s.head - s.tail).toUInt32

/-- Whether there are records waiting. -/
def isWaiting (s : Stream n) : Bool := 0 < s.pending

/-- Start counting rejected records afresh. -/
def forgetRejected (s : Stream n) : Stream n := { s with rejected := 0 }

/-- Whether no slot is free. -/
def isFull (s : Stream n) : Bool := n ≤ s.waiting

/-- Push a record, if its level passes and a slot is free: whether it was taken, and the stream
afterwards. Only a record that finds no free slot counts as rejected. -/
def push (s : Stream n) (most : Level) (time : UInt16) (level : Level)
    (message : List UInt8) : Bool × Stream n :=
  if !level.passes most then (false, s)
  else if s.isFull then (false, { s with rejected := s.rejected + 1 })
  else
    let i := s.slot s.head
    (true, { s with
      slots := s.slots.set i (s.slots[i].reuse time level message)
      head := s.head + 1 })

/-- Put a message together from its pieces and push it. -/
def note (s : Stream n) (most : Level) (time : UInt16) (level : Level)
    (pieces : List String) : Bool × Stream n :=
  s.push most time level (Message.ofPieces pieces).bytes

/-- The oldest record waiting, and the stream without it. -/
def pull? (s : Stream n) : Option (Record × Stream n) :=
  if s.tail = s.head then none
  else some (s.slots[s.slot s.tail], { s with tail := s.tail + 1 })

/-! ### Writing a stream out -/

/-- Write up to so many records, as long as there are any and no part of a line is refused. Gives
the number of lines written, the writer and the stream. -/
def writeSome (s : Stream n) (w : Writer) : Nat → Nat × Writer × Stream n
  | 0 => (0, w, s)
  | k + 1 =>
    match s.pull? with
    | none => (0, w, s)
    | some (r, rest) =>
      match w.writeRecord r with
      | (false, w) => (0, w, rest)
      | (true, w) =>
        let (count, w, last) := rest.writeSome w k
        (count + 1, w, last)

/-- Pull records and write their lines until none is left or a part of a line is refused. **The
record whose line was refused is gone.** -/
def writeTo (s : Stream n) (w : Writer) : Nat × Writer × Stream n := s.writeSome w s.waiting

end Stream

end MorseKeyboard.Log
