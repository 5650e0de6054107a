import MorseKeyboard.Proofs.Log.Order

/-!
# The lines of a log stream

A message is text, because each of its pieces is cut to whole characters
(`MorseKeyboard.Log.Message.legible_ofPieces`), and it fits into a record. So a record made from one
is written out **as the bytes of the message, between the time and level before it and the newline
behind it** (`MorseKeyboard.Log.Record.bytes_line`), and never as a notice that it cannot be read.

So what a record adds to a stream is told by its entry as well: it waits behind the others, or is
counted if there is no room for it (`MorseKeyboard.Log.Stream.Gains`).

A writer without a limit takes every line. Into such a writer a stream is written out to the last
record that waits, in the order in which they wait
(`MorseKeyboard.Log.Stream.Keeps.writeTo`).
-/

namespace MorseKeyboard.Log

/-! ### Messages are text -/

/-- A message that is text and fits into a record. -/
structure Legible (message : List UInt8) : Prop where
  exists_text : ∃ text : String, Text.bytes text = message
  length_le : message.length ≤ Message.capacity

namespace Message

theorem legible_empty : Legible empty.bytes where
  exists_text := ⟨"", rfl⟩
  length_le := Nat.zero_le _

/-- **A piece keeps a message legible**, however much of it fits. -/
theorem legible_write {l : Message} (h : Legible l.bytes) (piece : String) :
    Legible (l.write piece).bytes where
  exists_text := by
    obtain ⟨text, htext⟩ := h.exists_text
    exact ⟨text ++ Text.cut l.room piece, by rw [Text.bytes_append, htext, write]⟩
  length_le := by
    have hcut := Text.length_bytes_cut_le l.room piece
    have hle := h.length_le
    rw [room] at hcut
    rw [write, List.length_append, room]
    omega

theorem legible_foldl_write {l : Message} (h : Legible l.bytes) (pieces : List String) :
    Legible (pieces.foldl write l).bytes := by
  induction pieces generalizing l with
  | nil => exact h
  | cons piece rest ih => exact ih (legible_write h piece)

/-- **A message put together from pieces is legible.** -/
theorem legible_ofPieces (pieces : List String) : Legible (ofPieces pieces).bytes :=
  legible_foldl_write legible_empty pieces

theorem bytes_foldl_write {l : Message} {pieces : List String}
    (h : l.bytes.length + (pieces.flatMap Text.bytes).length ≤ capacity) :
    (pieces.foldl write l).bytes = l.bytes ++ pieces.flatMap Text.bytes := by
  induction pieces generalizing l with
  | nil => exact (List.append_nil l.bytes).symm
  | cons piece rest ih =>
    rw [List.flatMap_cons, List.length_append] at h
    have hwhole : (l.write piece).bytes = l.bytes ++ Text.bytes piece := by
      rw [write, Text.cut_eq_self (by rw [room]; omega)]
    rw [List.foldl_cons, ih (by rw [hwhole, List.length_append]; omega), hwhole,
      List.flatMap_cons, List.append_assoc]

/-- **A message that fits is kept whole.** -/
theorem bytes_ofPieces {pieces : List String}
    (h : (Text.bytes (String.join pieces)).length ≤ capacity) :
    (ofPieces pieces).bytes = Text.bytes (String.join pieces) := by
  rw [Text.bytes_join] at h ⊢
  exact bytes_foldl_write (by rwa [empty, List.length_nil, Nat.zero_add])

end Message

namespace Entry

/-- The entry of a message put together from pieces. -/
def ofPieces (time : UInt16) (level : Level) (pieces : List String) : Entry where
  time
  level
  message := (Message.ofPieces pieces).bytes

/-- The bytes of the line of an entry. -/
def line (e : Entry) : List UInt8 :=
  Text.bytes ("[" ++ Record.column e.time.toNat ++ "] " ++ e.level.label ++ ": ") ++ e.message ++
    Text.bytes "\n"

/-- **A record keeps the whole of a message that fits.** -/
theorem kept_eq_self {e : Entry} (h : Legible e.message) : e.kept = e := by
  rw [kept, List.take_of_length_le h.length_le]

end Entry

/-- **The line of a record is the line of its entry**, if the message can be read. -/
theorem Record.bytes_line (r : Record) (h : Legible r.entry.message) :
    Text.bytes r.line = r.entry.line := by
  obtain ⟨text, htext⟩ := h.exists_text
  have hread : (Text.ofBytes? r.body).getD unreadable = text := by
    rw [show r.body = Text.bytes text from htext.symm, Text.ofBytes?_bytes, Option.getD_some]
  rw [line, Text.bytes_join, pieces, hread, Entry.line, ← htext]
  simp only [List.flatMap_cons, List.flatMap_nil, Text.bytes_append, List.append_assoc,
    List.append_nil, entry]

/-! ### One record more -/

namespace Stream

variable {n : Nat} {s : Stream n} {pulled : Nat} {pending : List Entry} {most : Level} {e : Entry}
  {time : UInt16} {level : Level} {pieces : List String}

/-- **An entry that can be read waits behind the others as it is.** -/
theorem Keeps.store_of_legible (h : s.Keeps pulled pending) (hdvd : n ∣ 2 ^ 64) (hn : n < 2 ^ 64)
    (hroom : pending.length < n) (he : Legible e.message) :
    (s.store e).Keeps pulled (pending ++ [e]) := by
  have hstore := h.store hn (Or.inl hdvd) hroom e
  rwa [Entry.kept_eq_self he] at hstore

/-- **What a record adds to a stream**, if its level passes: its entry waits behind the others, or
it is counted as rejected if all slots are taken. -/
structure Gains (s t : Stream n) (most : Level) (e : Entry) : Prop where
  contents_eq : t.contents = s.contents ++ if e.level.passes most && !s.isFull then [e] else []
  rejected_eq : t.rejected = s.rejected + if e.level.passes most && s.isFull then 1 else 0

theorem contents_store (hdvd : n ∣ 2 ^ 64) (hn : n < 2 ^ 64) (hfull : s.isFull = false)
    (he : Legible e.message) : (s.store e).contents = s.contents ++ [e] := by
  have hroom : s.waiting < n := by simpa [isFull] using hfull
  have hkeeps := (counts_of_waiting_le (Nat.le_of_lt hroom)).keeps hn
  exact (hkeeps.store_of_legible hdvd hn (hkeeps.length_lt hn hfull) he).contents_eq hn

/-- **A push adds its entry**, if it can be read, to whatever waits. -/
theorem gains_push (hdvd : n ∣ 2 ^ 64) (hn : n < 2 ^ 64) (he : Legible e.message) :
    s.Gains (s.push most e.time e.level e.message).2 most e := by
  cases hpass : e.level.passes most with
  | false =>
    rw [push_of_not_passes hpass]
    constructor
    · rw [hpass]
      exact (List.append_nil s.contents).symm
    · rw [hpass]
      exact (UInt32.add_zero s.rejected).symm
  | true =>
    cases hfull : s.isFull with
    | true =>
      rw [push_of_isFull hpass hfull]
      constructor
      · rw [hpass, hfull]
        exact (List.append_nil s.contents).symm
      · rw [hpass, hfull]
        rfl
    | false =>
      rw [push_of_not_isFull hpass hfull]
      constructor
      · rw [contents_store hdvd hn hfull he, hpass, hfull]
        rfl
      · rw [hpass, hfull]
        exact (UInt32.add_zero s.rejected).symm

theorem gains_note (hdvd : n ∣ 2 ^ 64) (hn : n < 2 ^ 64) :
    s.Gains (s.note most time level pieces).2 most (Entry.ofPieces time level pieces) :=
  gains_push hdvd hn (e := .ofPieces time level pieces) (Message.legible_ofPieces pieces)

end Stream

/-! ### A writer that takes everything -/

/-- **A writer without a limit takes every part.** -/
theorem Writer.writeAll_of_limit_eq_none {w : Writer} (hw : w.limit = none)
    (pieces : List String) :
    w.writeAll pieces = (true, { w with text := w.text ++ String.join pieces }) := by
  induction pieces generalizing w with
  | nil => rw [writeAll, String.join_nil, String.append_empty]
  | cons piece rest ih =>
    have hrefuses : w.refuses = false := by rw [refuses, hw]
    rw [writeAll, hrefuses, if_neg Bool.false_ne_true,
      ih (w := { w with text := w.text ++ piece }) hw, String.join_cons, String.append_assoc]

namespace Stream

variable {n : Nat} {s : Stream n} {pulled : Nat} {pending : List Entry}

/-- A pull does not touch the count of rejected records. -/
theorem rejected_of_pull? {r : Record} {t : Stream n} (h : s.pull? = some (r, t)) :
    t.rejected = s.rejected := by
  rw [pull?] at h
  split at h
  · cases h
  · obtain ⟨-, rfl⟩ := Prod.mk.inj (Option.some.inj h)
    rfl

/-- **As many records are written as wait**, and their lines in the order in which they wait. -/
theorem Keeps.writeSome (h : s.Keeps pulled pending) (hn : n < 2 ^ 64)
    (hlegible : ∀ e ∈ pending, Legible e.message) {w : Writer} (hw : w.limit = none) :
    ∃ text last, s.writeSome w pending.length =
        (pending.length, { w with text := w.text ++ text }, last) ∧
      Text.bytes text = pending.flatMap Entry.line ∧
      last.Keeps (pulled + pending.length) [] ∧ last.rejected = s.rejected := by
  induction pending generalizing s pulled w with
  | nil => exact ⟨"", s, by rw [String.append_empty]; rfl, rfl, h, rfl⟩
  | cons e pending ih =>
    obtain ⟨r, t, hpull, rfl, hnext⟩ := h.pull?_cons hn
    obtain ⟨text, last, hwrite, htext, hlast, hrejected⟩ :=
      ih (w := { w with text := w.text ++ r.line }) hnext
        (fun e he => hlegible e (List.mem_cons_of_mem _ he)) hw
    refine ⟨r.line ++ text, last, ?_, ?_, ?_, hrejected.trans (rejected_of_pull? hpull)⟩
    · rw [List.length_cons, Stream.writeSome, hpull]
      simp only [Writer.writeRecord, Writer.writeAll_of_limit_eq_none hw]
      rw [← Record.line, hwrite, String.append_assoc]
    · rw [Text.bytes_append, htext, r.bytes_line (hlegible _ List.mem_cons_self),
        List.flatMap_cons]
    · rw [List.length_cons, Nat.add_comm pending.length, ← Nat.add_assoc]
      exact hlast

/-- **A stream is written out to the last record.** -/
theorem Keeps.writeTo (h : s.Keeps pulled pending) (hn : n < 2 ^ 64)
    (hlegible : ∀ e ∈ pending, Legible e.message) {w : Writer} (hw : w.limit = none) :
    ∃ text last, s.writeTo w = (pending.length, { w with text := w.text ++ text }, last) ∧
      Text.bytes text = pending.flatMap Entry.line ∧
      last.Keeps (pulled + pending.length) [] ∧ last.rejected = s.rejected := by
  rw [Stream.writeTo, h.waiting_eq hn]
  exact h.writeSome hn hlegible hw

end Stream

end MorseKeyboard.Log
