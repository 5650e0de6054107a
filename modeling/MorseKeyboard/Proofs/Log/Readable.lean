import MorseKeyboard.Proofs.Log.Pieces

/-!
# A recorded message can be read

A record stays in its slot until those before it are pulled. What is pushed behind it goes into
other slots: there are less than `n` such records at a time, and `n` numbers in a row have slots of
their own. Only where the counters wrap is this not so for every `n`. The largest multiple of `n` up
to `2 ^ 64` is `2 ^ 64 / n * n`, and **a record with a number below it keeps its slot to itself**
(`MorseKeyboard.Log.Stream.slot_add_ne`); if `n` divides `2 ^ 64`, this is every number.

`MorseKeyboard.Log.Stream.Waits` says where a record is: its number, and how many records are ahead
of it and behind it. A push or a pull changes the two counts and not the entry
(`MorseKeyboard.Log.Stream.Waits.run`), whatever the state of the stream was before. So a message
that found room comes out as the text that was put together from its pieces, although its slot may
hold the rest of a longer message (`MorseKeyboard.Log.Stream.note_readable`).
-/

namespace MorseKeyboard.Log

/-! ### Reading a record -/

/-- **A record in which a text can be read.** -/
structure Record.Reads (r : Record) (text : String) : Prop where
  ofBytes?_body : Text.ofBytes? r.body = some text
  length_le : r.body.length ≤ Message.capacity
  /-- What is handed to a writer, part by part. -/
  pieces_eq : r.pieces = ["[", column r.time.toNat, "] ", r.level.label, ": ", text, "\n"]
  line_eq : r.line = "[" ++ column r.time.toNat ++ "] " ++ r.level.label ++ ": " ++ text ++ "\n"
  /-- A writer without a limit takes the line. -/
  writeRecord_eq (w : Writer) : w.limit = none →
    w.writeRecord r = (true, { w with text := w.text ++ r.line })

theorem Record.reads {r : Record} {text : String} (h : r.body = Text.bytes text) :
    r.Reads text := by
  have hread : Text.ofBytes? r.body = some text := by rw [h, Text.ofBytes?_bytes]
  have hpieces : r.pieces =
      ["[", column r.time.toNat, "] ", r.level.label, ": ", text, "\n"] := by
    rw [pieces, hread, Option.getD_some]
  refine ⟨hread, ?_, hpieces, ?_, fun w hw => Writer.writeAll_of_limit_eq_none hw r.pieces⟩
  · rw [body, List.length_take]
    exact Nat.le_trans (Nat.min_le_left _ _) r.length_le
  · rw [line, hpieces]
    simp only [String.join_cons, String.join_nil, String.append_empty, String.append_assoc]

/-- Every legible message can be read. -/
theorem Record.exists_reads {r : Record} (h : Legible r.entry.message) : ∃ text, r.Reads text := by
  obtain ⟨text, htext⟩ := h.exists_text
  exact ⟨text, reads htext.symm⟩

namespace Stream

variable {n : Nat} {s : Stream n} {number : UInt64} {ahead behind : Nat}
  {most : Level} {e : Entry}

/-! ### Slots when the counters wrap -/

/-- **A number below the last whole turn has a slot of its own** among the numbers that follow. -/
theorem slot_add_ne (s : Stream n) (hn : n < 2 ^ 64) {d : Nat}
    (hfirst : number.toNat < 2 ^ 64 / n * n) (hd : 0 < d) (hturn : d < n) :
    s.slot (number + UInt64.ofNat d) ≠ s.slot number := by
  intro heq
  obtain ⟨hwraps, rfl⟩ := (s.slot_add_eq_iff hn number hd hturn).mp heq
  have hturns := Nat.div_add_mod' (2 ^ 64) n
  omega

/-! ### A record in its slot -/

/-- **A record that waits**: its number, and how many records wait ahead of it and behind it. -/
structure Waits (s : Stream n) (number : UInt64) (ahead behind : Nat) : Prop where
  number_eq : number = s.tail + UInt64.ofNat ahead
  head_eq : s.head = number + UInt64.ofNat (behind + 1)
  /-- There is a slot for each of them. -/
  le : ahead + (behind + 1) ≤ n

/-- **A record that finds room waits behind all others**, in any stream. -/
theorem waits_store (s : Stream n) (hfull : s.isFull = false) (e : Entry) :
    (s.store e).Waits s.head s.waiting 0 where
  number_eq := by
    show s.head = s.tail + UInt64.ofNat (s.head - s.tail).toNat
    rw [UInt64.ofNat_toNat, UInt64.add_comm, UInt64.sub_add_cancel]
  head_eq := rfl
  le := by
    rwa [isFull, decide_eq_false_iff_not, Nat.not_le] at hfull

namespace Waits

theorem waiting_eq (h : s.Waits number ahead behind) (hn : n < 2 ^ 64) :
    s.waiting = ahead + (behind + 1) := by
  have hhead : s.head = UInt64.ofNat (s.tail.toNat + (ahead + (behind + 1))) := by
    rw [UInt64.ofNat_add, UInt64.ofNat_toNat, UInt64.ofNat_add, ← UInt64.add_assoc, ← h.number_eq]
    exact h.head_eq
  exact waiting_of_eq hhead UInt64.ofNat_toNat.symm (Nat.lt_of_le_of_lt h.le hn)

theorem tail_ne_head (h : s.Waits number ahead behind) (hn : n < 2 ^ 64) : s.tail ≠ s.head :=
  Stream.tail_ne_head (by rw [h.waiting_eq hn]; omega)

theorem store (h : s.Waits number ahead behind) (hroom : ahead + (behind + 1) < n) :
    (s.store e).Waits number ahead (behind + 1) where
  number_eq := h.number_eq
  head_eq := by
    rw [UInt64.ofNat_add, ← UInt64.add_assoc, ← h.head_eq]
    rfl
  le := hroom

/-- What is stored behind a record leaves it alone. Beyond the last whole turn it may take its
place. -/
theorem entryAt_store (h : s.Waits number ahead behind) (hn : n < 2 ^ 64)
    (hroom : ahead + (behind + 1) < n) (e : Entry) :
    (s.store e).entryAt number = s.entryAt number ∨
      2 ^ 64 / n * n ≤ number.toNat ∧ (s.store e).entryAt number = e.kept := by
  by_cases hslot : s.slot s.head = s.slot number
  · refine Or.inr ⟨?_, ?_⟩
    · rw [← Nat.not_lt]
      intro hfirst
      rw [h.head_eq] at hslot
      exact s.slot_add_ne hn hfirst (Nat.succ_pos _) (by omega) hslot
    · rw [← entryAt_store_head s e]
      exact congrArg (fun i : Fin n => (s.store e).slots[i].entry) hslot.symm
  · exact Or.inl (entryAt_store_of_ne e hslot)

/-- **What a push does to a record that waits**: if it goes behind it, nothing, except beyond the
last whole turn. -/
theorem push (h : s.Waits number ahead behind) (hn : n < 2 ^ 64) (most : Level) (e : Entry) :
    (∃ later, (s.act (.push most e)).Waits number ahead later) ∧
      ((s.act (.push most e)).entryAt number = s.entryAt number ∨
        2 ^ 64 / n * n ≤ number.toNat ∧ (s.act (.push most e)).entryAt number = e.kept) := by
  rw [act]
  cases hpass : e.level.passes most with
  | false =>
    rw [push_of_not_passes hpass]
    exact ⟨⟨behind, h⟩, Or.inl rfl⟩
  | true =>
    cases hfull : s.isFull with
    | true =>
      rw [push_of_isFull hpass hfull]
      exact ⟨⟨behind, h.number_eq, h.head_eq, h.le⟩, Or.inl rfl⟩
    | false =>
      rw [push_of_not_isFull hpass hfull]
      rw [isFull, decide_eq_false_iff_not, h.waiting_eq hn, Nat.not_le] at hfull
      exact ⟨⟨behind + 1, h.store hfull⟩, h.entryAt_store hn hfull e⟩

/-- **A pull brings a record forward** that is not the first one. -/
theorem pull (h : s.Waits number (ahead + 1) behind) (hn : n < 2 ^ 64) :
    (s.act .pull).Waits number ahead behind ∧
      (s.act .pull).entryAt number = s.entryAt number := by
  rw [act, pull?, if_neg (h.tail_ne_head hn)]
  refine ⟨⟨?_, h.head_eq, ?_⟩, rfl⟩
  · rw [h.number_eq, Nat.add_comm, UInt64.ofNat_add, ← UInt64.add_assoc]
    rfl
  · have hle := h.le
    omega

/-- **A record stays where it is until those ahead of it are pulled.** Beyond the last whole turn
one that was pushed later may stand in its place. -/
theorem run {acts : List Act} (h : s.Waits number (acts.count .pull) behind) (hn : n < 2 ^ 64) :
    (∃ later, (s.run acts).Waits number 0 later) ∧
      ((s.run acts).entryAt number = s.entryAt number ∨
        2 ^ 64 / n * n ≤ number.toNat ∧
          ∃ most e, .push most e ∈ acts ∧ (s.run acts).entryAt number = e.kept) := by
  induction acts generalizing s behind with
  | nil => exact ⟨⟨behind, h⟩, Or.inl rfl⟩
  | cons a acts ih =>
    rw [run_cons]
    cases a with
    | push most e =>
      rw [List.count_cons_of_ne (by simp)] at h
      obtain ⟨⟨later, hlater⟩, hentry⟩ := h.push hn most e
      obtain ⟨hwaits, hsame | ⟨hwraps, most', f, hf, heq⟩⟩ := ih hlater
      · refine ⟨hwaits, ?_⟩
        rw [hsame]
        exact hentry.imp_right fun ⟨hwraps, heq⟩ => ⟨hwraps, most, e, List.mem_cons_self, heq⟩
      · exact ⟨hwaits, Or.inr ⟨hwraps, most', f, List.mem_cons_of_mem _ hf, heq⟩⟩
    | pull =>
      rw [List.count_cons_self] at h
      obtain ⟨hnext, hentry⟩ := h.pull hn
      obtain ⟨hwaits, hlast⟩ := ih hnext
      rw [hentry] at hlast
      exact ⟨hwaits, hlast.imp_right fun ⟨hwraps, most, e, he, heq⟩ =>
        ⟨hwraps, most, e, List.mem_cons_of_mem _ he, heq⟩⟩

/-- **The first record is pulled next.** -/
theorem exists_pull? (h : s.Waits number 0 behind) (hn : n < 2 ^ 64) :
    ∃ r rest, s.pull? = some (r, rest) ∧ r.entry = s.entryAt number := by
  have htail : number = s.tail := h.number_eq.trans (UInt64.add_zero _)
  exact ⟨_, _, if_neg (h.tail_ne_head hn), by rw [htail]; rfl⟩

end Waits

/-! ### The message -/

/-- **A recorded message can be read.** Whatever happened to a stream, a message of a level that
passes is recorded if there is room, and no step of writing it fails. Its text consists of a
beginning of every piece. Once the records ahead of it are pulled, it is the next one to come out,
and what is written is its text after the time and the level.

This is so with nothing pushed behind it, and also with anything pushed behind it unless its number
is beyond the last whole turn of the counters. There another record may have taken its place, which
can be read as well if it was put together from pieces. -/
theorem note_readable {level : Level} (time : UInt16) (pieces : List String) (hn : n < 2 ^ 64)
    (hroom : s.isFull = false) (hpass : level.passes most = true) :
    ∃ d kept, Draft.blank.writeAll? pieces = some d ∧ d.used ≤ Message.capacity ∧
      List.Forall₂ (fun k p : String => k.toList <+: p.toList) kept pieces ∧
      d.bytes = Text.bytes (String.join kept) ∧
      (s.note most time level pieces).1 = true ∧
      ∀ acts, acts.count .pull = s.waiting → ∃ r rest,
        ((s.note most time level pieces).2.run acts).pull? = some (r, rest) ∧
        ((∀ a ∈ acts, a = .pull) ∨ s.head.toNat < 2 ^ 64 / n * n →
          r.time = time ∧ r.level = level ∧ r.Reads (String.join kept)) ∧
        ((∀ most e, .push most e ∈ acts → ∃ time level pieces, e = .ofPieces time level pieces) →
          ∃ text, r.Reads text) := by
  obtain ⟨d, hwrite, hshows⟩ := Draft.exists_writeAll? pieces
  obtain ⟨kept, hkept, hbytes⟩ := Message.exists_beginnings pieces
  have hnote : s.note most time level pieces = (true, s.store (.ofPieces time level pieces)) :=
    push_of_not_isFull (e := .ofPieces time level pieces) hpass hroom
  refine ⟨d, kept, hwrite, hshows.used_le, hkept, hshows.bytes_eq.trans hbytes, by rw [hnote], ?_⟩
  intro acts hpulls
  have hwaits := s.waits_store hroom (.ofPieces time level pieces)
  rw [← hpulls] at hwaits
  obtain ⟨⟨later, hfirst⟩, hentry⟩ := hwaits.run hn
  obtain ⟨r, rest, hpull, hr⟩ := hfirst.exists_pull? hn
  rw [← hr, entryAt_store_head, Entry.kept_eq_self (Message.legible_ofPieces pieces)] at hentry
  rw [hnote]
  refine ⟨r, rest, hpull, fun hsafe => ?_, fun hpushes => Record.exists_reads ?_⟩
  · have hsame : r.entry = .ofPieces time level pieces := by
      refine hentry.resolve_right ?_
      rintro ⟨hwraps, most', e, he, -⟩
      rcases hsafe with hpull | hturn
      · exact absurd (hpull _ he) (by simp)
      · exact Nat.not_lt.mpr hwraps hturn
    have hbody : r.body = Text.bytes (String.join kept) :=
      (congrArg Entry.message hsame).trans hbytes
    exact ⟨congrArg Entry.time hsame, congrArg Entry.level hsame, Record.reads hbody⟩
  · rcases hentry with hsame | ⟨-, most', e, he, heq⟩
    · rw [hsame]
      exact Message.legible_ofPieces pieces
    · obtain ⟨time', level', pieces', rfl⟩ := hpushes most' e he
      rw [heq, Entry.kept_eq_self (Message.legible_ofPieces pieces')]
      exact Message.legible_ofPieces pieces'

/-- A slot that held a longer message is used again, and more is logged before the record is
pulled. -/
theorem note_readable_reused :
    let s := (empty (by decide : 0 < 2)).run
      [.push .info (.ofPieces 1 .info ["keyboard: ", "20 wpm"]), .pull,
        .push .info (.ofPieces 2 .info ["up"])]
    let acts : List Act := [.push .info (.ofPieces 4 .error ["no room"]), .pull,
      .push .info (.ofPieces 5 .error ["behind"])]
    2 < 2 ^ 64 ∧ s.isFull = false ∧ Level.warn.passes .info = true ∧
      acts.count .pull = s.waiting ∧ s.head.toNat < 2 ^ 64 / 2 * 2 ∧
      ∃ r rest, ((s.note .info 3 .warn ["spät", "!"]).2.run acts).pull? = some (r, rest) ∧
        r.time = 3 ∧ r.level = .warn ∧ r.Reads "spät!" := by
  intro s acts
  have hn : 2 < 2 ^ 64 := by decide
  have hroom : s.isFull = false := by decide +kernel
  have hpass : Level.warn.passes .info = true := rfl
  have hpulls : acts.count .pull = s.waiting := by decide +kernel
  have hturn : s.head.toNat < 2 ^ 64 / 2 * 2 := by decide +kernel
  have hwritten : (Draft.blank.writeAll? ["spät", "!"]).map Draft.bytes =
      some (Text.bytes "spät!") := by decide +kernel
  refine ⟨hn, hroom, hpass, hpulls, hturn, ?_⟩
  obtain ⟨d, kept, hwrite, -, -, hbytes, -, hread⟩ :=
    note_readable 3 ["spät", "!"] hn hroom hpass
  obtain ⟨r, rest, hpull, hreads, -⟩ := hread acts hpulls
  obtain ⟨htime, hlevel, htext⟩ := hreads (Or.inr hturn)
  rw [hwrite, Option.map_some, Option.some_inj, hbytes] at hwritten
  rw [Text.bytes_injective hwritten] at htext
  exact ⟨r, rest, hpull, htime, hlevel, htext⟩

end Stream

end MorseKeyboard.Log
