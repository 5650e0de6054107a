import Mathlib.Data.List.Basic
import MorseKeyboard.Proofs.Log.Lines

/-!
# When the writer breaks down

A record is pulled out of its stream before its line is written, so a writer that refuses a part of
the line takes the record with it. But it takes no other. Whatever a writer does and whatever the
stream was through before, **writing out a stream is writing the lines of what it contains**, until
a part is refused (`MorseKeyboard.Log.Stream.writeTo_eq`): as many records are counted as lines were
written whole, one more is pulled if there is one, and the rest stays.

A writer breaks down after `k` lines (`MorseKeyboard.Log.Writer.BreaksAfter`) if it takes every part
until it holds them, and no part from then on. It costs the record with number `k + 1`, and a writer
that comes after it and does not break down gets all the others
(`MorseKeyboard.Log.Stream.writeTo_of_breaksAfter`). The writers with a limit are of this kind,
however many newlines there are inside the messages
(`MorseKeyboard.Log.Writer.breaksAfter_of_limit`).
-/

namespace MorseKeyboard.Log

/-! ### The line of an entry -/

namespace Entry

/-- The parts of the line before the newline. -/
def frontParts (e : Entry) : List String :=
  ["[", Record.column e.time.toNat, "] ", e.level.label, ": ",
    (Text.ofBytes? e.message).getD Record.unreadable]

/-- The parts of the line of an entry, in the order in which they are written. -/
def parts (e : Entry) : List String := e.frontParts ++ ["\n"]

/-- The line of an entry, whether its message can be read or not. -/
def shown (e : Entry) : String := String.join e.parts

theorem shown_eq (e : Entry) : e.shown = String.join e.frontParts ++ "\n" := by
  simp [shown, parts, String.join_append]

/-- Whatever is still to be written of a line, the newline is. -/
theorem join_ne_empty_of_append_eq_parts {e : Entry} {before rest : List String}
    (h : before ++ rest = e.parts) (hne : rest ≠ []) : String.join rest ≠ "" := by
  have hlast : rest.getLast? = some "\n" := by
    rw [← List.getLast?_append_of_ne_nil before hne, h, parts, List.getLast?_concat]
  intro hempty
  have hnewline : '\n' ∈ (String.join rest).toList := by
    rw [String.toList_join]
    exact List.mem_flatMap.mpr ⟨"\n", List.mem_of_getLast? hlast, by simp⟩
  simp [hempty] at hnewline

/-- Whatever is still to be written of some lines, a newline is. -/
theorem newline_mem_of_append_eq_join {entries : List Entry} {held rest : String}
    (h : held ++ rest = String.join (entries.map shown)) (hne : rest ≠ "") :
    '\n' ∈ rest.toList := by
  obtain rfl | ⟨before, e, rfl⟩ := entries.eq_nil_or_concat
  · simp_all
  · have hlast := congrArg (fun text => text.toList.getLast?) h
    have hnewline : rest.toList.getLast? = some '\n' := by
      simpa [List.getLast?_append, String.join_append, shown_eq, hne] using hlast
    exact List.mem_of_getLast? hnewline

end Entry

theorem Record.pieces_eq_parts (r : Record) : r.pieces = r.entry.parts := rfl

/-! ### Writers -/

namespace Writer

variable {w : Writer} {k : Nat} {lines : List String}

/-- The writer with more text. -/
def adding (w : Writer) (text : String) : Writer := { w with text := w.text ++ text }

@[simp] theorem adding_empty (w : Writer) : w.adding "" = w := by
  simp [adding]

@[simp] theorem adding_adding (w : Writer) (s t : String) :
    (w.adding s).adding t = w.adding (s ++ t) := by
  simp [adding, String.append_assoc]

/-- Write lines, each in its parts, until a part is refused: how many were written whole, and the
writer afterwards. -/
def writeLines (w : Writer) : List (List String) → Nat × Writer
  | [] => (0, w)
  | parts :: rest =>
    match w.writeAll parts with
    | (false, w) => (0, w)
    | (true, w) => ((w.writeLines rest).1 + 1, (w.writeLines rest).2)

theorem writeAll_cons_of_refuses (h : w.refuses = true) (part : String) (rest : List String) :
    w.writeAll (part :: rest) = (false, w) := by
  rw [writeAll, if_pos h]

theorem writeAll_cons_of_takes (h : w.refuses = false) (part : String) (rest : List String) :
    w.writeAll (part :: rest) = (w.adding part).writeAll rest := by
  rw [writeAll, h, if_neg Bool.false_ne_true, adding]

/-- **A writer takes all parts if it refuses none** after the ones before it. -/
theorem writeAll_of_forall_takes {parts : List String}
    (h : ∀ before rest, before ++ rest = parts → rest ≠ [] →
      (w.adding (String.join before)).refuses = false) :
    w.writeAll parts = (true, w.adding (String.join parts)) := by
  induction parts generalizing w with
  | nil => simp [writeAll]
  | cons part parts ih =>
    have hfirst : w.refuses = false := by simpa using h [] (part :: parts) rfl (by simp)
    rw [writeAll_cons_of_takes hfirst, ih fun before rest hparts hne => ?_]
    · simp
    · simpa using h (part :: before) rest (by simp [hparts]) hne

/-- A writer without a limit takes every line. -/
theorem writeLines_of_limit_eq_none (hw : w.limit = none) (entries : List Entry) :
    w.writeLines (entries.map Entry.parts) =
      (entries.length, w.adding (String.join (entries.map Entry.shown))) := by
  induction entries generalizing w with
  | nil => simp [writeLines]
  | cons e entries ih =>
    have hline : w.writeAll e.parts = (true, w.adding e.shown) := writeAll_of_limit_eq_none hw _
    rw [List.map_cons, writeLines, hline]
    simp [ih (w := w.adding e.shown) hw]

/-! ### Breaking down -/

/-- **A writer that breaks down after `k` of some lines**, which are added to what it holds: it
takes every part until it holds these lines, and no part once it does. If there are no more than
`k`, it takes them all. -/
structure BreaksAfter (w : Writer) (k : Nat) (lines : List String) : Prop where
  takes (held rest : String) :
    held ++ rest = String.join (lines.take k) → rest ≠ "" → (w.adding held).refuses = false
  refuses : k < lines.length → (w.adding (String.join (lines.take k))).refuses = true

namespace BreaksAfter

/-- The first line of more is taken whole. -/
theorem writeAll_parts {e : Entry} (h : w.BreaksAfter (k + 1) (e.shown :: lines)) :
    w.writeAll e.parts = (true, w.adding e.shown) := by
  refine writeAll_of_forall_takes fun before rest hparts hne => ?_
  refine h.takes _ (String.join rest ++ String.join (lines.take k)) ?_ ?_
  · rw [← String.append_assoc, ← String.join_append, hparts]
    simp [Entry.shown]
  · intro hempty
    exact Entry.join_ne_empty_of_append_eq_parts hparts hne (by simp_all)

/-- After its first line a writer breaks down one line earlier. -/
theorem adding {line : String} (h : w.BreaksAfter (k + 1) (line :: lines)) :
    (w.adding line).BreaksAfter k lines where
  takes held rest hsplit hne := by
    rw [adding_adding]
    exact h.takes _ rest (by simp [String.append_assoc, hsplit]) hne
  refuses hk := by
    simpa using h.refuses (by simpa using hk)

/-- **A writer that breaks down after `k` lines has `k` lines written**, or all if there are no
more. -/
theorem writeLines_eq {entries : List Entry} (h : w.BreaksAfter k (entries.map Entry.shown)) :
    w.writeLines (entries.map Entry.parts) = (min k entries.length,
      w.adding (String.join ((entries.take k).map Entry.shown))) := by
  induction entries generalizing w k with
  | nil => simp [writeLines]
  | cons e entries ih =>
    cases k with
    | zero =>
      have hrefuses : w.refuses = true := by simpa using h.refuses (by simp)
      have hline : w.writeAll e.parts = (false, w) := writeAll_cons_of_refuses hrefuses _ _
      rw [List.map_cons, writeLines, hline]
      simp
    | succ k =>
      rw [List.map_cons, writeLines, h.writeAll_parts]
      simp [ih h.adding]

end BreaksAfter

/-- **A writer with a limit breaks down after `k` lines** if it has room for just as many newlines
as there are in them. -/
theorem breaksAfter_of_limit {entries : List Entry}
    (h : w.limit = some (w.adding (String.join ((entries.take k).map Entry.shown))).complete) :
    w.BreaksAfter k (entries.map Entry.shown) where
  takes held rest hsplit hne := by
    rw [← List.map_take] at hsplit
    -- the last newline is still to be written
    have hmore := Entry.newline_mem_of_append_eq_join hsplit hne
    have hcount : 0 < rest.toList.count '\n' := List.count_pos_iff.mpr hmore
    rw [refuses, adding, h, decide_eq_false_iff_not, ← hsplit, complete, complete, adding]
    simp only [String.toList_append, List.count_append]
    omega
  refuses _ := by
    rw [← List.map_take, refuses, adding, h]
    exact decide_eq_true (Nat.le_refl _)

end Writer

/-! ### Streams -/

namespace Stream

variable {n : Nat} {s : Stream n}

/-- **What is left of a stream** when its first records were pulled. -/
structure Leaves (s : Stream n) (pulled : Nat) (rest : Stream n) : Prop where
  contents_eq : rest.contents = s.contents.drop pulled
  rejected_eq : rest.rejected = s.rejected
  slots_eq : rest.slots = s.slots

theorem slots_of_pull? {r : Record} {t : Stream n} (h : s.pull? = some (r, t)) :
    t.slots = s.slots := by
  rw [pull?] at h
  split at h
  · cases h
  · obtain ⟨-, rfl⟩ := Prod.mk.inj (Option.some.inj h)
    rfl

namespace Leaves

variable {t rest : Stream n} {pulled : Nat}

theorem refl (s : Stream n) : s.Leaves 0 s := ⟨rfl, rfl, rfl⟩

/-- One more record was pulled before. -/
theorem cons {r : Record} (hpull : s.pull? = some (r, t)) (h : t.Leaves pulled rest) :
    s.Leaves (pulled + 1) rest where
  contents_eq := by rw [contents_of_pull? hpull, List.drop_succ_cons, h.contents_eq]
  rejected_eq := h.rejected_eq.trans (rejected_of_pull? hpull)
  slots_eq := h.slots_eq.trans (slots_of_pull? hpull)

end Leaves

/-- With enough pulls, a stream is written out line by line. -/
theorem writeSome_eq (w : Writer) {p : Nat} (hp : s.waiting = p) :
    ∃ rest, s.writeSome w p = ((w.writeLines (s.contents.map Entry.parts)).1,
        (w.writeLines (s.contents.map Entry.parts)).2, rest) ∧
      s.Leaves ((w.writeLines (s.contents.map Entry.parts)).1 + 1) rest := by
  induction p generalizing s w with
  | zero =>
    have hnil : s.contents = [] := by rw [← List.length_eq_zero_iff, length_contents, hp]
    exact ⟨s, by simp [writeSome, hnil, Writer.writeLines], by rw [hnil]; rfl, rfl, rfl⟩
  | succ p ih =>
    obtain ⟨r, t, hpull⟩ := s.exists_pull? (by omega)
    have hnext : t.waiting = p := by
      have := waiting_of_pull? hpull
      omega
    rw [contents_of_pull? hpull, List.map_cons, Writer.writeLines, writeSome, hpull]
    dsimp only
    rw [Writer.writeRecord, r.pieces_eq_parts]
    obtain ⟨taken, w'⟩ := w.writeAll r.entry.parts
    cases taken with
    | false => exact ⟨t, rfl, .cons hpull (.refl t)⟩
    | true =>
      obtain ⟨rest, hwrite, hrest⟩ := ih w' hnext
      exact ⟨rest, by simp only [hwrite], .cons hpull hrest⟩

/-- **Writing out a stream is writing the lines of what it contains**, and costs one record more
than there are lines, whatever the writer does. -/
theorem writeTo_eq (s : Stream n) (w : Writer) :
    ∃ rest, s.writeTo w = ((w.writeLines (s.contents.map Entry.parts)).1,
        (w.writeLines (s.contents.map Entry.parts)).2, rest) ∧
      s.Leaves ((w.writeLines (s.contents.map Entry.parts)).1 + 1) rest :=
  writeSome_eq w rfl

/-- **A writer that breaks down costs one record at most.** A writer that takes every part until it
holds the lines of the first `k` records, and no part from then on, is left with these lines, or
with all of them if fewer records wait, and so many records are counted. The record after them is
gone. All others stay in the stream as they are, and so does the count of the rejected ones. The
next writer without a limit gets the lines of all that stayed. -/
theorem writeTo_of_breaksAfter (s : Stream n) {w : Writer} {k : Nat}
    (h : w.BreaksAfter k (s.contents.map Entry.shown)) :
    s.contents.length = s.waiting ∧
    ∃ rest, s.writeTo w = (min k s.waiting,
        w.adding (String.join ((s.contents.take k).map Entry.shown)), rest) ∧
      rest.contents = s.contents.drop (k + 1) ∧ rest.slots = s.slots ∧
      rest.rejected = s.rejected ∧
      ∀ next : Writer, next.limit = none → ∃ last, rest.writeTo next = (s.waiting - (k + 1),
          next.adding (String.join ((s.contents.drop (k + 1)).map Entry.shown)), last) ∧
        last.contents = [] ∧ last.rejected = s.rejected := by
  refine ⟨s.length_contents, ?_⟩
  obtain ⟨rest, hwrite, hrest⟩ := s.writeTo_eq w
  rw [h.writeLines_eq] at hwrite hrest
  have hdrop : rest.contents = s.contents.drop (k + 1) := by
    rw [hrest.contents_eq, List.drop_eq_drop_iff]
    omega
  refine ⟨rest, by rw [hwrite, length_contents], hdrop, hrest.slots_eq, hrest.rejected_eq, ?_⟩
  intro next hnext
  obtain ⟨last, hagain, hlast⟩ := rest.writeTo_eq next
  rw [Writer.writeLines_of_limit_eq_none hnext] at hagain hlast
  refine ⟨last, ?_, ?_, hlast.rejected_eq.trans hrest.rejected_eq⟩
  · rw [hagain, hdrop, List.length_drop, length_contents]
  · rw [hlast.contents_eq, List.drop_of_length_le (Nat.le_succ _)]

/-- Three records wait in three slots, the last of them in the first slot. A writer that has room
for two newlines gets the line of the first record only, for there is a newline in its message. The
second record is gone, and the next writer gets the third. -/
theorem writeTo_of_breaksAfter_newline :
    let s := (empty (by decide : 0 < 3)).run
      [.push .info ⟨1, .info, []⟩, .pull, .push .info ⟨2, .warn, [0x61, 0x0A, 0x62]⟩,
        .push .info ⟨3, .error, [0xFF]⟩, .push .info ⟨4, .info, Text.bytes "spät"⟩,
        .push .info ⟨5, .info, []⟩]
    let w : Writer := { text := "> ", limit := some 2 }
    s.slot s.tail = 1 ∧ s.slot (s.head - 1) = 0 ∧ w.BreaksAfter 1 (s.contents.map Entry.shown) ∧
      ∃ rest, s.writeTo w = (1, { w with text := "> [    2] WARN: a\nb\n" }, rest) ∧
        rest.contents = [⟨4, .info, Text.bytes "spät"⟩] ∧ rest.rejected = 1 ∧
        ∃ last, rest.writeTo {} = (1, { text := "[    4] INFO: spät\n" }, last) ∧
          last.contents = [] := by
  intro s w
  have hcontents : s.contents = [⟨2, .warn, [0x61, 0x0A, 0x62]⟩, ⟨3, .error, [0xFF]⟩,
      ⟨4, .info, Text.bytes "spät"⟩] := by decide +kernel
  have hwaiting : s.waiting = 3 := by decide +kernel
  have hbreaks : w.BreaksAfter 1 (s.contents.map Entry.shown) :=
    Writer.breaksAfter_of_limit (by rw [hcontents]; decide +kernel)
  refine ⟨by decide +kernel, by decide +kernel, hbreaks, ?_⟩
  obtain ⟨-, rest, hwrite, hrest, -, hrejected, hnext⟩ := s.writeTo_of_breaksAfter hbreaks
  obtain ⟨last, hagain, hlast, -⟩ := hnext {} rfl
  rw [hcontents] at hwrite hrest hagain
  rw [hwaiting] at hwrite hagain
  have hfirst : w.adding (String.join ([⟨2, .warn, [0x61, 0x0A, 0x62]⟩].map Entry.shown)) =
      { w with text := "> [    2] WARN: a\nb\n" } := by decide +kernel
  have hlater : ({} : Writer).adding
      (String.join ([⟨4, .info, Text.bytes "spät"⟩].map Entry.shown)) =
      { text := "[    4] INFO: spät\n" } := by decide +kernel
  have hcount : s.rejected = 1 := by decide +kernel
  exact ⟨rest, hwrite.trans (congrArg (fun w => (1, w, rest)) hfirst), hrest,
    hrejected.trans hcount, last, hagain.trans (congrArg (fun w => (1, w, last)) hlater), hlast⟩

end Stream

end MorseKeyboard.Log
