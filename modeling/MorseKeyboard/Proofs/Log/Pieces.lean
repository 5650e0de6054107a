import Mathlib.Data.List.Forall2
import Mathlib.Data.List.Induction
import MorseKeyboard.Log.Draft
import MorseKeyboard.Proofs.Cutting
import MorseKeyboard.Proofs.Log.Lines

/-!
# What becomes of the pieces of a message

The pieces of a message are written one after another, and each is cut by itself. So a message
consists of **a beginning of every piece, in whole characters**
(`MorseKeyboard.Log.Message.exists_beginnings`). It begins with the longest part of the whole text
that fits, for up to the first piece that is cut there is no difference
(`MorseKeyboard.Log.Message.exists_more`).

After that piece there is one. A character that does not fit leaves up to three bytes of room, and
nobody remembers that something was left out: **a later piece that begins with a small enough
character goes on writing**, and the message has a gap. This is the only way in which a message is
not the beginning of its text (`MorseKeyboard.Log.Message.exists_kept_more`).

In its place a message is written without a fault, whatever the pieces are: no count falls below
zero, and nothing is read or written beyond an end
(`MorseKeyboard.Log.Draft.exists_writeAll?`). So all this holds of the bytes of a draft
(`MorseKeyboard.Log.Draft.begins_iff`).
-/

namespace MorseKeyboard.Log

namespace Message

/-! ### A beginning of every piece -/

theorem exists_beginnings_foldl (l : Message) (pieces : List String) :
    ∃ kept : List String, List.Forall₂ (fun k p => k.toList <+: p.toList) kept pieces ∧
      (pieces.foldl write l).bytes = l.bytes ++ Text.bytes (String.join kept) := by
  induction pieces generalizing l with
  | nil => exact ⟨[], .nil, (List.append_nil l.bytes).symm⟩
  | cons piece pieces ih =>
    obtain ⟨kept, hkept, hbytes⟩ := ih (l.write piece)
    refine ⟨Text.cut l.room piece :: kept, .cons (Text.isLongest_cut _ _).beginning hkept, ?_⟩
    rw [List.foldl_cons, hbytes, write, String.join_cons, Text.bytes_append, List.append_assoc]

/-- **A message consists of a beginning of every piece.** -/
theorem exists_beginnings (pieces : List String) :
    ∃ kept : List String, List.Forall₂ (fun k p => k.toList <+: p.toList) kept pieces ∧
      (ofPieces pieces).bytes = Text.bytes (String.join kept) :=
  exists_beginnings_foldl empty pieces

/-! ### The beginning of the whole text -/

theorem bytes_ofPieces_concat (pieces : List String) (piece : String) :
    (ofPieces (pieces ++ [piece])).bytes = (ofPieces pieces).bytes ++
      Text.bytes (Text.cut (capacity - (ofPieces pieces).bytes.length) piece) := by
  rw [ofPieces, List.foldl_append]
  rfl

theorem join_concat (pieces : List String) (piece : String) :
    String.join (pieces ++ [piece]) = String.join pieces ++ piece := by
  rw [String.join_append, String.join_cons, String.join_nil, String.append_empty]

/-- **A piece that goes on after a gap**: what comes before it does not fit, and its first character
has room behind what is kept. -/
def Resumes (pieces : List String) : Prop :=
  ∃ before piece c, before ++ [piece] <+: pieces ∧
    capacity < (Text.bytes (String.join before)).length ∧ piece.toList.head? = some c ∧
    (Text.bytes (Text.cut capacity (String.join before))).length + c.utf8Size ≤ capacity

theorem not_resumes_nil : ¬Resumes [] := by
  rintro ⟨before, piece, c, hpieces, -⟩
  exact absurd (List.prefix_nil.mp hpieces) (by simp)

/-- A piece more resumes the message if it does so itself. -/
theorem resumes_concat_iff (pieces : List String) (piece : String) :
    Resumes (pieces ++ [piece]) ↔ Resumes pieces ∨
      (capacity < (Text.bytes (String.join pieces)).length ∧
        ∃ c, piece.toList.head? = some c ∧
          (Text.bytes (Text.cut capacity (String.join pieces))).length + c.utf8Size ≤ capacity) := by
  constructor
  · rintro ⟨before, last, c, hpieces, hlong, hhead, hroom⟩
    rcases List.prefix_concat_iff.mp hpieces with heq | hbefore
    · obtain ⟨rfl, hlast⟩ := List.append_inj' heq rfl
      obtain rfl := List.singleton_inj.mp hlast
      exact Or.inr ⟨hlong, c, hhead, hroom⟩
    · exact Or.inl ⟨before, last, c, hbefore, hlong, hhead, hroom⟩
  · rintro (⟨before, last, c, hpieces, hrest⟩ | ⟨hlong, c, hhead, hroom⟩)
    · exact ⟨before, last, c, hpieces.trans (List.prefix_append _ _), hrest⟩
    · exact ⟨pieces, piece, c, List.prefix_refl _, hlong, hhead, hroom⟩

/-- **What is written beyond the longest beginning of the text.** It is nothing as long as the text
fits, and later it is nothing unless a piece resumes the message. -/
theorem exists_more (pieces : List String) :
    ∃ more : String,
      (ofPieces pieces).bytes =
        Text.bytes (Text.cut capacity (String.join pieces)) ++ Text.bytes more ∧
      ((Text.bytes (String.join pieces)).length ≤ capacity → more = "") ∧
      (more ≠ "" ↔ Resumes pieces) := by
  induction pieces using List.reverseRecOn with
  | nil => exact ⟨"", rfl, fun _ => rfl, iff_of_false (fun h => h rfl) not_resumes_nil⟩
  | append_singleton pieces piece ih =>
    obtain ⟨more, hbytes, hfits, hmore⟩ := ih
    rw [bytes_ofPieces_concat, join_concat, resumes_concat_iff, ← hmore]
    rcases Nat.lt_or_ge capacity (Text.bytes (String.join pieces)).length with hlong | hle
    -- the text was cut already, and the piece has what room is left
    · set left := capacity - (ofPieces pieces).bytes.length with hleft
      refine ⟨more ++ Text.cut left piece, ?_, ?_, ?_⟩
      · rw [Text.cut_append_of_lt hlong, hbytes, Text.bytes_append, List.append_assoc]
      · rw [Text.bytes_append, List.length_append]
        intro h
        omega
      · rw [Ne, String.append_eq_empty_iff, not_and_or, and_iff_right hlong]
        rcases eq_or_ne more "" with rfl | hnone
        -- nothing was added so far, so the room left is the room behind what is kept
        · have hkept := Text.length_bytes_cut_le capacity (String.join pieces)
          rw [hbytes, List.length_append, show (Text.bytes "").length = 0 from rfl] at hleft
          refine or_congr_right ((Text.cut_ne_empty_iff left piece).trans ?_)
          refine exists_congr fun c => and_congr_right fun _ => ?_
          omega
        · exact iff_of_true (Or.inl hnone) (Or.inl hnone)
    -- the text goes on without a gap
    · obtain rfl := hfits hle
      refine ⟨"", ?_, fun _ => rfl, ?_⟩
      · rw [Text.cut_append_of_le hle, bytes_ofPieces hle, Text.bytes_append]
        exact (List.append_nil _).symm
      · simp [hle]

/-- **Only a piece that goes on after a gap** keeps a message from being the longest beginning of its
text, and it adds three bytes at most. -/
theorem exists_kept_more (pieces : List String) :
    ∃ kept more : String, Text.IsLongest capacity (String.join pieces) kept ∧
      (ofPieces pieces).bytes = Text.bytes kept ++ Text.bytes more ∧
      (Text.bytes more).length ≤ 3 ∧ (more = "" ↔ ¬Resumes pieces) := by
  obtain ⟨more, hbytes, hfits, hmore⟩ := exists_more pieces
  refine ⟨_, more, Text.isLongest_cut capacity (String.join pieces), hbytes, ?_, ?_⟩
  · rcases Nat.lt_or_ge capacity (Text.bytes (String.join pieces)).length with hlong | hle
    · have hgap := Text.lt_length_encode_fit hlong
      have hlength := (legible_ofPieces pieces).length_le
      rw [hbytes, List.length_append, Text.cut, Text.bytes_ofList] at hlength
      omega
    · rw [hfits hle]
      exact Nat.zero_le 3
  · rw [← hmore, not_not]

end Message

namespace Draft

/-! ### Writing in place -/

/-- A draft in which a message is written. -/
structure Shows (d : Draft) (l : Message) : Prop where
  used_le : d.used ≤ Message.capacity
  bytes_eq : d.bytes = l.bytes

theorem shows_blank : blank.Shows Message.empty where
  used_le := Nat.zero_le _
  bytes_eq := rfl

/-- As many bytes are in use as the message has. -/
theorem Shows.used_eq {d : Draft} {l : Message} (h : d.Shows l) : d.used = l.bytes.length := by
  rw [← h.bytes_eq, bytes, List.length_take, Vector.length_toList, Nat.min_eq_left h.used_le]

theorem minus?_of_le {m n : Nat} (h : n ≤ m) : minus? m n = some (m - n) := if_pos h

theorem take?_of_prefix {source kept : List UInt8} (h : kept <+: source) :
    take? source kept.length = some kept := by
  rw [take?, if_pos h.length_le, ← List.prefix_iff_eq_take.mp h]

/-- **Bytes that end within the buffer follow what stands before them.** -/
theorem exists_copy? (buffer : Vector UInt8 Message.capacity) {start : Nat} {source : List UInt8}
    (h : start + source.length ≤ Message.capacity) :
    ∃ next, copy? buffer start source = some next ∧
      next.toList.take (start + source.length) = buffer.toList.take start ++ source := by
  refine ⟨_, dif_pos h, ?_⟩
  have hlength : start + source.length = (buffer.toList.take start ++ source).length := by
    rw [List.length_append, List.length_take, Vector.length_toList, Nat.min_eq_left (by omega)]
  rw [Vector.toList_mk, List.take_append_of_le_length (Nat.le_of_eq hlength), hlength,
    List.take_length]

/-- **A piece is written in place**, and no step of it fails. -/
theorem Shows.write? {d : Draft} {l : Message} (h : d.Shows l) (piece : String) :
    ∃ next, d.write? piece = some next ∧ next.Shows (l.write piece) := by
  have hroom : Message.capacity - d.used = l.room := by rw [Message.room, h.used_eq]
  have hcount := Text.lastBoundary?_bytes l.room piece
  have hkept := Text.bytes_cut_prefix_bytes l.room piece
  have hend : d.used + (Text.bytes (Text.cut l.room piece)).length ≤ Message.capacity := by
    have hle := Text.length_bytes_cut_le l.room piece
    have hused := h.used_le
    omega
  obtain ⟨buffer, hcopy, htake⟩ := exists_copy? d.buffer hend
  refine ⟨{ buffer, used := d.used + (Text.bytes (Text.cut l.room piece)).length }, ?_, hend, ?_⟩
  · simp only [Draft.write?, minus?_of_le h.used_le, hroom, hcount, take?_of_prefix hkept, hcopy,
      Option.bind_eq_bind, Option.bind_some, Option.pure_def]
  · rw [Message.write, ← h.bytes_eq]
    exact htake

theorem Shows.writeAll? {d : Draft} {l : Message} (h : d.Shows l) (pieces : List String) :
    ∃ next, d.writeAll? pieces = some next ∧ next.Shows (pieces.foldl Message.write l) := by
  induction pieces generalizing d l with
  | nil => exact ⟨d, rfl, h⟩
  | cons piece pieces ih =>
    obtain ⟨next, hwrite, hnext⟩ := h.write? piece
    obtain ⟨last, hlast, hshows⟩ := ih hnext
    refine ⟨last, ?_, hshows⟩
    rw [Draft.writeAll?, List.foldlM_cons, hwrite]
    exact hlast

/-- **Every message can be written in place**, one piece after another. -/
theorem exists_writeAll? (pieces : List String) :
    ∃ d, blank.writeAll? pieces = some d ∧ d.Shows (Message.ofPieces pieces) :=
  shows_blank.writeAll? pieces

/-- **What is written is the longest beginning of the text just if no piece goes on after a gap.**
Otherwise it is that beginning and up to three bytes more. -/
theorem begins_iff (pieces : List String) :
    ∃ d, blank.writeAll? pieces = some d ∧
      ((∃ kept, Text.IsLongest Message.capacity (String.join pieces) kept ∧
          d.bytes = Text.bytes kept) ↔ ¬Message.Resumes pieces) ∧
      ∃ kept more, Text.IsLongest Message.capacity (String.join pieces) kept ∧
        d.bytes = Text.bytes kept ++ Text.bytes more ∧ (Text.bytes more).length ≤ 3 := by
  obtain ⟨d, hwrite, hshows⟩ := exists_writeAll? pieces
  obtain ⟨kept, more, hkept, hbytes, hlength, hmore⟩ := Message.exists_kept_more pieces
  rw [← hshows.bytes_eq] at hbytes
  refine ⟨d, hwrite, ?_, kept, more, hkept, hbytes, hlength⟩
  rw [← hmore]
  constructor
  -- there is only one longest beginning, so what is added to it is nothing
  · rintro ⟨other, hother, heq⟩
    rw [hother.eq_cut, ← hkept.eq_cut, hbytes, List.append_right_eq_self] at heq
    exact Text.bytes_injective heq
  · rintro rfl
    exact ⟨kept, hkept, by rw [hbytes]; exact List.append_nil _⟩

/-- After so many letters there is no room for an umlaut, but for the letter behind it. -/
theorem gap_after_umlaut :
    let pieces := [String.ofList (List.replicate 119 'x'), "ä", "b"]
    ∃ d, blank.writeAll? pieces = some d ∧
      ¬∃ kept, Text.IsLongest Message.capacity (String.join pieces) kept ∧
        d.bytes = Text.bytes kept := by
  intro pieces
  have hwritten : (blank.writeAll? pieces).map Draft.bytes =
      some (List.replicate 119 0x78 ++ [0x62]) := by decide +kernel
  obtain ⟨d, hwrite, hbytes⟩ := Option.map_eq_some_iff.mp hwritten
  refine ⟨d, hwrite, ?_⟩
  rintro ⟨kept, hkept, heq⟩
  have htext : (String.join pieces).toList = List.replicate 119 'x' ++ ['ä', 'b'] := by
    simp only [pieces, String.join_cons, String.join_nil, String.toList_append,
      String.toList_ofList]
    rfl
  rw [hbytes, hkept.eq_cut, Text.cut, Text.bytes_ofList, htext] at heq
  revert heq
  decide +kernel

end Draft

end MorseKeyboard.Log
