import MorseKeyboard.Proofs.Sender.Keying
import MorseKeyboard.Proofs.Sender.RoundTrip

/-!
# A run that was decoded is played again

A decoder turns a run of symbols into text, and a sender turns text into a run of symbols. On the
alphabet the second undoes the first: if each letter of a run is that of a sign, or a blank, **the
sender plays the run that was decoded, symbol for symbol**
(`MorseKeyboard.Sender.Desk.exists_calls_played_eq`).

The two halves of this have nothing to do with each other. One is about the tables: a sign is played
as the elements that it was read from (`MorseKeyboard.Code.IsLettered.exists_played`). The other is
about the sender: what will have been played in the end can be told at every moment before, and no
call changes it (`MorseKeyboard.Sender.Desk.playlist_call`). It is what was played so far, then the
symbols in their queue, and then what the queued bytes are expanded into.
-/

namespace MorseKeyboard

/-! ### The run of a text -/

namespace Code

/-- **What the alphabet accounts for**: the elements of a sign, or none at all, as in the blank
between two words. -/
def IsLettered (letter : List Symbol) : Prop :=
  (∀ s ∈ letter, s.isElement = true) ∧
    (letter = [] ∨ (letter? (Pattern.ofElements letter)).isSome = true)

instance (letter : List Symbol) : Decidable (IsLettered letter) :=
  inferInstanceAs (Decidable (_ ∧ _))

/-- A run of letters, each with the space that ends it. -/
def spaced (letters : List (List Symbol)) : List Symbol :=
  letters.flatMap fun letter => letter ++ [.space]

/-- **A byte that is read comes back as itself.** -/
theorem image_of_letter? {p : Nat} {byte : UInt8} (h : letter? p = some byte) :
    image byte = [byte] := by
  have hseed : p ≠ Pattern.seed := by
    rintro rfl
    exact absurd (letter?_bounds h).1 (by decide)
  rw [← meaning_of_pattern? (pattern?_of_letter? h), Decoder.meaning, if_neg hseed, h]

/-- **A letter is played as it was read.** -/
theorem IsLettered.exists_played {letter : List Symbol} (h : IsLettered letter) :
    ∃ byte, played byte = letter ++ [.space] ∧ image byte = [byte] := by
  obtain ⟨helements, rfl | hsome⟩ := h
  · exact ⟨0x20, rfl, rfl⟩
  · obtain ⟨byte, hbyte⟩ := Option.isSome_iff_exists.mp hsome
    refine ⟨byte, ?_, image_of_letter? hbyte⟩
    rw [played, elements?, pattern?_of_letter? hbyte, Option.map_some,
      Pattern.elements_ofElements helements]

/-- **A run of letters is the run of a text**, and comes back as that text. -/
theorem exists_text {letters : List (List Symbol)} (h : ∀ letter ∈ letters, IsLettered letter) :
    ∃ bytes : List UInt8, bytes.length = letters.length ∧ bytes.flatMap played = spaced letters ∧
      bytes.flatMap image = bytes := by
  induction letters with
  | nil => exact ⟨[], rfl, rfl, rfl⟩
  | cons letter letters ih =>
    obtain ⟨byte, hplayed, himage⟩ := (h letter List.mem_cons_self).exists_played
    obtain ⟨bytes, hlength, hrun, himages⟩ := ih fun x hx => h x (List.mem_cons_of_mem _ hx)
    refine ⟨byte :: bytes, congrArg (· + 1) hlength, ?_, ?_⟩
    · rw [List.flatMap_cons, hplayed, hrun, spaced, spaced, List.flatMap_cons]
    · rw [List.flatMap_cons, himage, himages, List.singleton_append]

end Code

namespace Sender.Desk

/-! ### What is played in the end -/

/-- The symbols that were taken up so far. -/
def played (d : Desk) : List Symbol := d.trace.filterMap Signal.symbol?

/-- **The symbols played in the end**: those that were taken up already, those in the queue, and
those that the queued bytes are expanded into. -/
def playlist (d : Desk) : List Symbol :=
  d.played ++ (d.symbols.toList ++ d.chars.toList.flatMap Code.played)

variable {d : Desk}

theorem played_take (d : Desk) (t : Turn) :
    (d.take t).played = d.played ++ t.signals.filterMap Signal.symbol? := by
  rw [played, trace_take, List.filterMap_append, played]

/-- Taking up a symbol moves it from what is queued to what was played. -/
theorem playlist_taking (d : Desk) (chars : CharRing) (x : Symbol) (rest : SymbolRing)
    (rate : Option Rate) :
    (d.take (d.sender.taking chars x rest rate)).playlist =
      d.played ++ (x :: rest.toList ++ chars.toList.flatMap Code.played) := by
  have hplayed : (d.take (d.sender.taking chars x rest rate)).played = d.played ++ [x] := by
    rw [played_take, taking, filterMap_symbol?_signalsOf]
  rw [playlist, hplayed, List.append_assoc]
  rfl

/-- A call in which the output does nothing but move the key plays no symbol. -/
theorem playlist_take_of_no_symbol {t : Turn} (h : t.signals.filterMap Signal.symbol? = []) :
    (d.take t).playlist =
      d.played ++ (t.symbols.toList ++ t.chars.toList.flatMap Code.played) := by
  rw [playlist, played_take, h, List.append_nil]
  rfl

/-- **No call changes what is played in the end.** -/
theorem playlist_call (h : d.WellFormed) : d.call.playlist = d.playlist := by
  obtain ⟨t, ht, hcall⟩ := d.exists_call
  rw [hcall]
  cases ht with
  | wait | settle | release | pass => exact playlist_take_of_no_symbol rfl
  -- what is swallowed would have been played as nothing
  | swallow hs hq hc he =>
    rw [playlist_take_of_no_symbol rfl, playlist, Ring.toList_of_pop? hc, List.flatMap_cons,
      Code.played, he, List.nil_append]
  -- what a byte is played as moves from the bytes still queued to the symbols still queued
  | blank hs hq hc =>
    rw [playlist_take_of_no_symbol rfl, playlist, Ring.toList_of_pop? hc, List.flatMap_cons,
      Ring.pop?_eq_none_iff.mp hq, List.nil_append]
    dsimp only
    rw [toList_blank h.symbols hq]
  | expand hs hq hc hb he hx =>
    rw [playlist_taking, playlist, Ring.toList_of_pop? hc, List.flatMap_cons,
      Ring.pop?_eq_none_iff.mp hq, List.nil_append, ← toList_expanded h.symbols hq he,
      Ring.toList_of_pop? hx]
  | wake hs hx | next hs hx => rw [playlist_taking, playlist, Ring.toList_of_pop? hx]

/-- At rest everything was played. -/
theorem AtRest.played_eq (hr : d.AtRest) : d.played = d.playlist := by
  rw [playlist, hr.symbols, hr.chars]
  exact (List.append_nil _).symm

/-- **A sender comes to rest, and then it has played all that it had to.** -/
theorem exists_calls_played (h : d.WellFormed) :
    ∃ n, ∀ m, n ≤ m → (d.calls m).AtRest ∧ (d.calls m).played = d.playlist := by
  obtain ⟨n, hrest, -⟩ := exists_calls_atRest h
  refine ⟨n, ?_⟩
  intro m hm
  obtain ⟨k, rfl⟩ := Nat.exists_eq_add_of_le hm
  have hrest' : (d.calls (n + k)).AtRest := by
    rw [calls_add]
    exact (hrest.calls k).1
  obtain ⟨-, hplaylist⟩ := calls_induction (P := fun e => e.WellFormed ∧ e.playlist = d.playlist)
    (fun e he => ⟨he.1.call, (playlist_call he.1).trans he.2⟩) ⟨h, rfl⟩ (n + k)
  exact ⟨hrest', hrest'.played_eq.trans hplaylist⟩

/-- **A run that was decoded is played again.** A decoder that has heard nothing listens to a run of
at most 128 letters, each of them that of a sign of the alphabet or a blank, and the text that it
writes is queued at once at a desk at which nothing has happened. After finitely many calls the
sender is at rest, and from then on the symbols that it has taken up are those of the run, spaces
included. -/
theorem exists_calls_played_eq (letters : List (List Symbol))
    (h : ∀ letter ∈ letters, Code.IsLettered letter) (hlength : letters.length ≤ 128) :
    let text := (Decoder.fresh.hearAll (Code.spaced letters)).1
    let desk : Desk := { chars := CharRing.empty.pushAll text }
    ∃ n, ∀ m, n ≤ m → (desk.calls m).AtRest ∧ (desk.calls m).played = Code.spaced letters := by
  intro text desk
  obtain ⟨bytes, hbytes, hrun, himage⟩ := Code.exists_text h
  have htext : text = bytes := by
    change (Decoder.fresh.hearAll (Code.spaced letters)).1 = bytes
    rw [← hrun, Decoder.hearAll_flatMap_played, himage]
  have hempty : CharRing.empty.WellFormed := Ring.wellFormed_empty 128 0 (by decide)
  have hchars : desk.chars.toList = bytes := by
    change (CharRing.empty.pushAll text).toList = bytes
    rw [htext, Ring.toList_pushAll_of_length_le hempty]
    · rfl
    · change 0 + bytes.length ≤ 128
      omega
  have hsymbols : SymbolRing.empty.WellFormed := Ring.wellFormed_empty 16 Symbol.space (by decide)
  have hwf : desk.WellFormed := ⟨hempty.pushAll text, hsymbols⟩
  have hplaylist : desk.playlist = Code.spaced letters := by
    rw [playlist, hchars, hrun]
    rfl
  rw [← hplaylist]
  exact exists_calls_played hwf

/-- An `a`, a blank, a question mark and another blank. -/
theorem exists_calls_played_eq_question :
    let letters : List (List Symbol) := [[.dit, .dah], [], [.dit, .dit, .dah, .dah, .dit, .dit], []]
    let desk : Desk := { chars := CharRing.empty.pushAll [0x61, 0x20, 0x3F, 0x20] }
    (∀ letter ∈ letters, Code.IsLettered letter) ∧ letters.length ≤ 128 ∧
      (Decoder.fresh.hearAll (Code.spaced letters)).1 = [0x61, 0x20, 0x3F, 0x20] ∧
      ∃ n, ∀ m, n ≤ m → (desk.calls m).played =
        [.dit, .dah, .space, .space, .dit, .dit, .dah, .dah, .dit, .dit, .space, .space] := by
  intro letters desk
  have hletters : ∀ letter ∈ letters, Code.IsLettered letter := by decide
  obtain ⟨n, hn⟩ := exists_calls_played_eq letters hletters (by decide)
  exact ⟨hletters, by decide, by decide, n, fun m hm => (hn m hm).2⟩

end Sender.Desk

end MorseKeyboard
