import MorseKeyboard.Text.Bytes

/-!
# Where a text is cut

A text that is too long is cut to the characters that fit. What is kept is **the longest beginning
in whole characters** (`MorseKeyboard.Text.isLongest_cut`): it is found by going through the
characters from the first one.

The same place can be found in the bytes, going back from the limit to the last boundary. A position
in the bytes of a text lies inside a character exactly if the byte there continues one
(`MorseKeyboard.Text.isBoundary_iff`), so the count ends where the characters that fit end
(`MorseKeyboard.Text.lastBoundary?_bytes`). It never goes below zero, for the beginning is a
boundary as well.
-/

namespace MorseKeyboard.Text

/-! ### The longest beginning -/

/-- A beginning of a text in whole characters, as long as so many bytes allow. -/
structure IsLongest (room : Nat) (text kept : String) : Prop where
  beginning : kept.toList <+: text.toList
  length_le : (bytes kept).length ≤ room
  longest (other : String) : other.toList <+: text.toList → (bytes other).length ≤ room →
    other.toList <+: kept.toList

/-- **What is kept of a text is the longest beginning that fits.** -/
theorem isLongest_cut (room : Nat) (text : String) : IsLongest room text (cut room text) where
  beginning := by
    rw [cut, String.toList_ofList]
    exact fit_prefix room text.toList
  length_le := length_bytes_cut_le room text
  longest other hother hfits := by
    rw [cut, String.toList_ofList]
    exact prefix_fit hother hfits

/-- There is only one longest beginning. -/
theorem IsLongest.eq_cut {room : Nat} {text kept : String} (h : IsLongest room text kept) :
    kept = cut room text := by
  have hcut := isLongest_cut room text
  have hle := (h.longest _ hcut.beginning hcut.length_le).length_le
  exact String.toList_inj.mp ((hcut.longest _ h.beginning h.length_le).eq_of_length_le hle)

theorem cut_append_of_le {room : Nat} {s : String} (h : (bytes s).length ≤ room) (t : String) :
    cut room (s ++ t) = s ++ cut (room - (bytes s).length) t := by
  rw [cut, String.toList_append, fit_append_of_le h, String.ofList_append, String.ofList_toList,
    cut, bytes]

theorem cut_append_of_lt {room : Nat} {s : String} (h : room < (bytes s).length) (t : String) :
    cut room (s ++ t) = cut room s := by
  rw [cut, String.toList_append, fit_append_of_lt h, cut]

/-- **Something is kept of a text** just if it begins with a character that fits. -/
theorem cut_ne_empty_iff (room : Nat) (s : String) :
    cut room s ≠ "" ↔ ∃ c, s.toList.head? = some c ∧ c.utf8Size ≤ room := by
  rw [Ne, ← String.toList_eq_nil_iff, cut, String.toList_ofList]
  cases s.toList with
  | nil => simp [fit]
  | cons c cs => simp [fit]

/-- Different texts have different bytes. -/
theorem bytes_injective : Function.Injective bytes := by
  intro s t h
  have hread := congrArg ofBytes? h
  rwa [ofBytes?_bytes, ofBytes?_bytes, Option.some_inj] at hread

/-! ### The bytes of a character -/

theorem isContinuation_ofNat (n : Nat) :
    isContinuation (.ofNat n) = true ↔ 0x80 ≤ n % 0x100 ∧ n % 0x100 < 0xC0 := by
  rw [isContinuation, Bool.and_eq_true, decide_eq_true_eq, decide_eq_true_eq,
    UInt8.le_iff_toNat_le, UInt8.lt_iff_toNat_lt, UInt8.toNat_ofNat']
  rfl

/-- **Of the bytes of a character all but the first continue it.** -/
theorem exists_utf8EncodeChar (c : Char) :
    ∃ b rest, String.utf8EncodeChar c = b :: rest ∧ isContinuation b = false ∧
      ∀ x ∈ rest, isContinuation x = true := by
  have hfirst {n : Nat} (h : n % 0x100 < 0x80 ∨ 0xC0 ≤ n % 0x100) :
      isContinuation (.ofNat n) = false := by
    rw [← Bool.not_eq_true, isContinuation_ofNat]
    omega
  have hmore {n : Nat} {xs : List UInt8} (h : ∀ x ∈ xs, isContinuation x = true) :
      ∀ x ∈ UInt8.ofNat (n % 64 + 128) :: xs, isContinuation x = true := by
    refine List.forall_mem_cons.mpr ⟨?_, h⟩
    rw [isContinuation_ofNat]
    omega
  have hnone : ∀ x ∈ ([] : List UInt8), isContinuation x = true := List.forall_mem_nil _
  rw [String.utf8EncodeChar]
  generalize c.val.toNat = v
  split
  · exact ⟨_, _, rfl, hfirst (by omega), hnone⟩
  · split
    · exact ⟨_, _, rfl, hfirst (by omega), hmore hnone⟩
    · split
      · exact ⟨_, _, rfl, hfirst (by omega), hmore (hmore hnone)⟩
      · exact ⟨_, _, rfl, hfirst (by omega), hmore (hmore (hmore hnone))⟩

/-! ### Positions in the bytes of a text -/

/-- Every position before the end belongs to a character. -/
theorem exists_char_at {cs : List Char} {i : Nat} (h : i < (encode cs).length) :
    ∃ before c after j, cs = before ++ c :: after ∧ j < c.utf8Size ∧
      i = (encode before).length + j := by
  induction cs generalizing i with
  | nil => exact absurd h (Nat.not_lt_zero _)
  | cons c cs ih =>
    rw [encode_cons, List.length_append, String.length_utf8EncodeChar] at h
    rcases Nat.lt_or_ge i c.utf8Size with hfirst | hlater
    · exact ⟨[], c, cs, i, rfl, hfirst, (Nat.zero_add i).symm⟩
    · have hrest : i - c.utf8Size < (encode cs).length := by omega
      obtain ⟨before, d, after, j, rfl, hj, hi⟩ := ih hrest
      refine ⟨c :: before, d, after, j, rfl, hj, ?_⟩
      rw [encode_cons, List.length_append, String.length_utf8EncodeChar]
      omega

theorem encode_prefix_encode {cs ds : List Char} (h : ds <+: cs) : encode ds <+: encode cs := by
  obtain ⟨rest, rfl⟩ := h
  exact ⟨encode rest, (encode_append ds rest).symm⟩

theorem isBoundary_length_encode {cs ds : List Char} (h : ds <+: cs) :
    isBoundary (encode cs) (encode ds).length = true := by
  obtain ⟨rest, rfl⟩ := h
  rw [isBoundary, encode_append, List.getElem?_append_right (Nat.le_refl _), Nat.sub_self]
  cases rest with
  | nil => simp
  | cons c rest =>
    obtain ⟨b, more, hc, hb, -⟩ := exists_utf8EncodeChar c
    rw [encode_cons, hc]
    simp [hb]

/-- **The boundaries in the bytes of a text are the ends of its beginnings.** -/
theorem isBoundary_iff {cs : List Char} {i : Nat} (h : i ≤ (encode cs).length) :
    isBoundary (encode cs) i = true ↔ ∃ ds, ds <+: cs ∧ (encode ds).length = i := by
  refine ⟨fun hi => ?_, fun ⟨ds, hds, hi⟩ => hi ▸ isBoundary_length_encode hds⟩
  rcases Nat.lt_or_eq_of_le h with hlt | rfl
  · obtain ⟨before, c, after, j, rfl, hj, rfl⟩ := exists_char_at hlt
    cases j with
    | zero => exact ⟨before, List.prefix_append _ _, rfl⟩
    | succ j =>
      -- the position lies inside the character
      obtain ⟨b, rest, hc, -, hrest⟩ := exists_utf8EncodeChar c
      have hsize : rest.length + 1 = c.utf8Size := by
        rw [← String.length_utf8EncodeChar, hc, List.length_cons]
      have hlt : j < rest.length := by omega
      have hbyte : (encode (before ++ c :: after))[(encode before).length + (j + 1)]? =
          some rest[j] := by
        rw [encode_append, List.getElem?_append_right (Nat.le_add_right _ _),
          Nat.add_sub_cancel_left, encode_cons, hc, List.cons_append, List.getElem?_cons_succ,
          List.getElem?_append_left hlt, List.getElem?_eq_getElem hlt]
      rw [isBoundary, hbyte] at hi
      simp [hrest rest[j] (List.getElem_mem hlt)] at hi
  · exact ⟨cs, List.prefix_refl cs, rfl⟩

/-! ### Counting down -/

theorem lastBoundary?_eq_some {bs : List UInt8} {i j : Nat} (hj : isBoundary bs j = true)
    (hle : j ≤ i) (hlast : ∀ k, j < k → k ≤ i → isBoundary bs k = false) :
    lastBoundary? bs i = some j := by
  induction i with
  | zero =>
    obtain rfl := Nat.le_zero.mp hle
    exact if_pos hj
  | succ i ih =>
    rcases Nat.lt_or_eq_of_le hle with hlt | rfl
    · rw [lastBoundary?, hlast (i + 1) hlt (Nat.le_refl _), if_neg Bool.false_ne_true]
      exact ih (Nat.le_of_lt_succ hlt) fun k hk hki => hlast k hk (Nat.le_succ_of_le hki)
    · exact if_pos hj

/-- **The count down from the limit ends where the characters that fit end.** -/
theorem lastBoundary?_encode (room : Nat) (cs : List Char) :
    lastBoundary? (encode cs) (min (encode cs).length room) =
      some (encode (fit room cs)).length := by
  have hfit : fit room cs <+: cs := fit_prefix room cs
  have hle : (encode (fit room cs)).length ≤ min (encode cs).length room :=
    Nat.le_min.mpr ⟨(encode_prefix_encode hfit).length_le, length_encode_fit_le room cs⟩
  refine lastBoundary?_eq_some (isBoundary_length_encode hfit) hle fun k hlt hk => ?_
  have ⟨hlength, hroom⟩ := Nat.le_min.mp hk
  -- a boundary beyond would end a longer beginning that fits
  rw [← Bool.not_eq_true, isBoundary_iff hlength]
  rintro ⟨ds, hds, rfl⟩
  have hshort := (encode_prefix_encode (prefix_fit hds hroom)).length_le
  omega

/-- **The count down in the bytes of a text ends where the text is cut.** -/
theorem lastBoundary?_bytes (room : Nat) (s : String) :
    lastBoundary? (bytes s) (min (bytes s).length room) = some (bytes (cut room s)).length := by
  rw [cut, bytes_ofList]
  exact lastBoundary?_encode room s.toList

theorem bytes_cut_prefix_bytes (room : Nat) (s : String) : bytes (cut room s) <+: bytes s := by
  have hfit : fit room s.toList <+: s.toList := fit_prefix room s.toList
  rw [cut, bytes_ofList]
  exact encode_prefix_encode hfit

end MorseKeyboard.Text
