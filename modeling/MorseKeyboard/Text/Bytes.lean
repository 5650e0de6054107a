/-!
# Text as bytes

Messages and stored texts are limited in bytes, yet a character must never be cut in half.
`MorseKeyboard.Text.cut` keeps whole characters for as long as they fit and **stops at the first
that does not**, so what it keeps is a prefix of the text; it is the longest prefix of whole
characters within the limit (`MorseKeyboard.Text.prefix_fit`).

In the bytes alone the same place is found from the other side. A byte that continues a character
can be told from one that begins one, and `MorseKeyboard.Text.lastBoundary?` counts down from a
position **until it does not stand inside a character**.
-/

namespace MorseKeyboard.Text

/-- The UTF-8 encoding of a list of characters. -/
def encode (cs : List Char) : List UInt8 := cs.flatMap String.utf8EncodeChar

/-- The UTF-8 encoding of a text. -/
def bytes (s : String) : List UInt8 := encode s.toList

/-- The text that some bytes encode, if they are valid UTF-8. -/
def ofBytes? (bytes : List UInt8) : Option String := String.fromUTF8? ⟨⟨bytes⟩⟩

/-- The characters that fit into a room of so many bytes, up to the first that does not. -/
def fit (room : Nat) : List Char → List Char
  | [] => []
  | c :: cs => if c.utf8Size ≤ room then c :: fit (room - c.utf8Size) cs else []

/-- The beginning of a text that fits into a room of so many bytes. -/
def cut (room : Nat) (s : String) : String := String.ofList (fit room s.toList)

/-! ### Boundaries -/

/-- Whether a byte continues a character; the first byte of none does. -/
def isContinuation (b : UInt8) : Bool := 0x80 ≤ b && b < 0xC0

/-- Whether a position in the bytes of a text is a boundary between characters: the beginning, the
end, or a place before a byte that does not continue a character. -/
def isBoundary (bytes : List UInt8) (i : Nat) : Bool :=
  i == 0 ||
    match bytes[i]? with
    | some b => !isContinuation b
    | none => i == bytes.length

/-- The last boundary up to a position, counting down from it. There is none if the count would go
below zero. -/
def lastBoundary? (bytes : List UInt8) : Nat → Option Nat
  | 0 => if isBoundary bytes 0 then some 0 else none
  | i + 1 => if isBoundary bytes (i + 1) then some (i + 1) else lastBoundary? bytes i

/-! ### Piece by piece -/

@[simp] theorem encode_nil : encode [] = [] := rfl

@[simp] theorem encode_cons (c : Char) (cs : List Char) :
    encode (c :: cs) = String.utf8EncodeChar c ++ encode cs := rfl

@[simp] theorem encode_append (cs ds : List Char) : encode (cs ++ ds) = encode cs ++ encode ds :=
  List.flatMap_append

/-! ### There and back -/

theorem bytes_ofList (cs : List Char) : bytes (String.ofList cs) = encode cs := by
  rw [bytes, String.toList_ofList]

@[simp] theorem bytes_append (s t : String) : bytes (s ++ t) = bytes s ++ bytes t := by
  rw [bytes, String.toList_append, encode_append]
  rfl

theorem bytes_join (pieces : List String) : bytes (String.join pieces) = pieces.flatMap bytes := by
  induction pieces with
  | nil => rfl
  | cons piece rest ih => rw [String.join_cons, bytes_append, ih, List.flatMap_cons]

/-- **The bytes of a text are valid**, and it is the text that they encode. -/
theorem ofBytes?_bytes (s : String) : ofBytes? (bytes s) = some s := by
  have hbytes : (⟨⟨bytes s⟩⟩ : ByteArray) = s.toByteArray := by
    rw [← String.utf8Encode_toList, List.utf8Encode]
    refine ByteArray.ext ?_
    rw [List.data_toByteArray]
    rfl
  rw [ofBytes?, hbytes, String.fromUTF8?, dif_pos s.isValidUTF8]
  rfl

/-! ### What fits -/

/-- **What is kept is a beginning of the text.** -/
theorem fit_prefix (room : Nat) (cs : List Char) : fit room cs <+: cs := by
  induction cs generalizing room with
  | nil => exact List.prefix_refl _
  | cons c cs ih =>
    unfold fit
    split
    · exact (List.prefix_cons_inj c).mpr (ih _)
    · exact List.nil_prefix

/-- **What is kept fits.** -/
theorem length_encode_fit_le (room : Nat) (cs : List Char) :
    (encode (fit room cs)).length ≤ room := by
  induction cs generalizing room with
  | nil => exact Nat.zero_le _
  | cons c cs ih =>
    unfold fit
    split
    · next h =>
      have := ih (room - c.utf8Size)
      simp only [encode_cons, List.length_append, String.length_utf8EncodeChar]
      omega
    · exact Nat.zero_le _

/-- **What fits is kept whole.** -/
theorem fit_eq_self {room : Nat} {cs : List Char} (h : (encode cs).length ≤ room) :
    fit room cs = cs := by
  induction cs generalizing room with
  | nil => rfl
  | cons c cs ih =>
    rw [encode_cons, List.length_append, String.length_utf8EncodeChar] at h
    rw [fit, if_pos (by omega), ih (by omega)]

/-- **No longer beginning fits.** -/
theorem prefix_fit {room : Nat} {cs ds : List Char} (h : ds <+: cs)
    (hfits : (encode ds).length ≤ room) : ds <+: fit room cs := by
  induction cs generalizing room ds with
  | nil => exact h
  | cons c cs ih =>
    cases ds with
    | nil => exact List.nil_prefix
    | cons d ds =>
      obtain ⟨rfl, hrest⟩ := List.cons_prefix_cons.mp h
      rw [encode_cons, List.length_append, String.length_utf8EncodeChar] at hfits
      rw [fit, if_pos (by omega)]
      exact (List.prefix_cons_inj d).mpr (ih hrest (by omega))

/-- **Less than a character stays free**, if something had to be left out. -/
theorem lt_length_encode_fit {room : Nat} {cs : List Char} (h : room < (encode cs).length) :
    room < (encode (fit room cs)).length + 4 := by
  induction cs generalizing room with
  | nil => exact absurd h (Nat.not_lt_zero _)
  | cons c cs ih =>
    have hsize := c.utf8Size_le_four
    rw [encode_cons, List.length_append, String.length_utf8EncodeChar] at h
    rw [fit]
    split
    · have hless : room - c.utf8Size < (encode cs).length := by omega
      have hrest := ih hless
      rw [encode_cons, List.length_append, String.length_utf8EncodeChar]
      omega
    · rw [encode_nil, List.length_nil]
      omega

theorem fit_append_of_le {room : Nat} {cs : List Char} (h : (encode cs).length ≤ room)
    (ds : List Char) : fit room (cs ++ ds) = cs ++ fit (room - (encode cs).length) ds := by
  induction cs generalizing room with
  | nil => rfl
  | cons c cs ih =>
    rw [encode_cons, List.length_append, String.length_utf8EncodeChar] at h
    rw [List.cons_append, fit, if_pos (by omega), ih (by omega), encode_cons, List.length_append,
      String.length_utf8EncodeChar, Nat.sub_sub]
    rfl

/-- What comes after the first character that does not fit makes no difference. -/
theorem fit_append_of_lt {room : Nat} {cs : List Char} (h : room < (encode cs).length)
    (ds : List Char) : fit room (cs ++ ds) = fit room cs := by
  induction cs generalizing room with
  | nil => exact absurd h (Nat.not_lt_zero _)
  | cons c cs ih =>
    rw [encode_cons, List.length_append, String.length_utf8EncodeChar] at h
    rw [List.cons_append, fit, fit]
    split
    · rw [ih (by omega)]
    · rfl

theorem length_bytes_cut_le (room : Nat) (s : String) : (bytes (cut room s)).length ≤ room := by
  rw [cut, bytes_ofList]
  exact length_encode_fit_le room s.toList

theorem cut_eq_self {room : Nat} {s : String} (h : (bytes s).length ≤ room) : cut room s = s := by
  rw [cut, fit_eq_self h, String.ofList_toList]

end MorseKeyboard.Text
