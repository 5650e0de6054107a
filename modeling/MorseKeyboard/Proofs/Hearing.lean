import MorseKeyboard.Proofs.Reporting

/-!
# What the host hears

A host compares every report with the one before it. It takes a report for a press **if a key is
down in it that was not down before**, and the modifiers only say what the press stands for
(`MorseKeyboard.Report.presses`). So a press is lost if the key of one byte is still down when the
next byte is reported, and the reporter sees to it that a *byte* is released before it is reported
again, which is not the same: `1` and `!` are two bytes on one key.

All of this is told by which elements of a list are hidden by the element before them
(`MorseKeyboard.unhidden`). Among reports, one hides the next if they hold down the same key; among
bytes, one hides the next if they are different bytes on one key (`MorseKeyboard.Report.clashes`).
**What is heard of a queue is what is not hidden in it**
(`MorseKeyboard.Reporter.presses_append`), so everything is heard exactly when no two neighbours
clash (`MorseKeyboard.Reporter.heard_serve`).
-/

namespace MorseKeyboard

/-! ### Elements hidden by the one before them -/

section Hiding

variable {α : Type} {p : α → Bool} {hides : α → α → Bool}

/-- The elements with `p` that the element before them does not hide. -/
def unhidden (p : α → Bool) (hides : α → α → Bool) (before : Option α) : List α → List α
  | [] => []
  | a :: as =>
    if p a && !before.any (hides · a) then a :: unhidden p hides (some a) as
    else unhidden p hides (some a) as

theorem unhidden_cons (before : Option α) (a : α) (as : List α) :
    unhidden p hides before (a :: as) =
      unhidden p hides before [a] ++ unhidden p hides (some a) as := by
  rw [unhidden, unhidden, unhidden]
  split <;> rfl

/-- What is not hidden stands in the list. -/
theorem unhidden_sublist (before : Option α) (as : List α) :
    (unhidden p hides before as).Sublist (as.filter p) := by
  induction as generalizing before with
  | nil => exact List.Sublist.refl []
  | cons a as ih =>
    rw [unhidden, List.filter_cons]
    cases hp : p a with
    | false => exact ih (some a)
    | true =>
      cases before.any (hides · a) with
      | false => exact (ih (some a)).cons_cons a
      | true => exact (ih (some a)).cons a

/-- **Nothing is hidden exactly when no element hides the next one.** -/
theorem unhidden_eq_filter_iff (hp : ∀ a b, hides a b = true → p b = true) (before : Option α)
    (as : List α) :
    unhidden p hides before as = as.filter p ↔
      (before.toList ++ as).IsChain fun a b => hides a b = false := by
  induction as generalizing before with
  | nil => cases before <;> simp [unhidden]
  | cons a as ih =>
    have hchain : (before.toList ++ a :: as).IsChain (fun a b => hides a b = false) ↔
        before.any (hides · a) = false ∧ (a :: as).IsChain fun a b => hides a b = false := by
      cases before with
      | none => simp
      | some b => simp [List.isChain_cons_cons]
    have hrest := ih (some a)
    rw [Option.toList_some, List.singleton_append] at hrest
    rw [hchain, ← hrest, unhidden, List.filter_cons]
    cases hhidden : before.any (hides · a) with
    | false => cases p a <;> simp
    | true =>
      obtain ⟨b, rfl⟩ := Option.isSome_iff_exists.mp (Option.isSome_of_any hhidden)
      -- the element is missing, and nothing behind it makes up for it
      have hshorter : (unhidden p hides (some a) as).length ≤ (as.filter p).length :=
        (unhidden_sublist (some a) as).length_le
      rw [hp b a hhidden, Bool.not_true, Bool.and_false, if_neg Bool.false_ne_true, if_pos rfl]
      constructor
      · intro heq
        rw [heq, List.length_cons] at hshorter
        exact absurd hshorter (Nat.not_succ_le_self _)
      · rintro ⟨⟨⟩, -⟩

end Hiding

/-! ### Presses -/

namespace Report

/-- Whether the same key is down in two reports, whatever the modifiers. -/
def sharesKey (before next : Report) : Bool := !next.isEmpty && next.keycode == before.keycode

/-- The reports that a host takes for presses, if `before` is the last one that it got. -/
def presses (before : Option Report) (reports : List Report) : List Report :=
  unhidden (fun r => !r.isEmpty) sharesKey before reports

/-- Whether a byte has a key. -/
def hasKey (byte : UInt8) : Bool := (ofByte? byte).isSome

/-- The byte that a report stands for, if there is one. -/
def byte? (r : Report) : Option UInt8 :=
  ((List.range 256).map UInt8.ofNat).find? fun byte => ofByte? byte == some r

/-- The bytes that a host hears. -/
def heard (before : Option Report) (reports : List Report) : List UInt8 :=
  (presses before reports).filterMap byte?

/-- Whether two bytes are different, but on one key, as a digit and the mark above it are. -/
def clashes (byte other : UInt8) : Bool :=
  byte != other && ((ofByte? other).bind fun next =>
    (ofByte? byte).map fun before => sharesKey before next).getD false

/-- The bytes that can be heard, if `last` is still down: those with a key that do not clash with
the byte before them. -/
def audible (last : Option UInt8) (bytes : List UInt8) : List UInt8 :=
  unhidden hasKey clashes last bytes

/-- **A report stands for the byte that it reports.** -/
theorem byte?_of_ofByte? {byte : UInt8} {r : Report} (h : ofByte? byte = some r) :
    r.byte? = some byte := by
  rcases hfind : r.byte? with _ | other
  · exact absurd (List.find?_eq_none.mp hfind byte (mem_range_map byte)) (by simp [h])
  · have hother : ofByte? other = some r := by simpa using List.find?_some hfind
    rw [eq_of_ofByte?_eq hother h]

/-- **Bytes with a key are read off their reports.** -/
theorem filterMap_byte?_filterMap (bytes : List UInt8) :
    (bytes.filterMap ofByte?).filterMap byte? = bytes.filter hasKey := by
  rw [List.filterMap_filterMap, ← List.filterMap_eq_filter]
  refine List.filterMap_congr fun byte _ => ?_
  rcases hkey : ofByte? byte with _ | r
  · simp [Option.guard, hasKey, hkey]
  · simp [Option.guard, hasKey, hkey, byte?_of_ofByte? hkey]

theorem hasKey_of_clashes (byte other : UInt8) (h : clashes byte other = true) :
    hasKey other = true := by
  rcases hkey : ofByte? other with _ | r
  · simp [clashes, hkey] at h
  · rw [hasKey, hkey, Option.isSome_some]

/-- Only the bytes with a key are reported. -/
theorem filterMap_filter_hasKey (bytes : List UInt8) :
    (bytes.filter hasKey).filterMap ofByte? = bytes.filterMap ofByte? := by
  rw [List.filterMap_filter]
  refine List.filterMap_congr fun byte _ => ?_
  rcases hkey : ofByte? byte with _ | r
  · rw [ite_self]
  · rw [hasKey, hkey, Option.isSome_some, if_pos rfl]

/-- What can be heard has a key. -/
theorem filter_hasKey_audible (last : Option UInt8) (bytes : List UInt8) :
    (audible last bytes).filter hasKey = audible last bytes :=
  List.filter_eq_self.mpr fun _ h =>
    (List.mem_filter.mp ((unhidden_sublist last bytes).mem h)).2

theorem not_isEmpty_of_sharesKey (before next : Report) (h : before.sharesKey next = true) :
    (!next.isEmpty) = true := (Bool.and_eq_true_iff.mp h).1

end Report

/-! ### One poll after another -/

namespace Reporter

open Report

/-- The report in which the byte that was consumed last is still down, or no key is. -/
def held (r : Reporter) : Report := (r.last.bind ofByte?).getD .empty

/-- So many polls: the reports, the reporter and the queue afterwards. -/
def serve (r : Reporter) (queue : KeystrokeRing) : Nat → List Report × Reporter × KeystrokeRing
  | 0 => ([], r, queue)
  | n + 1 =>
    let (report, r, queue) := r.respond queue
    let (reports, last) := r.serve queue n
    (report :: reports, last)

/-- **What is reported is what is held.** -/
theorem respond_eq_held (r : Reporter) (queue : KeystrokeRing) :
    (r.respond queue).1 = (r.respond queue).2.1.held := by
  rw [respond]
  split
  · split
    · rfl
    · rfl
  · rfl

/-- A byte that needs no release clashes with the byte before it if their reports share the key. -/
theorem any_clashes {r : Reporter} {byte : UInt8} {next : Report} (hlast : r.last ≠ some byte)
    (hkey : ofByte? byte = some next) :
    r.last.any (clashes · byte) = r.held.sharesKey next := by
  have hdown : next.isEmpty = false := isEmpty_of_ofByte? hkey
  have hfree : Report.empty.sharesKey next = false := by
    rw [sharesKey, hdown]
    exact hdown
  rw [held]
  rcases hbyte : r.last with _ | before
  · exact hfree.symm
  rw [hbyte] at hlast
  have hne : (before != byte) = true := bne_iff_ne.mpr fun heq => hlast (congrArg some heq)
  rw [Option.any_some, clashes, hne, hkey, Option.bind_some]
  rcases hbefore : ofByte? before with _ | r
  · rw [Option.bind_some, hbefore]
    exact hfree.symm
  · rw [Option.bind_some, hbefore]
    rfl

/-- What can still be heard after a poll, and what the poll presses, is what could be heard before
it. -/
theorem presses_respond_append (r : Reporter) (queue : KeystrokeRing) :
    presses (some r.held) [(r.respond queue).1] ++
        (audible (r.respond queue).2.1.last (r.respond queue).2.2.toList).filterMap ofByte? =
      (audible r.last queue.toList).filterMap ofByte? := by
  rcases hpop : queue.pop? with _ | ⟨byte, rest⟩
  -- nothing waits
  · rw [respond, hpop, Ring.pop?_eq_none_iff.mp hpop]
    rfl
  rw [respond, hpop, Ring.toList_of_pop? hpop]
  dsimp only
  by_cases hlast : r.last = some byte
  -- a release, and the byte does not clash with itself
  · have hself : clashes byte byte = false := by simp [clashes]
    rw [if_pos hlast, hlast, Ring.toList_of_pop? hpop]
    simp only [audible, unhidden, Option.any_some, Option.any_none, hself]
    rfl
  rw [if_neg hlast, audible, audible, unhidden_cons r.last, List.filterMap_append]
  refine congrArg (· ++ _) ?_
  dsimp only
  rcases hkey : ofByte? byte with _ | next
  · rw [unhidden, hasKey, hkey]
    rfl
  · simp only [presses, unhidden, hasKey, hkey, any_clashes hlast hkey, Option.getD_some,
      isEmpty_of_ofByte? hkey, Option.any_some, Option.isSome_some]
    cases r.held.sharesKey next with
    | false => exact (List.filterMap_cons_some (l := []) hkey).symm
    | true => rfl

/-- A poll reports the keys of what it takes from the queue. -/
theorem filter_respond_append (r : Reporter) (queue : KeystrokeRing) :
    ([(r.respond queue).1].filter fun r => !r.isEmpty) ++
        (r.respond queue).2.2.toList.filterMap ofByte? =
      queue.toList.filterMap ofByte? := by
  rcases hpop : queue.pop? with _ | ⟨byte, rest⟩
  · rw [respond, hpop]
    rfl
  rw [respond, hpop]
  dsimp only
  by_cases hlast : r.last = some byte
  · rw [if_pos hlast]
    rfl
  rw [if_neg hlast, Ring.toList_of_pop? hpop]
  dsimp only
  rcases hkey : ofByte? byte with _ | next
  · rw [List.filterMap_cons_none hkey]
    rfl
  · rw [List.filterMap_cons_some hkey, Option.getD_some,
      List.filter_cons_of_pos (by rw [isEmpty_of_ofByte? hkey]; rfl)]
    rfl

/-- **What is heard of a queue is what can be heard of it**, as far as it has been polled. -/
theorem presses_append (r : Reporter) (queue : KeystrokeRing) (n : Nat) :
    let (reports, next, rest) := r.serve queue n
    presses (some r.held) reports ++ (audible next.last rest.toList).filterMap ofByte? =
      (audible r.last queue.toList).filterMap ofByte? := by
  induction n generalizing r queue with
  | zero => rfl
  | succ n ih =>
    have hnext := ih (r.respond queue).2.1 (r.respond queue).2.2
    rw [← respond_eq_held] at hnext
    rw [serve]
    dsimp only at hnext ⊢
    rw [presses, unhidden_cons, List.append_assoc]
    exact (congrArg _ hnext).trans (presses_respond_append r queue)

/-- The reports with a key are the keys of the bytes, as far as they have been polled. -/
theorem filter_append (r : Reporter) (queue : KeystrokeRing) (n : Nat) :
    let (reports, _, rest) := r.serve queue n
    (reports.filter fun r => !r.isEmpty) ++ rest.toList.filterMap ofByte? =
      queue.toList.filterMap ofByte? := by
  induction n generalizing r queue with
  | zero => rfl
  | succ n ih =>
    have hnext := ih (r.respond queue).2.1 (r.respond queue).2.2
    rw [serve]
    dsimp only at hnext ⊢
    rw [← List.singleton_append, List.filter_append, List.append_assoc]
    exact (congrArg _ hnext).trans (filter_respond_append r queue)

/-- A queue is polled to its end by two polls for each byte. -/
theorem toList_serve (r : Reporter) (queue : KeystrokeRing) {n : Nat}
    (hn : r.polls queue.toList ≤ n) : (r.serve queue n).2.2.toList = [] := by
  induction n generalizing r queue with
  | zero =>
    have hlength : queue.toList.length ≤ 0 := Nat.le_trans (r.length_le_polls queue.toList) hn
    exact List.length_eq_zero_iff.mp (Nat.le_zero.mp hlength)
  | succ n ih =>
    obtain ⟨hnext, hrest⟩ := r.respond_eq_pollOf queue
    refine ih (r.respond queue).2.1 (r.respond queue).2.2 ?_
    rw [hnext, hrest, polls_pollOf]
    omega

/-- **What the host hears of a queue.** A reporter has consumed some byte last, or nothing, and the
host has got its report. Then the queue is polled to its end. The host hears the bytes with a key,
but not those that clash with the byte before them. So it hears all of them, and every key is
released before it goes down again, exactly if no two neighbours clash. -/
theorem heard_serve (r : Reporter) (queue : KeystrokeRing) {n : Nat}
    (hend : (r.serve queue n).2.2.toList = []) :
    let bytes := queue.toList
    let reports := (r.serve queue n).1
    heard (some r.held) reports = audible r.last bytes ∧
      (heard (some r.held) reports = bytes.filter hasKey ↔
        (r.last.toList ++ bytes).IsChain fun a b => clashes a b = false) ∧
      ((r.held :: reports).IsChain (fun before next => before.sharesKey next = false) ↔
        (r.last.toList ++ bytes).IsChain fun a b => clashes a b = false) := by
  intro bytes reports
  have hpresses : presses (some r.held) reports = (audible r.last bytes).filterMap ofByte? := by
    have hall := r.presses_append queue n
    simp only [hend] at hall
    exact (List.append_nil _).symm.trans hall
  have hfilter : (reports.filter fun r => !r.isEmpty) = bytes.filterMap ofByte? := by
    have hall := r.filter_append queue n
    simp only [hend] at hall
    exact (List.append_nil _).symm.trans hall
  have hheard : heard (some r.held) reports = audible r.last bytes := by
    rw [heard, hpresses, filterMap_byte?_filterMap, filter_hasKey_audible]
  have hbytes : audible r.last bytes = bytes.filter hasKey ↔
      (r.last.toList ++ bytes).IsChain fun a b => clashes a b = false :=
    unhidden_eq_filter_iff hasKey_of_clashes r.last bytes
  have hreports : (presses (some r.held) reports = reports.filter fun r => !r.isEmpty) ↔
      (r.held :: reports).IsChain fun before next => before.sharesKey next = false :=
    unhidden_eq_filter_iff not_isEmpty_of_sharesKey (some r.held) reports
  refine ⟨hheard, by rw [hheard, hbytes], ?_⟩
  rw [← hreports, ← hbytes, hpresses, hfilter]
  constructor
  · intro heq
    have := congrArg (List.filterMap byte?) heq
    rwa [filterMap_byte?_filterMap, filterMap_byte?_filterMap, filter_hasKey_audible] at this
  · intro heq
    rw [heq, filterMap_filter_hasKey]

/-- An o is heard twice, for it is released in between, and so is the digit behind a byte without a
key. -/
theorem heard_serve_released :
    let queue := KeystrokeRing.empty.pushAll [0x6f, 0x6f, 0x21, 0x00, 0x31]
    (fresh.serve queue 6).2.2.toList = [] ∧
      heard (some fresh.held) (fresh.serve queue 6).1 = [0x6f, 0x6f, 0x21, 0x31] := by
  intro queue
  have hend : (fresh.serve queue 6).2.2.toList = [] :=
    toList_serve fresh queue (by decide +kernel)
  obtain ⟨-, hall, -⟩ := heard_serve fresh queue hend
  exact ⟨hend, (hall.mpr (by decide +kernel)).trans (by decide +kernel)⟩

/-- **A shifted character behind the plain one of the same key is not heard.** Between the reports
of `1` and `!` there is no empty one, so the host takes the second one for a change of the modifiers
while the key stays down. -/
theorem unheard_shifted :
    let queue := KeystrokeRing.empty.pushAll [0x31, 0x21]
    let reports := (fresh.serve queue 4).1
    (fresh.serve queue 4).2.2.toList = [] ∧
      reports = [.plain 0x1e, .shifted 0x1e, .empty, .empty] ∧
      queue.toList.filter hasKey = [0x31, 0x21] ∧ heard (some .empty) reports = [0x31] := by
  decide +kernel

end Reporter

end MorseKeyboard
