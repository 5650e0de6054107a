import MorseKeyboard.Console.Command
import MorseKeyboard.Proofs.Keyboard.Routing
import MorseKeyboard.Proofs.Keyboard.StoredTexts
import MorseKeyboard.Proofs.Words

/-!
# What a line makes the keyboard do

Any line may be typed at the console, and many are not what they should be. Here every line is told
by how it is written, and what the keyboard does with it follows from that alone.

A command is spelled by a backslash, a word and an argument (`MorseKeyboard.Console.Spells`), in one
way only. An argument names a slot if its first word is a numeral (`MorseKeyboard.Console.Names`),
and it sets a number if it is a numeral of one in range (`MorseKeyboard.Console.Sets`). That the
console reads a missing number as one out of range is why the keyboard needs no other check: **a
command with a bad argument is refused or answered, and changes nothing**
(`MorseKeyboard.Console.respondTo_line`).
-/

namespace MorseKeyboard.Console

/-! ### Reading a line -/

/-- **A line that is a command**: a backslash, a word, and after the first blank the argument, with
other blanks around it. -/
def Spells (line name : String) (arg : List Char) : Prop :=
  ∃ command rest, line.toList = '\\' :: command ∧ Text.Splits ' ' command name.toList rest ∧
    Text.Trims rest arg

/-- **The first word of an argument is a numeral** of some number. -/
def Names (arg : List Char) (i : Nat) : Prop :=
  ∃ word rest, Text.Splits ' ' arg word rest ∧ Text.Numeral word i

/-- **An argument sets a number**: the one that it is a numeral of, if this is in range, or else the
fallback. -/
def Sets (lowest highest fallback : Nat) (arg : List Char) (v : Nat) : Prop :=
  Text.Numeral arg v ∧ lowest ≤ v ∧ v ≤ highest ∨
    (∀ w, Text.Numeral arg w → ¬(lowest ≤ w ∧ w ≤ highest)) ∧ v = fallback

namespace Command

/-- The names of the commands. -/
def names : List String :=
  ["quit", "help", "wpm", "hz", "mode", "swap", "call", "de", "mem", "rep", "play", "load", "save",
   "press", "release", "menu"]

theorem splitWord_eq {cs word rest : List Char} (h : Text.Splits ' ' cs word rest) :
    splitWord cs = (word, rest) := h.splitFirst?_getD

theorem parse_of_spells {line name : String} {arg : List Char} (h : Spells line name arg) :
    parse line = ofName name.toList arg := by
  obtain ⟨command, rest, hline, hsplits, htrims⟩ := h
  unfold parse
  rw [hline]
  simp only [splitWord_eq hsplits, htrims.trimChars_eq]

theorem parse_of_head?_ne {line : String} (h : line.toList.head? ≠ some '\\') :
    parse line = .ask (.send (Text.bytes line ++ [blank])) := by
  unfold parse
  split
  · next heq => rw [heq] at h; exact absurd rfl h
  · rfl

theorem exists_spells {line : String} (h : line.toList.head? = some '\\') :
    ∃ name arg, Spells line name arg := by
  obtain ⟨command, hline⟩ := List.head?_eq_some_iff.mp h
  obtain ⟨name, rest, hsplits⟩ := Text.exists_splits ' ' command
  exact ⟨String.ofList name, Text.trimChars rest, command, rest, hline, by simpa using hsplits,
    Text.trims_trimChars rest⟩

/-- **An argument names the slot** of which its first word is a numeral. -/
theorem index_eq_iff {arg : List Char} {i : Nat} (hi : i < indexMax) :
    index arg = i ↔ Names arg i := by
  obtain ⟨word, rest, hsplits⟩ := Text.exists_splits ' ' arg
  have hword : Names arg i ↔ Text.Numeral word i := by
    refine ⟨?_, fun h => ⟨word, rest, hsplits, h⟩⟩
    rintro ⟨word', rest', hsplits', h⟩
    have hsame := (splitWord_eq hsplits).symm.trans (splitWord_eq hsplits')
    rwa [(Prod.mk.inj hsame).1]
  have hread : Text.number? indexMax word = some i ↔ Text.Numeral word i := by
    rw [Text.number?_eq_some_iff]
    exact and_iff_left (Nat.le_of_lt hi)
  rw [hword, ← hread, index, splitWord_eq hsplits]
  rcases Text.number? indexMax word with _ | j
  · simpa using Nat.ne_of_gt hi
  · simp

/-- A word that is no numeral of a small number names no slot. -/
theorem index_lt_iff {arg : List Char} {n : Nat} (hn : n < indexMax) :
    index arg < n ↔ ∃ i < n, Names arg i := by
  constructor
  · intro h
    exact ⟨index arg, h, (index_eq_iff (Nat.lt_trans h hn)).mp rfl⟩
  · rintro ⟨i, hi, h⟩
    rwa [(index_eq_iff (Nat.lt_trans hi hn)).mpr h]

end Command

/-- **A number that is read and put into range is the one that the argument sets.** -/
theorem Sets.eq_clamped {lowest highest fallback limit v : Nat} {arg : List Char}
    (hlowest : 0 < lowest) (hhighest : highest ≤ limit) (h : Sets lowest highest fallback arg v) :
    (if lowest ≤ (Text.number? limit arg).getD 0 ∧ (Text.number? limit arg).getD 0 ≤ highest then
      (Text.number? limit arg).getD 0 else fallback) = v := by
  rcases h with ⟨hv, hinRange⟩ | ⟨hnone, rfl⟩
  · have hread : Text.number? limit arg = some v :=
      Text.number?_eq_some_iff.mpr ⟨hv, Nat.le_trans hinRange.2 hhighest⟩
    rw [hread, Option.getD_some, if_pos hinRange]
  · rw [if_neg]
    rcases hread : Text.number? limit arg with _ | w
    · rw [Option.getD_none]
      omega
    · exact hnone w (Text.number?_eq_some_iff.mp hread).1

/-! ### Carrying a command out -/

namespace Command

/-- **A name that is none of the commands' is unknown.** -/
theorem ofName_of_not_mem {name : String} (h : name ∉ names) (arg : List Char) :
    ofName name.toList arg = .unknown name.toList := by
  unfold ofName
  rw [String.ofList_toList]
  split
  case h_17 => rfl
  all_goals exact absurd (by decide) h

/-- Only the command to quit is read as one. -/
theorem ofName_eq_quit_iff {name : String} {arg : List Char} :
    ofName name.toList arg = .quit ↔ name = "quit" := by
  unfold ofName
  rw [String.ofList_toList]
  split
  case h_5 =>
    rw [keying]
    split <;> simp
  all_goals simp_all

/-- **An argument that is no mode's name sets no mode.** -/
theorem keying_of_forall_ne {arg : List Char} (h : ∀ m : Mode, m.name.toList ≠ arg) :
    keying arg = .unknownMode arg := by
  have hnone : Mode.ofName? (String.ofList arg) = none := by
    refine List.find?_eq_none.mpr fun m _ hm => h m ?_
    rw [beq_iff_eq.mp hm, String.toList_ofList]
  rw [keying, hnone]

end Command

variable {τ : Type} [Ticker τ] {kb kb' : Keyboard τ} {r : Request}

theorem execute_eq_none_iff {c : Command} : execute kb c = none ↔ c = .quit := by
  cases c <;> simp [execute]

/-- **A request is refused just if its number is not accepted**, and then nothing changes. -/
theorem execute_ask_eq_refusal_iff {accepted : Prop} [Decidable accepted] {refusal : Refusal}
    (h : kb.handle r = kb.settle (if accepted then .ok kb' else .error refusal)) :
    execute kb (.ask r) = some (refusal.text ++ "\n", kb) ↔ ¬accepted := by
  have hsaid : "" ≠ refusal.text ++ "\n" := by cases refusal <;> decide
  rw [execute, h]
  by_cases haccepted : accepted
  · simp [haccepted, Keyboard.settle, remark, hsaid]
  · simp [haccepted, Keyboard.settle, remark]

/-- A request for a number below a bound is refused just if its argument names no such number. -/
theorem respondTo_indexed_iff (refusal : Refusal) {line name : String} {arg : List Char} {n : Nat}
    (h : Spells line name arg) (hname : Command.ofName name.toList arg = .ask r)
    (hn : n < Command.indexMax)
    (hr : kb.handle r = kb.settle (if Command.index arg < n then .ok kb' else .error refusal)) :
    respondTo kb line = some (refusal.text ++ "\n", kb) ↔ ∀ i, Names arg i → n ≤ i := by
  rw [respondTo, Command.parse_of_spells h, hname, execute_ask_eq_refusal_iff hr,
    Command.index_lt_iff hn]
  simp only [not_exists, not_and', Nat.not_lt]

/-- **A command about a message is refused just if it names no slot.** -/
theorem respondTo_slot_iff {line name : String} {arg : List Char} (h : Spells line name arg)
    (hname : name ∈ ["mem", "rep", "play"]) :
    respondTo kb line = some ("K02: memory slot out of range\n", kb) ↔
      ∀ i, Names arg i → 10 ≤ i := by
  have hn : 10 < Command.indexMax := by decide
  simp only [List.mem_cons, List.not_mem_nil, or_false] at hname
  rcases hname with rfl | rfl | rfl
  · exact respondTo_indexed_iff .slotOutOfRange h rfl hn rfl
  · exact respondTo_indexed_iff .slotOutOfRange h rfl hn rfl
  · exact respondTo_indexed_iff .slotOutOfRange h rfl hn rfl

/-- **A command about a preset is refused just if it names none.** -/
theorem respondTo_preset_iff {line name : String} {arg : List Char} (h : Spells line name arg)
    (hname : name ∈ ["load", "save"]) :
    respondTo kb line = some ("K03: preset out of range\n", kb) ↔ ∀ i, Names arg i → 10 ≤ i := by
  have hn : 10 < Command.indexMax := by decide
  simp only [List.mem_cons, List.not_mem_nil, or_false] at hname
  rcases hname with rfl | rfl
  · exact respondTo_indexed_iff .presetOutOfRange h rfl hn rfl
  · exact respondTo_indexed_iff .presetOutOfRange h rfl hn rfl

/-- **The operator leaves with the command to quit**, and with no other line. -/
theorem respondTo_eq_none_iff {line : String} :
    respondTo kb line = none ↔ ∃ arg, Spells line "quit" arg := by
  rw [respondTo, execute_eq_none_iff]
  constructor
  · intro hquit
    by_cases hline : line.toList.head? = some '\\'
    · obtain ⟨name, arg, h⟩ := Command.exists_spells hline
      rw [Command.parse_of_spells h, Command.ofName_eq_quit_iff] at hquit
      exact ⟨arg, hquit ▸ h⟩
    · rw [Command.parse_of_head?_ne hline] at hquit
      cases hquit
  · rintro ⟨arg, h⟩
    rw [Command.parse_of_spells h, Command.ofName_eq_quit_iff]

/-- **A line that is no command is sent**, with a blank after it. -/
theorem respondTo_of_head?_ne {line : String} (h : line.toList.head? ≠ some '\\') :
    respondTo kb line = some ("", kb.sendBytes (Text.bytes line ++ [Command.blank])) := by
  rw [respondTo, Command.parse_of_head?_ne h]
  rfl

/-- **A mode that does not exist is shown to the operator.** -/
theorem respondTo_unknownMode {line : String} {arg : List Char} (h : Spells line "mode" arg)
    (harg : ∀ m : Mode, m.name.toList ≠ arg) :
    respondTo kb line = some ("unknown mode " ++ Text.quoteText arg ++ "\n", kb) := by
  have hmode : Command.ofName "mode".toList arg = Command.keying arg := rfl
  rw [respondTo, Command.parse_of_spells h, hmode, Command.keying_of_forall_ne harg]
  rfl

/-- **A command that does not exist is shown to the operator.** -/
theorem respondTo_unknown {line name : String} {arg : List Char} (h : Spells line name arg)
    (hname : name ∉ Command.names) :
    respondTo kb line =
      some ("unknown command " ++ Text.quoteText name.toList ++ ", try \\help\n", kb) := by
  rw [respondTo, Command.parse_of_spells h, Command.ofName_of_not_mem hname]
  rfl

/-! ### Numbers in range -/

/-- A reload puts the speed in the settings into force. -/
theorem speed_reload (kb : Keyboard τ) :
    kb.reload.speed = .ofWpm kb.settings.current.corrected.wpm := by
  have hleft (k : Keyer) (s : Symbol) : (k.withLeft s).speed = k.speed := by
    rw [Keyer.withLeft]
    split <;> rfl
  rw [Keyboard.reload, Keyboard.retime]
  split <;> exact hleft _ _

/-- Every argument sets a number. -/
theorem exists_sets (lowest highest fallback : Nat) (arg : List Char) :
    ∃ v, Sets lowest highest fallback arg v := by
  by_cases h : ∃ w, Text.Numeral arg w ∧ lowest ≤ w ∧ w ≤ highest
  · obtain ⟨w, hw⟩ := h
    exact ⟨w, Or.inl hw⟩
  · exact ⟨fallback, Or.inr ⟨fun w hw hinRange => h ⟨w, hw, hinRange⟩, rfl⟩⟩

/-- **The speed is what the command says**, for the keyer and in the settings. -/
theorem respondTo_wpm {line : String} {arg : List Char} {v : Nat} (h : Spells line "wpm" arg)
    (hv : Sets Speed.lowest Speed.highest Speed.fallback arg v) :
    ∃ kb' : Keyboard τ, respondTo kb line = some (v.repr ++ " wpm\n", kb') ∧ kb'.speed.wpm = v ∧
      kb'.settings = { kb.settings with current := { kb.settings.current with wpm := v } } := by
  have hclamp : Speed.clamp ((Text.number? 255 arg).getD 0) = v :=
    hv.eq_clamped (by decide) (by decide)
  have hagain : Speed.clamp v = v := if_pos (hclamp ▸ Speed.clamp_inRange _)
  let kb' := kb.tune (.wpm ((Text.number? 255 arg).getD 0))
  have hsettings : kb'.settings =
      { kb.settings with current := { kb.settings.current with wpm := v } } := by
    rw [← hclamp]
    exact Keyboard.settings_reload _
  have hspeed : kb'.speed.wpm = v := by
    have hreload : kb'.speed.wpm = Speed.clamp (Speed.clamp kb'.settings.current.wpm) := by
      rw [hsettings, ← hclamp]
      exact congrArg Speed.wpm (speed_reload _)
    rw [hreload, hsettings, hagain, hagain]
  refine ⟨kb', ?_, hspeed, hsettings⟩
  rw [respondTo, Command.parse_of_spells h, ← hspeed]
  rfl

/-- **The pitch is what the command says**, at the sidetone and in the settings. -/
theorem respondTo_hz {line : String} {arg : List Char} {v : Nat} (h : Spells line "hz" arg)
    (hv : Sets Pitch.lowest Pitch.highest Pitch.standard arg v) :
    ∃ kb' : Keyboard τ, respondTo kb line = some (v.repr ++ " Hz\n", kb') ∧
      kb'.outbox.toList = kb.outbox.toList ++ [.tone v] ∧
      kb'.settings = { kb.settings with current := { kb.settings.current with hz := v } } := by
  have hclamp : Pitch.clamp ((Text.number? 65535 arg).getD 0) = v :=
    hv.eq_clamped (by decide) (by decide)
  have hagain : Pitch.clamp v = v := if_pos (hclamp ▸ Pitch.clamp_inRange _)
  let kb' := kb.tune (.hz ((Text.number? 65535 arg).getD 0))
  have hsettings : kb'.settings =
      { kb.settings with current := { kb.settings.current with hz := v } } := by
    rw [← hclamp]
    exact Keyboard.settings_reload _
  have htone : kb'.outbox.toList = kb.outbox.toList ++ [.tone v] := by
    rw [← hagain, ← hclamp]
    exact (Keyboard.does_reload _).outbox
  refine ⟨kb', ?_, htone, hsettings⟩
  have hcurrent : v = kb'.settings.current.hz := by rw [hsettings]
  rw [respondTo, Command.parse_of_spells h, hcurrent]
  rfl

/-! ### Any line -/

/-- **What any line does to any keyboard.** The operator leaves with the command to quit only. A
line without a backslash is queued with a blank after it, and does nothing else. A command that
names no slot, no preset, no mode, or is no command at all, is answered and does nothing; speed and
pitch are set to what is asked for if it is in range, and to their fallback otherwise. -/
theorem respondTo_line (kb : Keyboard τ) (line : String) :
    (respondTo kb line = none ↔ ∃ arg, Spells line "quit" arg) ∧
    (line.toList.head? ≠ some '\\' →
      respondTo kb line = some ("", { kb with queues := { kb.queues with
        chars := kb.queues.chars.pushAll (Text.bytes line ++ [0x20]) } }) ∧
      (kb.queues.chars.WellFormed →
        (kb.queues.chars.pushAll (Text.bytes line ++ [0x20])).toList =
          Ring.newest 128 (kb.queues.chars.toList ++ (Text.bytes line ++ [0x20])))) ∧
    (line.toList.head? = some '\\' → ∃ name arg, Spells line name arg) ∧
    ∀ name arg, Spells line name arg →
      (name ∈ ["mem", "rep", "play"] →
        (respondTo kb line = some ("K02: memory slot out of range\n", kb) ↔
          ∀ i, Names arg i → 10 ≤ i)) ∧
      (name ∈ ["load", "save"] →
        (respondTo kb line = some ("K03: preset out of range\n", kb) ↔
          ∀ i, Names arg i → 10 ≤ i)) ∧
      (name = "mode" → (∀ m : Mode, m.name.toList ≠ arg) →
        respondTo kb line = some ("unknown mode " ++ Text.quoteText arg ++ "\n", kb)) ∧
      (name ∉ Command.names →
        respondTo kb line =
          some ("unknown command " ++ Text.quoteText name.toList ++ ", try \\help\n", kb)) ∧
      (name = "wpm" → (∃ v, Sets 3 99 13 arg v) ∧ ∀ v, Sets 3 99 13 arg v →
        ∃ kb' : Keyboard τ, respondTo kb line = some (v.repr ++ " wpm\n", kb') ∧
          kb'.speed.wpm = v ∧ kb'.settings =
            { kb.settings with current := { kb.settings.current with wpm := v } }) ∧
      (name = "hz" → (∃ v, Sets 80 8000 220 arg v) ∧ ∀ v, Sets 80 8000 220 arg v →
        ∃ kb' : Keyboard τ, respondTo kb line = some (v.repr ++ " Hz\n", kb') ∧
          kb'.outbox.toList = kb.outbox.toList ++ [.tone v] ∧ kb'.settings =
            { kb.settings with current := { kb.settings.current with hz := v } }) := by
  refine ⟨respondTo_eq_none_iff, fun hline => ⟨respondTo_of_head?_ne hline, fun hchars =>
    Ring.toList_pushAll hchars _⟩, Command.exists_spells, fun name arg h =>
      ⟨respondTo_slot_iff h, respondTo_preset_iff h, ?_, respondTo_unknown h, ?_, ?_⟩⟩
  · rintro rfl hmode
    exact respondTo_unknownMode h hmode
  · rintro rfl
    exact ⟨exists_sets 3 99 13 arg, fun v => respondTo_wpm h⟩
  · rintro rfl
    exact ⟨exists_sets 80 8000 220 arg, fun v => respondTo_hz h⟩

/-- Three lines typed at a fresh keyboard: one that is sent, one that names a message there is no
slot for, and one with a number that a sign, zeros and blanks stand around. -/
theorem respondTo_line_fresh :
    let kb := Keyboard.fresh PolledTicker.free
    (respondTo kb "73").map (fun answer => answer.2.queues.chars.toList) =
        some [0x37, 0x33, 0x20] ∧
      respondTo kb "\\mem 12 cq" = some ("K02: memory slot out of range\n", kb) ∧
      ∃ kb', respondTo kb "\\wpm  +020 " = some ("20 wpm\n", kb') ∧ kb'.speed.wpm = 20 := by
  intro kb
  have hmem : Spells "\\mem 12 cq" "mem" "12 cq".toList :=
    ⟨"mem 12 cq".toList, "12 cq".toList, by decide, ⟨by decide, Or.inl (by decide)⟩,
      Text.trimChars_eq_iff.mp (by decide)⟩
  have hwpm : Spells "\\wpm  +020 " "wpm" "+020".toList :=
    ⟨"wpm  +020 ".toList, " +020 ".toList, by decide, ⟨by decide, Or.inl (by decide)⟩,
      Text.trimChars_eq_iff.mp (by decide)⟩
  have hslot : ∀ i, Names "12 cq".toList i → 10 ≤ i := by
    intro i hi
    by_contra hlt
    have hindex := (Command.index_lt_iff (by decide)).mpr ⟨i, Nat.lt_of_not_le hlt, hi⟩
    exact absurd hindex (by decide)
  have hsets : Sets 3 99 13 "+020".toList 20 :=
    Or.inl ⟨(Text.number?_eq_some_iff.mp (by decide : Text.number? 255 _ = some 20)).1,
      by decide, by decide⟩
  have hspeed := ((respondTo_line kb "\\wpm  +020 ").2.2.2 _ _ hwpm).2.2.2.2.1 rfl
  obtain ⟨kb', hsaid, hset, -⟩ := hspeed.2 20 hsets
  refine ⟨?_, (((respondTo_line kb "\\mem 12 cq").2.2.2 _ _ hmem).1 (by decide)).mpr hslot,
    kb', hsaid, hset⟩
  rw [((respondTo_line kb "73").2.1 (by decide)).1]
  rfl

end MorseKeyboard.Console
