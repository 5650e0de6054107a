import MorseKeyboard.Proofs.Keyer.Presses

/-!
# What a run of the keyer spells

A letter space is owed after every stretch, heard or not. So a press that is lost is not merely
silent: a space follows it after a pause, and if no letter was begun before, **the space is heard as
a blank** (`MorseKeyboard.Keyer.lost_press`).

If every stretch of a run is heard, this cannot happen. At rest a space is owed to a letter only
(`MorseKeyboard.Keyer.Spells`), so each space that is keyed ends a letter of one element at least
(`MorseKeyboard.Spelled`, `MorseKeyboard.Keyer.exists_spells`). Such a stream does not begin with a
space and has no two of them in a row, and a decoder that listens to it hears no blank
(`MorseKeyboard.Spelled.blank_not_mem_hearAll`), since no letter is read as one.
-/

namespace MorseKeyboard

/-! ### Streams of letters -/

namespace Decoder

/-- No procedural signal has a blank in its text. -/
theorem blank_not_mem_signalText : ∀ signal ∈ Code.prosigns, 0x20 ∉ signalText signal := by
  decide

/-- **A letter is never heard as a blank.** -/
theorem blank_not_mem_reading (run : List Symbol) : 0x20 ∉ reading run := by
  rw [reading]
  split
  · exact List.not_mem_nil
  rcases hletter : Code.letter? (Pattern.ofElements run) with _ | byte
  · rcases hsignal : Code.prosign? (Pattern.ofElements run) with _ | signal
    · exact List.not_mem_nil
    · exact blank_not_mem_signalText signal (List.mem_of_find?_eq_some hsignal)
  · intro hblank
    rw [← List.mem_singleton.mp hblank] at hletter
    exact Code.letter?_ne_blank _ hletter

end Decoder

/-- **A stream that is spelled**: its spaces end letters of one element at least. What has come
since the last of them is the letter that is not over yet. -/
inductive Spelled : List Symbol → List Symbol → Prop
  | nil : Spelled [] []
  | element {stream letter : List Symbol} {s : Symbol} (h : Spelled stream letter)
      (hs : s.isElement = true) : Spelled (stream ++ [s]) (letter ++ [s])
  | space {stream letter : List Symbol} (h : Spelled stream letter) (hne : letter ≠ []) :
      Spelled (stream ++ [.space]) []

namespace Spelled

variable {stream letter : List Symbol}

/-- The letter that is not over yet has elements only, and the stream ends with it. -/
theorem letter_suffix (h : Spelled stream letter) :
    (∀ s ∈ letter, s.isElement = true) ∧ letter <:+ stream := by
  induction h with
  | nil => exact ⟨by rintro s ⟨⟩, List.suffix_rfl⟩
  | element _ hs ih =>
    refine ⟨?_, (List.suffix_append_inj_of_length_eq rfl).mpr ⟨ih.2, rfl⟩⟩
    intro r hr
    rcases List.mem_append.mp hr with hr | hr
    · exact ih.1 r hr
    · obtain rfl := List.mem_singleton.mp hr
      exact hs
  | space => exact ⟨by rintro s ⟨⟩, List.nil_suffix⟩

/-- **A spelled stream does not begin with a space.** -/
theorem head?_ne_space (h : Spelled stream letter) : stream.head? ≠ some .space := by
  induction h with
  | nil => simp
  | @element stream letter s _ hs ih =>
    rw [List.head?_append]
    rcases stream with _ | ⟨r, stream⟩
    · rintro ⟨⟩
      cases hs
    · exact ih
  | @space stream letter h hne ih =>
    rw [List.head?_append]
    rcases stream with _ | ⟨r, stream⟩
    · exact absurd (List.suffix_nil.mp h.letter_suffix.2) hne
    · exact ih

/-- **A spelled stream has no two spaces in a row.** -/
theorem not_spaces_infix (h : Spelled stream letter) : ¬[.space, .space] <:+: stream := by
  induction h with
  | nil => exact fun h => List.cons_ne_nil _ _ (List.infix_nil.mp h)
  | @element stream letter s _ hs ih =>
    intro hspaces
    rcases List.infix_concat_iff.mp hspaces with hsuffix | hinfix
    · have hlast : [.space] ++ [.space] <:+ stream ++ [s] := hsuffix
      have hlength : [Symbol.space].length = [s].length := rfl
      cases ((List.suffix_append_inj_of_length_eq hlength).mp hlast).2
      cases hs
    · exact ih hinfix
  | @space stream letter h hne ih =>
    intro hspaces
    rcases List.infix_concat_iff.mp hspaces with hsuffix | hinfix
    -- the letter that ends here has an element before the space
    · have hlast : [.space] ++ [.space] <:+ stream ++ [.space] := hsuffix
      have hspace := ((List.suffix_append_inj_of_length_eq rfl).mp hlast).1
      obtain ⟨helements, hletter⟩ := h.letter_suffix
      have hmem : .space ∈ letter := by
        rcases List.suffix_or_suffix_of_suffix hspace hletter with hshort | hlong
        · exact hshort.subset List.mem_cons_self
        · have hlength := hlong.length_le
          have hpos := List.length_pos_iff.mpr hne
          rw [List.length_singleton] at hlength
          exact hlong.eq_of_length (Nat.le_antisymm hlength hpos) ▸ List.mem_cons_self
      cases helements _ hmem
    · exact ih hinfix

/-- **What is heard of a spelled stream has no blank in it.** -/
theorem blank_not_mem_hearAll (h : Spelled stream letter) :
    0x20 ∉ (Decoder.fresh.hearAll stream).1 ∧
      (Decoder.fresh.hearAll stream).2 = (Decoder.fresh.hearAll letter).2 := by
  induction h with
  | nil => exact ⟨List.not_mem_nil, rfl⟩
  | @element stream letter s _ hs ih =>
    rw [Decoder.hearAll_append, Decoder.hearAll_append, ih.2, Decoder.hearAll_cons,
      Decoder.hear_element _ hs]
    simpa using ih.1
  | @space stream letter h hne ih =>
    have hletter := Decoder.hearAll_reading h.letter_suffix.1 hne
    rw [Decoder.hearAll_append, ← ih.2] at hletter
    obtain ⟨htext, hfresh⟩ := Prod.mk.inj hletter
    rw [Decoder.hearAll_append]
    refine ⟨?_, hfresh⟩
    intro hblank
    rcases List.mem_append.mp hblank with hblank | hblank
    · exact ih.1 hblank
    -- what the space completes is a letter
    · exact Decoder.blank_not_mem_reading letter (htext ▸ List.mem_append_right _ hblank)

/-- Elements may be added one by one. -/
theorem keyed (h : Spelled stream letter) {keyed : Option Symbol}
    (hkeyed : ∀ s, keyed = some s → s.isElement = true) :
    Spelled (stream ++ keyed.toList) (letter ++ keyed.toList) := by
  rcases keyed with _ | s
  · rwa [Option.toList_none, List.append_nil, List.append_nil]
  · exact h.element (hkeyed s rfl)

end Spelled

namespace Keyer

/-! ### Runs -/

variable {k : Keyer} {inputs : List Input} {letter : List Symbol}

/-- **A run that spells**: at rest a space is owed to a letter only, and in a stretch all that was
keyed belongs to the letter. -/
structure Spells (k : Keyer) (inputs : List Input) (letter : List Symbol) : Prop where
  spelled : Spelled (k.keyed inputs) letter
  owed : (k.after inputs).state = .idle → (k.after inputs).spaceOwed = true → letter ≠ []
  engaged : (k.after inputs).state ≠ .idle → ∃ before part, inputs = before ++ part ∧
    (k.after before).Engaged part ∧ ((k.after before).keyed part ≠ [] → letter ≠ [])

namespace Spells

/-- An input after which the keyer is at rest. -/
theorem of_rest {i : Input} {r : Option Symbol × Keyer} (hstep : (k.after inputs).step i = r)
    (hidle : r.2.state = .idle) (hspelled : Spelled (k.keyed inputs ++ r.1.toList) letter)
    (howed : r.2.spaceOwed = true → letter ≠ []) : k.Spells (inputs ++ [i]) letter where
  spelled := by
    rw [keyed_concat, hstep]
    exact hspelled
  owed := by
    rw [after_concat, hstep]
    exact fun _ => howed
  engaged := by
    rw [after_concat, hstep]
    exact fun hne => absurd hidle hne

/-- **An input at rest**: the pause goes on or ends the letter, or a stretch begins. -/
theorem concat_of_idle (h : k.Spells inputs letter) (hidle : (k.after inputs).state = .idle)
    (i : Input) : ∃ letter, k.Spells (inputs ++ [i]) letter := by
  by_cases hne : ((k.after inputs).step i).2.state = .idle
  · have hsame : Spelled (k.keyed inputs ++ []) letter := by
      rw [List.append_nil]
      exact h.spelled
    have hr := response_step (k.after inputs) i
    generalize hstep : (k.after inputs).step i = r at hr hne
    cases hr with
    | rest | pause | refuse => exact ⟨letter, of_rest hstep hne hsame (h.owed hidle)⟩
    | space _ howed =>
      exact ⟨[], of_rest hstep hne (h.spelled.space (h.owed hidle howed)) (by rintro ⟨⟩)⟩
    | hold hs | sound hs | releaseLast hs | pressSecond hs =>
      exact absurd (hs.symm.trans hidle) (State.holding_ne_idle _)
    | squeeze hs | alternate hs | releaseOne hs => exact absurd (hs.symm.trans hidle) (by decide)
    | pressFirst => exact absurd hne (State.holding_ne_idle _)
  · obtain ⟨p, rfl, hstep, -⟩ := press_of_leave hidle hne
    refine ⟨letter, ?_, ?_, fun _ => ⟨inputs, _, rfl, .leave hidle hne, ?_⟩⟩
    · rw [keyed_concat, hstep]
      simpa using h.spelled
    · rw [after_concat]
      exact fun hc => absurd hc hne
    · rw [keyed_cons, hstep]
      exact fun hnil => absurd rfl hnil

/-- **An input in a stretch**: it goes on, or it ends, and then it has keyed an element. -/
theorem concat_of_engaged (h : k.Spells inputs letter) (hsound : k.Sound)
    (hne : (k.after inputs).state ≠ .idle) (i : Input)
    (hheard : ∀ before part, inputs = before ++ part → (k.after before).Stretch part i →
      (k.after before).keyed (part ++ [i]) ≠ []) :
    ∃ letter, k.Spells (inputs ++ [i]) letter := by
  obtain ⟨before, part, rfl, hengaged, hpart⟩ := h.engaged hne
  have hkeyed : ∀ s, ((k.after (before ++ part)).step i).1 = some s → s.isElement = true :=
    fun s => (hsound.after _).isElement_keyed hne
  have hletter : (k.after before).keyed (part ++ [i]) ≠ [] →
      letter ++ ((k.after (before ++ part)).step i).1.toList ≠ [] := by
    rw [keyed_concat, ← after_append]
    intro hsome hnil
    obtain ⟨hnone, hlast⟩ := List.append_eq_nil_iff.mp hnil
    rw [hlast, List.append_nil] at hsome
    exact hpart hsome hnone
  have hafter : k.after (before ++ part ++ [i]) = (k.after before).after (part ++ [i]) := by
    rw [List.append_assoc, after_append]
  refine ⟨letter ++ ((k.after (before ++ part)).step i).1.toList, ?_, ?_, ?_⟩
  · rw [keyed_concat]
    exact h.spelled.keyed hkeyed
  · intro hidle _
    rw [hafter] at hidle
    exact hletter (hheard before part rfl ⟨hengaged, hidle⟩)
  · intro hne'
    rw [hafter] at hne'
    exact ⟨before, part ++ [i], List.append_assoc _ _ _, hengaged.stay hne', hletter⟩

end Spells

/-- **A run of which every stretch is heard spells letters.** -/
theorem exists_spells (hsound : k.Sound) (hidle : k.state = .idle) (howed : k.spaceOwed = false)
    (hheard : ∀ before part last, before ++ part ++ [last] <+: inputs →
      (k.after before).Stretch part last → (k.after before).keyed (part ++ [last]) ≠ []) :
    ∃ letter, k.Spells inputs letter := by
  induction inputs using List.reverseRecOn with
  | nil =>
    refine ⟨[], .nil, ?_, fun hne => absurd hidle hne⟩
    rw [after_nil, howed]
    rintro - ⟨⟩
  | append_singleton inputs i ih =>
    obtain ⟨letter, hspells⟩ := ih fun before part last hbegin =>
      hheard before part last (hbegin.trans (List.prefix_append _ _))
    by_cases hrest : (k.after inputs).state = .idle
    · exact hspells.concat_of_idle hrest i
    · refine hspells.concat_of_engaged hsound hrest i ?_
      rintro before part rfl hstretch
      exact hheard before part i List.prefix_rfl hstretch

/-- **Which presses are heard.** A keyer that nobody has touched, of any mode and speed and with
either element on the left paddle, is given edges and milliseconds in any order. A stretch from
rest to rest keys an element exactly if it is audible: a millisecond passes right after one of its
presses, or more than two units pass in it without an edge, or in mode iambic B two of its presses
follow each other. If all stretches of a run are audible, then what is keyed does not begin with a
space and has no two spaces in a row, and a decoder that listens hears no blank. -/
theorem presses_heard (speed : Speed) (mode : Mode) (left : Symbol) (inputs : List Input) :
    let k := prepared speed mode left
    (∀ before part last, (k.after before).Stretch part last →
      ((∃ s ∈ (k.after before).keyed (part ++ [last]), s.isElement = true) ↔
        Audible mode speed.dit ((k.after before).heeded (part ++ [last])))) ∧
    ((∀ before part last, before ++ part ++ [last] <+: inputs →
        (k.after before).Stretch part last →
        Audible mode speed.dit ((k.after before).heeded (part ++ [last]))) →
      (k.keyed inputs).head? ≠ some .space ∧ ¬[.space, .space] <:+: k.keyed inputs ∧
        0x20 ∉ (Decoder.fresh.hearAll (k.keyed inputs)).1) := by
  intro k
  have hsound : k.Sound := .prepared speed mode left
  obtain ⟨hidle, howed, hmode, hspeed⟩ := rest_prepared speed mode left
  have hstretch (before part last) (h : (k.after before).Stretch part last) :
      (k.after before).keyed (part ++ [last]) ≠ [] ↔
        Audible mode speed.dit ((k.after before).heeded (part ++ [last])) := by
    rw [h.keyed_iff (hsound.after before), mode_after, speed_after, hmode, hspeed]
  refine ⟨?_, ?_⟩
  · intro before part last h
    rw [← h.keyed_ne_nil_iff (hsound.after before), hstretch before part last h]
  · intro haudible
    obtain ⟨letter, hspells⟩ := exists_spells hsound hidle howed
      fun before part last hbegin h => (hstretch before part last h).mpr
        (haudible before part last hbegin h)
    exact ⟨hspells.spelled.head?_ne_space, hspells.spelled.not_spaces_infix,
      hspells.spelled.blank_not_mem_hearAll.1⟩

/-- The left paddle is tapped for a millisecond. -/
def tap : List Input := [.edge (.press .left), .tick, .edge (.release .left)]

theorem stretch_tap : (prepared fastest .iambicA .dit).Stretch [.edge (.press .left), .tick]
    (.edge (.release .left)) := by
  have hpress : (prepared fastest .iambicA .dit).Engaged [.edge (.press .left)] :=
    .leave (by decide) (by decide)
  exact ⟨hpress.stay (by decide), by decide⟩

/-- In the course of the tap the keyer is at rest before it and after it only. -/
theorem eq_of_prefix_tap {run : List Input} (hbegin : run <+: tap)
    (hidle : ((prepared fastest .iambicA .dit).after run).state = .idle) :
    run = [] ∨ run = tap := by
  rcases run with _ | ⟨a, _ | ⟨b, _ | ⟨c, rest⟩⟩⟩
  · exact Or.inl rfl
  · obtain ⟨rfl, -⟩ := List.cons_prefix_cons.mp hbegin
    exact absurd hidle (by decide)
  · obtain ⟨rfl, htail⟩ := List.cons_prefix_cons.mp hbegin
    obtain ⟨rfl, -⟩ := List.cons_prefix_cons.mp htail
    exact absurd hidle (by decide)
  · have hlength := hbegin.length_le
    exact Or.inr (hbegin.eq_of_length (Nat.le_antisymm hlength (Nat.le_add_left 3 _)))

/-- The tap is heard as a dit, and no blank is. -/
theorem presses_heard_tap :
    (∃ s ∈ (prepared fastest .iambicA .dit).keyed tap, s.isElement = true) ∧
      0x20 ∉ (Decoder.fresh.hearAll ((prepared fastest .iambicA .dit).keyed tap)).1 := by
  obtain ⟨hiff, hrun⟩ := presses_heard fastest .iambicA .dit tap
  have haudible : Audible .iambicA fastest.dit ((prepared fastest .iambicA .dit).heeded tap) :=
    Or.inl (Or.inl ⟨.left, [], [.edge (.release .left)], by decide⟩)
  refine ⟨(hiff [] _ _ stretch_tap).mpr haudible, (hrun ?_).2.2⟩
  -- the tap is the only stretch
  intro before part last hbegin h
  have hrests :
      ((prepared fastest .iambicA .dit).after (before ++ part ++ [last])).state = .idle := by
    rw [List.append_assoc, after_append]
    exact h.rests
  have hbefore : before <+: tap := (List.prefix_append _ _).trans (List.append_assoc _ _ _ ▸ hbegin)
  rcases eq_of_prefix_tap hbegin hrests with hnil | htap
  · cases (List.append_eq_nil_iff.mp hnil).2
  rcases eq_of_prefix_tap hbefore h.engaged.idle with rfl | rfl
  · rw [List.nil_append] at htap
    rw [htap]
    exact haudible
  · have hlength := congrArg List.length htap
    simp at hlength

/-- **A press that is lost.** The left paddle goes down and up again within a millisecond. Nothing
is keyed but the space of a letter that was never begun, and it is heard as a blank. -/
theorem lost_press :
    let k := prepared .standard .bug .dit
    k.Stretch [.edge (.press .left)] (.edge (.release .left)) ∧
      (¬∃ s ∈ k.keyed [.edge (.press .left), .edge (.release .left)], s.isElement = true) ∧
      k.keyed (.edge (.press .left) :: .edge (.release .left) :: List.replicate 121 .tick) =
        [.space] ∧
      (Decoder.fresh.hearAll [.space]).1 = [0x20] := by
  intro k
  exact ⟨⟨.leave (by decide) (by decide), by decide⟩, by decide, by decide +kernel, by decide⟩

end Keyer

end MorseKeyboard
