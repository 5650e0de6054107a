import MorseKeyboard.Proofs.Cutting
import MorseKeyboard.Proofs.Keyboard.Events
import MorseKeyboard.Proofs.Repeating
import MorseKeyboard.Proofs.Settings

/-!
# Texts that are stored and played

There are eleven places for a text, the slots of the messages and the callsign, each with its own
room (`MorseKeyboard.Settings.Place`). A text that is stored is cut to the characters that fit and
stays in its place until another one is stored there. So a place holds **the text that was stored in
it last, as it was cut** (`MorseKeyboard.Keyboard.text_after`), whatever else happened to the
keyboard in between, and whether it was stored by a request or by the owner of the settings. To play
a place is to queue its bytes as they are (`MorseKeyboard.Keyboard.stored_played`).

All that happens to the settings of a keyboard is a change at most for each event
(`MorseKeyboard.Keyboard.settings_undergo`), since a request that is refused asks for a change that
would have no effect. What a change stores is told place by place
(`MorseKeyboard.Settings.text_apply`).
-/

namespace MorseKeyboard

/-! ### Places -/

namespace Settings

/-- A place for a text. -/
inductive Place where
  | message (slot : Fin messageSlots)
  | callsign
  deriving DecidableEq, Repr

namespace Place

/-- The most bytes of a text in a place. -/
def room : Place → Nat
  | message _ => messageBytes
  | callsign => callsignBytes

/-- The change that stores a text in a place. -/
def change (text : String) : Place → Change
  | message slot => .message slot text
  | callsign => .callsign text

/-- The request that stores a text in a place. -/
def store (text : String) : Place → Request
  | message slot => .storeMessage slot text
  | callsign => .storeCallsign text

/-- The request that plays the text in a place. -/
def play : Place → Request
  | message slot => .play slot
  | callsign => .playCallsign

end Place

/-- The text in a place. -/
def text (s : Settings) : Place → String
  | .message slot => s.message slot
  | .callsign => s.callsign

/-- The text that a change stores in a place, if it does, as it is given. -/
def Change.stored? : Place → Change → Option String
  | .message slot, .message i text => if i = slot then some text else none
  | .callsign, .callsign text => some text
  | _, _ => none

/-- What is stored in a place is stored there and nowhere else. -/
theorem Place.stored?_change (place other : Place) (text : String) :
    (place.change text).stored? other = if place = other then some text else none := by
  cases place with
  | message slot =>
    cases other with
    | message i =>
      rw [Place.change, Change.stored?]
      exact if_congr (by rw [Place.message.injEq, Fin.val_inj]) rfl rfl
    | callsign => rfl
  | callsign => cases other <;> rfl

/-- **A place holds what a change stores in it**, cut to its room, or else what it held before. -/
theorem text_apply (s : Settings) (c : Change) (place : Place) :
    (s.apply c).text place = ((c.stored? place).map (Text.cut place.room)).getD (s.text place) := by
  cases place with
  | message slot =>
    have hstored : c.message? slot = (c.stored? (.message slot)).map (Text.cut messageBytes) := by
      cases c with
      | message i text =>
        rw [Change.message?, Change.stored?]
        by_cases hi : i = slot
        · rw [if_pos ⟨hi, hi ▸ slot.isLt⟩, if_pos hi, Option.map_some]
        · rw [if_neg fun h => hi h.1, if_neg hi, Option.map_none]
      | _ => rfl
    show (s.apply c).message slot = _
    rw [message_apply, hstored]
    rfl
  | callsign =>
    cases c with
    | callsign text => rfl
    | wpm | hz | mode | message | interval | preset | current => rfl
    | left | store =>
      show (s.apply _).callsign = s.callsign
      rw [apply]
      split <;> rfl
    | «recall» i =>
      show (s.apply (.recall i)).callsign = s.callsign
      rw [apply]
      split <;> rfl

end Settings

namespace Keyboard

open Settings (Place)

variable {τ : Type}

/-! ### The change of an event -/

/-- The change of the settings that a request asks for, if it does. -/
def requested? (kb : Keyboard τ) : Request → Option Settings.Change
  | .storeMessage slot text => some (.message slot text)
  | .repeatMessage slot minutes => some (.interval slot minutes)
  | .storeCallsign text => some (.callsign text)
  | .tune t => some t.toChange
  | .exchangePaddles => some (.left kb.inForce.left.opposite)
  | .recallPreset index => some (.recall index)
  | .storePreset index => some (.store index)
  | _ => none

/-- The change of the settings in an event, if there is one. -/
def changeIn? (kb : Keyboard τ) : Event τ → Option Settings.Change
  | .act (.operate (.request r)) => kb.requested? r
  | .act (.operate (.changeSettings c)) => some c
  | _ => none

/-- The text that an event stores in a place, if it does, as it is given. -/
def Event.stored? (place : Place) : Event τ → Option String
  | .act (.operate (.request (.storeMessage slot text))) =>
    (Settings.Change.message slot text).stored? place
  | .act (.operate (.request (.storeCallsign text))) =>
    (Settings.Change.callsign text).stored? place
  | .act (.operate (.changeSettings c)) => c.stored? place
  | _ => none

/-- What is stored in an event is what the change of the settings stores. -/
theorem stored?_changeIn (kb : Keyboard τ) (e : Event τ) (place : Place) :
    (kb.changeIn? e).bind (Settings.Change.stored? place) = e.stored? place := by
  match e with
  | .act (.operate (.request r)) =>
    cases r with
    | tune t => cases t <;> cases place <;> rfl
    | repeatMessage | exchangePaddles | recallPreset | storePreset => cases place <;> rfl
    | _ => rfl
  | .act (.operate (.changeSettings c)) => rfl
  | .act (.operate .tick) | .act (.operate (.makeUp _)) | .act (.operate (.queueEdge _))
  | .act (.operate (.register _ _)) | .act (.operate (.unregister _))
  | .act (.operate .readKeystroke) | .act (.operate .readMenu) | .act (.operate .takeSignals)
  | .act (.reschedule _) | .share _ _ _ => rfl

/-- A refused request asks for a change that has no effect. -/
theorem settings_settle {kb kb' : Keyboard τ} (c : Settings.Change) {accepted : Prop}
    [Decidable accepted] {refusal : Refusal} (hkb' : kb'.settings = kb.settings.apply c)
    (hc : ¬accepted → ∃ bad, c.badIndex? = some bad) :
    (kb.settle (if accepted then .ok kb' else .error refusal)).2.settings =
      kb.settings.apply c := by
  rw [snd_settle_ite]
  split
  · exact hkb'
  · next hi =>
    obtain ⟨bad, hbad⟩ := hc hi
    exact (kb.settings.apply_of_badIndex hbad).symm

variable [Ticker τ]

theorem settings_reload (kb : Keyboard τ) : kb.reload.settings = kb.settings := by
  rw [reload, retime]
  split <;> rfl

theorem settings_start (kb : Keyboard τ) : kb.start.2.settings = kb.settings := by
  rw [start]
  split <;> rfl

/-- **A request does to the settings what it asks for**, and nothing else. -/
theorem settings_handle (kb : Keyboard τ) (r : Request) :
    (kb.handle r).2.settings = ((kb.requested? r).map kb.settings.apply).getD kb.settings := by
  cases r with
  | start => exact settings_start kb
  | reload => exact settings_reload kb
  | tune | exchangePaddles => exact settings_reload _
  | storeMessage slot text =>
    exact settings_settle (.message slot text) rfl fun h => ⟨_, if_neg h⟩
  | repeatMessage slot minutes =>
    exact settings_settle (.interval slot minutes) rfl fun h => ⟨_, if_neg h⟩
  | storePreset index => exact settings_settle (.store index) rfl fun h => ⟨_, if_neg h⟩
  | recallPreset index =>
    exact settings_settle (.recall index) (settings_reload _) fun h => ⟨_, if_neg h⟩
  | send | playCallsign | storeCallsign | changeOver | edge => rfl
  | play slot =>
    show (kb.settle _).2.settings = kb.settings
    rw [playMessage, snd_settle_ite]
    split <;> rfl
  | announceOverruns =>
    show kb.announceOverruns.settings = kb.settings
    rw [announceOverruns]
    dsimp only
    split <;> rfl

/-- **An event changes the settings once at most.** -/
theorem settings_undergo (kb : Keyboard τ) (e : Event τ) :
    (kb.undergo e).settings = ((kb.changeIn? e).map kb.settings.apply).getD kb.settings := by
  match e with
  | .act (.operate (.request r)) => exact settings_handle kb r
  | .act (.operate .tick) => exact settings_tick kb
  | .act (.operate (.makeUp n)) =>
    exact makeUp_induction (P := fun kb' => kb'.settings = kb.settings)
      (fun kb' h => (settings_tick kb').trans h) (fun _ _ _ h => h) rfl n
  | .act (.operate (.register slot period)) | .act (.operate (.unregister slot)) =>
    show (kb.operate _).settings = kb.settings
    rw [operate]
    split <;> rfl
  | .act (.operate (.changeSettings _)) | .act (.operate (.queueEdge _))
  | .act (.operate .readKeystroke) | .act (.operate .readMenu) | .act (.operate .takeSignals)
  | .act (.reschedule _) | .share _ _ _ => rfl

/-! ### What a place holds -/

theorem text_undergo (kb : Keyboard τ) (e : Event τ) (place : Place) :
    (kb.undergo e).settings.text place =
      ((e.stored? place).map (Text.cut place.room)).getD (kb.settings.text place) := by
  rw [settings_undergo, ← kb.stored?_changeIn e place]
  cases kb.changeIn? e with
  | none => rfl
  | some c => exact kb.settings.text_apply c place

/-- **A place holds the text that was stored in it last**, cut to its room, or else what it held at
the beginning. -/
theorem text_after (kb : Keyboard τ) (events : List (Event τ)) (place : Place) :
    (kb.after events).settings.text place =
      ((events.filterMap (Event.stored? place)).getLast?.map (Text.cut place.room)).getD
        (kb.settings.text place) := by
  induction events using List.reverseRecOn with
  | nil => rfl
  | append_singleton events e ih =>
    rw [after_concat, text_undergo, ih, List.filterMap_append, List.getLast?_append]
    cases he : e.stored? place with
    | none => simp [he]
    | some text => simp [he]

/-! ### Storing and playing -/

/-- **A place that exists is never refused a text.** -/
theorem handle_store (kb : Keyboard τ) (place : Place) (text : String) :
    kb.handle (place.store text) = (.ok (), kb.change (place.change text)) := by
  cases place with
  | message slot => exact congrArg kb.settle (if_pos slot.isLt)
  | callsign => rfl

/-- **What is played is what the place holds.** -/
theorem handle_play (kb : Keyboard τ) (place : Place) :
    kb.handle place.play = (.ok (), kb.send (kb.settings.text place)) := by
  cases place with
  | message slot => exact congrArg kb.settle (if_pos slot.isLt)
  | callsign => rfl

omit [Ticker τ] in
/-- A text is stored in one place and leaves the others. -/
theorem text_change (kb : Keyboard τ) (place other : Place) (text : String) :
    (kb.change (place.change text)).settings.text other =
      if place = other then Text.cut other.room text else kb.settings.text other := by
  rw [change, Settings.text_apply, place.stored?_change]
  split <;> rfl

/-- A place that nothing is stored in holds what it held. -/
theorem text_after_of_kept (kb : Keyboard τ) {events : List (Event τ)} {place : Place}
    (hkept : ∀ e ∈ events, e.stored? place = none) :
    (kb.after events).settings.text place = kb.settings.text place := by
  rw [text_after, List.filterMap_eq_nil_iff.mpr hkept]
  rfl

/-- **What is stored is played.** A text is stored in a place of a keyboard whose queues are in
order. The place then holds the longest beginning of the text in whole characters for which it has
room, and nothing else is changed: neither what the other places hold, nor any other setting, nor
anything else of the keyboard. Then anything may happen, also to what is shared with others and to
the texts in other places, but no text is stored in this one. If it is played now, the queue of
characters holds the last 128 bytes of what it held and the bytes of the text as it was kept. -/
theorem stored_played {kb : Keyboard τ} (hkb : kb.queues.WellFormed) (place : Place)
    (text : String) {events : List (Event τ)} (hshared : ∀ e ∈ events, e.InOrder)
    (hkept : ∀ e ∈ events, e.stored? place = none) :
    let stored := kb.handle (place.store text)
    let kept := stored.2.settings.text place
    let last := stored.2.after events
    let played := last.handle place.play
    stored.1 = .ok () ∧ Text.IsLongest place.room text kept ∧
      (∀ other ≠ place, stored.2.settings.text other = kb.settings.text other) ∧
      stored.2 = { kb with settings := { kb.settings with
        messages := stored.2.settings.messages, callsign := stored.2.settings.callsign } } ∧
      played.1 = .ok () ∧
      played.2.queues.chars.toList =
        Ring.newest 128 (last.queues.chars.toList ++ Text.bytes kept) := by
  intro stored kept last played
  have hstored : stored = (.ok (), kb.change (place.change text)) := kb.handle_store place text
  have hplayed : played = (.ok (), last.send (last.settings.text place)) := last.handle_play place
  have hcut : kept = Text.cut place.room text := by
    show stored.2.settings.text place = _
    rw [hstored, text_change, if_pos rfl]
  have hlast : last.settings.text place = kept := stored.2.text_after_of_kept hkept
  have hchars : last.queues.chars.WellFormed := by
    have hqueues : stored.2.queues.WellFormed := by rw [hstored]; exact hkb
    exact (wellFormed_after hqueues hshared).chars
  refine ⟨by rw [hstored], hcut ▸ Text.isLongest_cut place.room text, fun other hother => ?_, ?_,
    by rw [hplayed], ?_⟩
  · rw [hstored, text_change, if_neg hother.symm]
  · rw [hstored]
    cases place <;> rfl
  · rw [hplayed, hlast]
    exact Ring.toList_pushAll hchars _

/-- The callsign has room for sixteen bytes. Of a text whose sixteenth character has two bytes only
the fifteen before it are kept, although the last one would have room. They are played behind what
was sent in the meantime, and the messages that are stored make no difference. -/
theorem stored_played_umlaut :
    let kb := fresh PolledTicker.free
    let stored := kb.handle (Place.callsign.store "xxxxxxxxxxxxxxxäb")
    let events : List (Event PolledTicker) :=
      [.act (.operate (.request (.send [0x65]))),
        .act (.operate (.request (.storeMessage 3 "cq"))),
        .act (.operate (.changeSettings (.message 4 "qrz")))]
    let played := (stored.2.after events).handle Place.callsign.play
    kb.queues.WellFormed ∧ (∀ e ∈ events, e.InOrder) ∧
      (∀ e ∈ events, e.stored? .callsign = none) ∧
      stored.2.settings.callsign = "xxxxxxxxxxxxxxx" ∧
      played.2.queues.chars.toList = Text.bytes "exxxxxxxxxxxxxxx" := by
  intro kb stored events played
  have hkb : kb.queues.WellFormed := Queues.wellFormed_fresh
  have hshared : ∀ e ∈ events, e.InOrder := by simp [events, Event.InOrder]
  have hkept : ∀ e ∈ events, e.stored? .callsign = none := by decide
  have hcallsign : stored.2.settings.callsign = "xxxxxxxxxxxxxxx" := by decide +kernel
  have hbefore : (stored.2.after events).queues.chars.toList = [0x65] := by decide +kernel
  obtain ⟨-, -, -, -, -, hplayed⟩ := stored_played hkb .callsign "xxxxxxxxxxxxxxxäb" hshared hkept
  refine ⟨hkb, hshared, hkept, hcallsign, hplayed.trans ?_⟩
  rw [show Keyboard.after _ events = stored.2.after events from rfl, hbefore,
    show Settings.text _ Place.callsign = _ from hcallsign]
  decide

end Keyboard

end MorseKeyboard
