import MorseKeyboard.Proofs.Keyboard.ChangeOver

/-!
# Where decoded text goes

The symbols that the output takes up, the change-overs of command mode and the bytes that are
delivered go on record (`MorseKeyboard.Keyboard.record`), in the order in which they happen. The
letter being decoded, the destination of the text and the two queues that it may go to are kept in
different places, and operations of every kind come between the symbols of a letter. Still the
record reads as if one scribe had written it (`MorseKeyboard.Keyboard.Scribe`), who listens to the
symbols, writes every byte right behind the symbol that completes it, with the destination of the
last change-over, and **begins afresh at every change-over**
(`MorseKeyboard.Keyboard.transcript_run`).

A record is composed of those of its acts, and what an act does is told in one relation for all of
them (`MorseKeyboard.Keyboard.Routes`): the text that it adds to the record is what the scribe
writes, and the letter, the destination and the queues are left as the record says. Nearly all acts
only add to the outbox (`MorseKeyboard.Keyboard.Does`), a millisecond a turn of the output at most.
-/

namespace MorseKeyboard.Keyboard

/-! ### Records -/

/-- One thing in the record of a keyboard. -/
inductive Entry where
  /-- The keyboard did something. -/
  | signal (s : Signal)
  /-- Command mode was entered or left. -/
  | changeOver (enabled : Bool)
  /-- A byte was read from where text was delivered. -/
  | read (target : Target)
  deriving DecidableEq, Repr

namespace Entry

/-- Whether a transcript mentions this: a symbol, a byte of text, or a change-over. -/
def isText : Entry → Bool
  | signal (.symbol _) | signal (.delivered _ _) | changeOver _ => true
  | _ => false

/-- The queue of a destination after an entry. -/
def onQueue {n : Nat} (target : Target) (queue : Ring UInt8 n) : Entry → Ring UInt8 n
  | signal (.delivered t byte) => if t = target then queue.push byte else queue
  | read t => if t = target then (queue.take 1).2 else queue
  | _ => queue

end Entry

/-! ### Scribes -/

/-- Someone who listens to symbols and writes down their text for a destination. -/
structure Scribe where
  /-- What is known of the letter being listened to. -/
  decoder : Decoder := .fresh
  /-- Where the text goes. -/
  target : Target := .keystrokes
  deriving DecidableEq, Repr

namespace Scribe

/-- A scribe at a change-over. -/
def changedOver (enabled : Bool) : Scribe := { target := if enabled then .menu else .keystrokes }

/-- What a scribe writes for an entry: a symbol with the text that it completes, or a change-over.
Nothing else counts. -/
def write (w : Scribe) : Entry → List Entry
  | .signal (.symbol s) =>
    .signal (.symbol s) :: (w.decoder.hear s).1.map fun byte => .signal (.delivered w.target byte)
  | .changeOver enabled => [.changeOver enabled]
  | _ => []

/-- A scribe after an entry. -/
def next (w : Scribe) : Entry → Scribe
  | .signal (.symbol s) => { w with decoder := (w.decoder.hear s).2 }
  | .changeOver enabled => changedOver enabled
  | _ => w

/-- What a scribe writes for a record. -/
def transcribe (w : Scribe) : List Entry → List Entry
  | [] => []
  | e :: record => w.write e ++ (w.next e).transcribe record

/-- A scribe after a record. -/
def after (w : Scribe) (record : List Entry) : Scribe := record.foldl next w

theorem transcribe_append (w : Scribe) (record more : List Entry) :
    w.transcribe (record ++ more) = w.transcribe record ++ (w.after record).transcribe more := by
  induction record generalizing w with
  | nil => rfl
  | cons e record ih =>
    rw [List.cons_append, transcribe, ih, transcribe, List.append_assoc]
    rfl

theorem after_append (w : Scribe) (record more : List Entry) :
    w.after (record ++ more) = (w.after record).after more := List.foldl_append

/-- What was delivered is not listened to. -/
theorem transcribe_delivered (w : Scribe) (target : Target) (bytes : List UInt8) :
    let record := (bytes.map (Signal.delivered target)).map Entry.signal
    w.transcribe record = [] ∧ w.after record = w ∧ record.filter Entry.isText = record := by
  induction bytes with
  | nil => exact ⟨rfl, rfl, rfl⟩
  | cons byte bytes ih => exact ⟨ih.1, ih.2.1, congrArg (_ :: ·) ih.2.2⟩

/-- **What a call of the sender does is what a scribe writes**, if they have heard the same. -/
theorem transcribe_call (w : Scribe) {s : Sender} {t : Sender.Turn} (h : Sender.Effect s t)
    (hw : w.decoder = s.decoder) :
    let record := (t.signals ++ t.bytes.map (Signal.delivered w.target)).map Entry.signal
    record.filter Entry.isText = w.transcribe record ∧
      w.after record = { w with decoder := t.sender.decoder } := by
  obtain ⟨decoder, target⟩ := w
  subst hw
  obtain ⟨hsilent, hsame, hall⟩ :=
    transcribe_delivered { decoder := t.sender.decoder, target } target t.bytes
  -- it is enough to look at the signals, which come before the bytes
  suffices hcall : (t.signals.map Entry.signal).filter Entry.isText ++
      (t.bytes.map (Signal.delivered target)).map Entry.signal =
        ({ decoder := s.decoder, target } : Scribe).transcribe (t.signals.map .signal) ∧
      ({ decoder := s.decoder, target } : Scribe).after (t.signals.map .signal) =
        { decoder := t.sender.decoder, target } by
    simp only [List.map_append, List.filter_append, transcribe_append, after_append, hall, hcall,
      hsilent, hsame, List.append_nil, and_self]
  cases h with
  | rest _ _ hsignals hheard | hold _ _ hsignals hheard | lift _ _ hsignals hheard =>
    obtain ⟨hbytes, hdecoder⟩ := Prod.mk.inj hheard
    rw [hsignals, hbytes, hdecoder]
    exact ⟨rfl, rfl⟩
  | @strike x _ _ hsignals hheard =>
    obtain ⟨hbytes, hdecoder⟩ := Prod.mk.inj hheard
    rw [hsignals, hbytes, hdecoder, List.map_map]
    cases x with
    | space => exact ⟨congrArg (_ :: ·) (List.append_nil _).symm, rfl⟩
    | dit | dah => exact ⟨rfl, rfl⟩

end Scribe

/-! ### Queues of decoded text -/

namespace Entry

variable {n : Nat} (target : Target)

/-- What goes to the output device does not go to a queue. -/
theorem foldl_onQueue_output (queue : Ring UInt8 n) {signals : List Signal}
    (h : signals.all Signal.isOutput = true) :
    (signals.map signal).foldl (onQueue target) queue = queue := by
  induction signals with
  | nil => rfl
  | cons s signals ih =>
    obtain ⟨hs, hrest⟩ := Bool.and_eq_true_iff.mp h
    cases s with
    | delivered => cases hs
    | _ => exact ih hrest

/-- What is delivered goes to the queue of its destination. -/
theorem foldl_onQueue_delivered (queue : Ring UInt8 n) (t : Target) (bytes : List UInt8) :
    ((bytes.map (Signal.delivered t)).map signal).foldl (onQueue target) queue =
      if t = target then queue.pushAll bytes else queue := by
  induction bytes generalizing queue with
  | nil => exact (ite_self queue).symm
  | cons byte bytes ih =>
    rw [List.map_cons, List.map_cons, List.foldl_cons, ih, onQueue]
    split <;> rfl

/-- What a turn of the output does is done to the queues that receive its bytes. -/
theorem foldl_onQueue_turn (q : Queues) (t : Target) {signals : List Signal}
    (h : signals.all Signal.isOutput = true) (bytes : List UInt8) :
    let record := (signals ++ bytes.map (Signal.delivered t)).map signal
    (q.receive t bytes).keystrokes = record.foldl (onQueue .keystrokes) q.keystrokes ∧
      (q.receive t bytes).menu = record.foldl (onQueue .menu) q.menu := by
  simp only [List.map_append, List.foldl_append, foldl_onQueue_output _ _ h,
    foldl_onQueue_delivered]
  cases t <;> exact ⟨rfl, rfl⟩

end Entry

variable {τ : Type}

/-! ### What agrees with its record -/

/-- The scribe of the text that a keyboard is about to deliver. -/
def scribe (kb : Keyboard τ) : Scribe := { decoder := kb.sender.decoder, target := kb.target }

/-- **What happens from one state of a keyboard to another agrees with this record of it.** The text
of the record is what the scribe writes, and the scribe and the queues of decoded text are left as
the record says. -/
structure Routes (kb kb' : Keyboard τ) (record : List Entry) : Prop where
  text : record.filter Entry.isText = kb.scribe.transcribe record
  scribe : kb'.scribe = kb.scribe.after record
  keystrokes : kb'.queues.keystrokes = record.foldl (Entry.onQueue .keystrokes) kb.queues.keystrokes
  menu : kb'.queues.menu = record.foldl (Entry.onQueue .menu) kb.queues.menu

theorem Routes.append {kb kb' kb'' : Keyboard τ} {record more : List Entry}
    (h : kb.Routes kb' record) (h' : kb'.Routes kb'' more) : kb.Routes kb'' (record ++ more) where
  text := by rw [List.filter_append, h.text, h'.text, h.scribe, Scribe.transcribe_append]
  scribe := by rw [h'.scribe, h.scribe, Scribe.after_append]
  keystrokes := by rw [h'.keystrokes, h.keystrokes, List.foldl_append]
  menu := by rw [h'.menu, h.menu, List.foldl_append]

/-- **A keyboard does this, and nothing else**: these signals are added to the outbox, and they are
a record of what happens. -/
structure Does (kb kb' : Keyboard τ) (signals : List Signal) : Prop where
  outbox : kb'.outbox.toList = kb.outbox.toList ++ signals
  routes : kb.Routes kb' (signals.map .signal)

namespace Does

variable {kb kb' kb'' : Keyboard τ} {signals more : List Signal}

/-- What leaves alone the outbox, the scribe and the queues of decoded text. -/
theorem nothing (houtbox : kb'.outbox = kb.outbox) (hscribe : kb'.scribe = kb.scribe)
    (hkeystrokes : kb'.queues.keystrokes = kb.queues.keystrokes)
    (hmenu : kb'.queues.menu = kb.queues.menu) : kb.Does kb' [] :=
  ⟨by rw [houtbox, List.append_nil], rfl, hscribe, hkeystrokes, hmenu⟩

theorem refl (kb : Keyboard τ) : kb.Does kb [] := nothing rfl rfl rfl rfl

theorem trans (h : kb.Does kb' signals) (h' : kb'.Does kb'' more) :
    kb.Does kb'' (signals ++ more) where
  outbox := by rw [h'.outbox, h.outbox, List.append_assoc]
  routes := by
    rw [List.map_append]
    exact h.routes.append h'.routes

theorem of_aside (h : kb.Aside kb') : kb.Does kb' [] := by
  refine nothing h.outbox ?_ h.keystrokes h.menu
  rw [scribe, h.sender, h.target, scribe]

end Does

theorem does_emit_tone (kb : Keyboard τ) (hz : Nat) : kb.Does (kb.emit (.tone hz)) [.tone hz] :=
  ⟨Array.toList_push, rfl, rfl, rfl, rfl⟩

variable [Ticker τ]

/-! ### Milliseconds -/

/-- **A turn of the output is what the scribe writes.** -/
theorem Turns.does {kb : Keyboard τ} {t : Sender.Turn} (h : kb.Turns t) :
    kb.Does kb.tick.2 (t.signals ++ t.bytes.map (.delivered kb.target)) := by
  have hbefore := aside_beforeTurn kb
  have htarget : kb.beforeTurn.target = kb.target := hbefore.target
  have houtbox : kb.beforeTurn.outbox = kb.outbox := hbefore.outbox
  have hbytes := h.delivers
  have hafter : kb.tick.2.target = kb.target := hbytes.target
  obtain ⟨htext, hscribe⟩ := kb.scribe.transcribe_call h.call.effect rfl
  obtain ⟨hkeystrokes, hmenu⟩ :=
    Entry.foldl_onQueue_turn kb.queues kb.target h.call.all_isOutput t.bytes
  refine ⟨?_, htext, ?_, hbytes.keystrokes.trans hkeystrokes, hbytes.menu.trans hmenu⟩
  · rw [h.aside.outbox, setRate_eq]
    simp [played, houtbox, htarget]
  · rw [scribe, h.sender, hafter]
    exact hscribe.symm

theorem does_tick (kb : Keyboard τ) : ∃ signals, kb.Does kb.tick.2 signals := by
  rcases hdue : kb.scheduler.tick.1.contains .output with _ | _
  · have haside := Does.of_aside (aside_tick_of_not_due hdue)
    have hclock : kb.Does kb.advanceClock.2 [] := .nothing rfl rfl rfl rfl
    exact ⟨_, hclock.trans haside⟩
  · obtain ⟨t, hturn⟩ := exists_turns hdue
    exact ⟨_, hturn.does⟩

/-- Milliseconds that are made up for are milliseconds. -/
theorem does_makeUp (kb : Keyboard τ) (n : UInt32) :
    ∃ signals, kb.Does (kb.makeUp n).2 signals := by
  refine makeUp_induction (P := fun kb' => ∃ signals, kb.Does kb' signals) ?_ ?_
    ⟨_, .refl kb⟩ n
  · rintro kb' ⟨signals, h⟩
    obtain ⟨more, hmore⟩ := does_tick kb'
    exact ⟨_, h.trans hmore⟩
  · rintro kb' faults log ⟨signals, h⟩
    exact ⟨_, h.trans (.nothing rfl rfl rfl rfl)⟩

/-! ### Requests -/

/-- A reload sets the pitch of the sidetone, and does nothing else. -/
theorem does_reload (kb : Keyboard τ) :
    kb.Does kb.reload [.tone kb.settings.current.corrected.hz] := by
  let p := kb.settings.current.corrected
  let keyer := ((kb.keyer.withSpeed (.ofWpm p.wpm)).withMode p.mode).withLeft p.left
  let tuned : Keyboard τ := { kb with inForce := p, keyer }
  have hparameters : kb.Does tuned [] := .nothing rfl rfl rfl rfl
  have hclock : (tuned.emit (.tone p.hz)).Does kb.reload [] := by
    rw [reload, retime]
    split
    · exact .nothing rfl rfl rfl rfl
    · exact .refl _
  exact (hparameters.trans (does_emit_tone _ p.hz)).trans hclock

/-- A start sets the pitch of the sidetone if it succeeds, and does nothing else. -/
theorem does_start (kb : Keyboard τ) :
    ∃ pitches : List Nat, kb.Does kb.start.2 (pitches.map .tone) := by
  rw [start]
  rcases kb.scheduler.claim with refusal | scheduler
  · exact ⟨[], .nothing rfl rfl rfl rfl⟩
  · have hclaim : kb.Does { kb with scheduler } [] := .nothing rfl rfl rfl rfl
    exact ⟨[kb.inForce.hz],
      (hclaim.trans (does_emit_tone _ kb.inForce.hz)).trans (.nothing rfl rfl rfl rfl)⟩

/-- **A request by itself signals nothing but a pitch of the sidetone.** Only a change-over is on
record. -/
theorem does_handle (kb : Keyboard τ) {r : Request} (hr : ∀ enabled, r ≠ .changeOver enabled) :
    ∃ pitches : List Nat, kb.Does (kb.handle r).2 (pitches.map .tone) := by
  have h := handled_handle kb r
  generalize (kb.handle r).2 = kb' at h ⊢
  cases h with
  | refuse => exact ⟨[], .refl kb⟩
  | start => exact does_start kb
  | send | store => exact ⟨[], .nothing rfl rfl rfl rfl⟩
  | reload settings =>
    have hsettings : kb.Does { kb with settings } [] := .nothing rfl rfl rfl rfl
    exact ⟨[_], hsettings.trans (does_reload _)⟩
  | changeOver enabled => exact absurd rfl (hr enabled)
  | edge e => exact ⟨[], .of_aside (aside_paddle kb e)⟩

/-! ### Whatever happens to a keyboard -/

/-- Something that happens to a keyboard. -/
inductive Act (τ : Type) where
  /-- It is operated. -/
  | operate (op : Operation)
  /-- Whoever has access to its scheduler does with it whatever they like. -/
  | reschedule (scheduler : Scheduler τ)

/-- What an act puts on record besides what the keyboard does. -/
def Act.note : Act τ → List Entry
  | operate (.request (.changeOver enabled)) => [.changeOver enabled]
  | operate .readKeystroke => [.read .keystrokes]
  | operate .readMenu => [.read .menu]
  | _ => []

/-- What becomes of a keyboard in an act. -/
def act (kb : Keyboard τ) : Act τ → Keyboard τ
  | .operate op => kb.operate op
  | .reschedule scheduler => { kb with scheduler }

/-- What becomes of a keyboard in one act after another. -/
def run (kb : Keyboard τ) (acts : List (Act τ)) : Keyboard τ := acts.foldl act kb

theorem wellFormed_act {kb : Keyboard τ} (h : kb.queues.WellFormed) (a : Act τ) :
    (kb.act a).queues.WellFormed := by
  cases a with
  | operate op => exact wellFormed_operate h op
  | reschedule scheduler => exact h

/-- **The queues stay in order**, whatever is done to a keyboard. -/
theorem wellFormed_run {kb : Keyboard τ} (h : kb.queues.WellFormed) (acts : List (Act τ)) :
    (kb.run acts).queues.WellFormed := by
  induction acts generalizing kb with
  | nil => exact h
  | cons a acts ih => exact ih (wellFormed_act h a)

/-- The record of an act: what was asked for, and the signals that are new in the outbox. -/
def entries (kb : Keyboard τ) (a : Act τ) : List Entry :=
  a.note ++ ((kb.act a).outbox.toList.drop kb.outbox.size).map .signal

/-- The record of one act after another. -/
def record (kb : Keyboard τ) : List (Act τ) → List Entry
  | [] => []
  | a :: acts => kb.entries a ++ (kb.act a).record acts

theorem entries_of_outbox {kb : Keyboard τ} {a : Act τ} {signals : List Signal}
    (h : (kb.act a).outbox.toList = kb.outbox.toList ++ signals) :
    kb.entries a = a.note ++ signals.map .signal := by
  rw [entries, h, ← Array.length_toList, List.drop_left]

/-- An act that only adds to the outbox agrees with its record. -/
theorem Does.routes_act {kb : Keyboard τ} {a : Act τ}
    (h : ∃ signals, kb.Does (kb.act a) signals) (hnote : a.note = []) :
    kb.Routes (kb.act a) (kb.entries a) := by
  obtain ⟨signals, h⟩ := h
  rw [entries_of_outbox h.outbox, hnote, List.nil_append]
  exact h.routes

/-- An act that leaves the outbox alone is on record by its note only. -/
theorem entries_eq_note {kb : Keyboard τ} {a : Act τ} (h : (kb.act a).outbox = kb.outbox) :
    kb.entries a = a.note := by
  have hnone : (kb.act a).outbox.toList = kb.outbox.toList ++ [] := by rw [h, List.append_nil]
  rw [entries_of_outbox hnone, List.map_nil, List.append_nil]

theorem entries_changeOver (kb : Keyboard τ) (enabled : Bool) :
    kb.entries (.operate (.request (.changeOver enabled))) = [.changeOver enabled] :=
  entries_eq_note rfl

/-- **Every act agrees with its record.** -/
theorem routes_act (kb : Keyboard τ) (a : Act τ) : kb.Routes (kb.act a) (kb.entries a) := by
  cases a with
  | reschedule scheduler => exact Does.routes_act ⟨_, .nothing rfl rfl rfl rfl⟩ rfl
  | operate op =>
    cases op with
    | request r =>
      by_cases hr : ∃ enabled, r = .changeOver enabled
      · obtain ⟨enabled, rfl⟩ := hr
        rw [entries_changeOver]
        exact ⟨rfl, rfl, rfl, rfl⟩
      · rw [not_exists] at hr
        obtain ⟨pitches, hdoes⟩ := does_handle kb hr
        refine Does.routes_act ⟨_, hdoes⟩ ?_
        cases r with
        | changeOver enabled => exact absurd rfl (hr enabled)
        | _ => rfl
    | tick => exact Does.routes_act (does_tick kb) rfl
    | makeUp n => exact Does.routes_act (does_makeUp kb n) rfl
    | queueEdge | changeSettings => exact Does.routes_act ⟨_, .nothing rfl rfl rfl rfl⟩ rfl
    | register slot period | unregister slot =>
      refine Does.routes_act ⟨[], ?_⟩ rfl
      rw [act, operate]
      split
      · exact .refl kb
      · exact .nothing rfl rfl rfl rfl
    | readKeystroke | readMenu =>
      rw [entries_eq_note rfl]
      exact ⟨rfl, rfl, rfl, rfl⟩
    -- taking the signals out leaves nothing new in the outbox
    | takeSignals =>
      have hnone : kb.entries (.operate .takeSignals) = [] := by
        rw [entries]
        exact congrArg (List.map Entry.signal) List.drop_nil
      rw [hnone]
      exact ⟨rfl, rfl, rfl, rfl⟩

/-- **Whatever happens to a keyboard agrees with the record of it.** -/
theorem routes_run (kb : Keyboard τ) (acts : List (Act τ)) :
    kb.Routes (kb.run acts) (kb.record acts) := by
  induction acts generalizing kb with
  | nil => exact ⟨rfl, rfl, rfl, rfl⟩
  | cons a acts ih => exact (routes_act kb a).append (ih (kb.act a))

/-- A change-over is on record only if there was one. -/
theorem eq_of_changeOver_mem_entries {kb : Keyboard τ} {a : Act τ} {enabled : Bool}
    (h : .changeOver enabled ∈ kb.entries a) : a = .operate (.request (.changeOver enabled)) := by
  rcases List.mem_append.mp h with hnote | hsignal
  · unfold Act.note at hnote
    split at hnote
    · obtain ⟨rfl⟩ := List.mem_singleton.mp hnote
      rfl
    · cases List.mem_singleton.mp hnote
    · cases List.mem_singleton.mp hnote
    · cases hnote
  · obtain ⟨s, -, hs⟩ := List.mem_map.mp hsignal
    cases hs

/-- **What comes after a change-over is a record of its own**, with a scribe who has not heard
anything that came before. -/
theorem transcript_after_changeOver (kb : Keyboard τ) (acts : List (Act τ)) {enabled : Bool}
    {before after : List Entry} (h : kb.record acts = before ++ .changeOver enabled :: after) :
    after.filter Entry.isText = (Scribe.changedOver enabled).transcribe after := by
  induction acts generalizing kb before with
  | nil => exact absurd h.symm (List.append_ne_nil_of_right_ne_nil _ (List.cons_ne_nil _ _))
  | cons a acts ih =>
    rcases List.append_eq_append_iff.mp h with ⟨middle, -, hrest⟩ | ⟨middle, hentries, hrest⟩
    · exact ih _ hrest
    · rcases middle with _ | ⟨e, middle⟩
      · have hlater : (kb.act a).record acts = [] ++ .changeOver enabled :: after := hrest.symm
        exact ih _ hlater
      -- the change-over is the one of the first act, which has nothing else on record
      · obtain ⟨rfl, hafter⟩ := List.cons.inj hrest
        have hmem : .changeOver enabled ∈ kb.entries a := by simp [hentries]
        obtain rfl := eq_of_changeOver_mem_entries hmem
        rw [entries_changeOver, List.singleton_eq_append_iff] at hentries
        obtain ⟨-, hmiddle⟩ | ⟨-, hmiddle⟩ := hentries
        · obtain rfl := (List.cons.inj hmiddle).2
          rw [hafter]
          exact (routes_run _ acts).text
        · cases hmiddle

/-- **Decoded text goes to one place.** A keyboard is built and then operated in any way, and its
scheduler may be tampered with. Of the record of all this, the symbols that were taken up, the bytes
that were delivered and the change-overs are, in this order, what a scribe writes who listens to
nothing but symbols and change-overs: each byte stands right behind the space that resolves it, its
destination is the menu if command mode is on at that time and the host if it is not, and no other
byte is delivered. The queue of the host gets the bytes delivered to the host, and the queue of the
menu those delivered to the menu. The text after a change-over can be told from what is on record
after it. -/
theorem transcript_run (ticker : τ) (queues : Queues) (faults : FaultRegister)
    (settings : Settings) (log : Logbook) (acts : List (Act τ)) :
    let kb := ofParts ticker queues faults settings log
    (kb.record acts).filter Entry.isText = ({} : Scribe).transcribe (kb.record acts) ∧
      (kb.run acts).scribe = ({} : Scribe).after (kb.record acts) ∧
      (kb.run acts).queues.keystrokes =
        (kb.record acts).foldl (Entry.onQueue .keystrokes) queues.keystrokes ∧
      (kb.run acts).queues.menu = (kb.record acts).foldl (Entry.onQueue .menu) queues.menu ∧
      ∀ before enabled after, kb.record acts = before ++ .changeOver enabled :: after →
        after.filter Entry.isText = (Scribe.changedOver enabled).transcribe after := by
  intro kb
  have hscribe : kb.scribe = {} := rfl
  have hqueues : kb.queues = queues := rfl
  obtain ⟨htext, hafter, hkeystrokes, hmenu⟩ := routes_run kb acts
  rw [hscribe] at htext hafter
  rw [hqueues] at hkeystrokes hmenu
  exact ⟨htext, hafter, hkeystrokes, hmenu, fun _ _ _ => transcript_after_changeOver kb acts⟩

/-- The letter e is cut off by a change-over when its dit has been taken up, and a t is sent after
that. Without the change-over the dit and the dah would be an a; the menu gets the t. -/
theorem transcript_run_cut :
    let wait (n : Nat) : List (Act PolledTicker) := List.replicate n (.operate .tick)
    let acts := .operate (.request .start) :: .operate (.request (.tune (.wpm 99))) ::
      .operate (.request (.send [0x65])) :: wait 20 ++
      .operate (.request (.changeOver true)) :: .operate (.request (.send [0x74])) :: wait 80
    let record := (ofParts PolledTicker.free {} .fresh .standard .empty).record acts
    record.filter Entry.isText =
        [.signal (.symbol .dit), .changeOver true, .signal (.symbol .dah), .signal (.symbol .space),
          .signal (.delivered .menu 0x74)] ∧
      ∃ before after, record = before ++ .changeOver true :: after ∧
        after.filter Entry.isText = (Scribe.changedOver true).transcribe after := by
  intro wait acts record
  have htext : record.filter Entry.isText =
      [.signal (.symbol .dit), .changeOver true, .signal (.symbol .dah), .signal (.symbol .space),
        .signal (.delivered .menu 0x74)] := by
    decide +kernel
  have hmem : .changeOver true ∈ record.filter Entry.isText := by
    rw [htext]
    decide
  obtain ⟨before, after, hsplit⟩ := List.append_of_mem (List.mem_of_mem_filter hmem)
  obtain ⟨-, -, -, -, hafter⟩ := transcript_run PolledTicker.free {} .fresh .standard .empty acts
  exact ⟨htext, before, after, hsplit, hafter before true after hsplit⟩

end MorseKeyboard.Keyboard
