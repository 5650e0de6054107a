import MorseKeyboard.Console.Session
import MorseKeyboard.Proofs.Keyboard.Operation
import MorseKeyboard.Proofs.Polling
import MorseKeyboard.Proofs.Sender.Pace

/-!
# No keystroke is lost

Decoded text waits for the host in a queue of eight bytes, and the host takes a byte in one poll or
two, every ten milliseconds. A procedural signal can type four bytes at once, and the speed may
change at any moment. Still the queue never overflows: what was delivered for the host is what it
has consumed and what waits (`MorseKeyboard.Polled.delivered_run`), in every history of a keyboard
whose host polls it (`MorseKeyboard.Polled`).

The reason is a race between the host and the sender. What the queue costs the host is its backlog
in milliseconds (`MorseKeyboard.Reporter.backlog`), and what the sender still has to do before it
can deliver more is the account of its pace (`MorseKeyboard.Sender.Pace`). **While there is a
backlog, it is at most sixty milliseconds more than the account** (`MorseKeyboard.Polled.Within`),
every element heard being counted. So a letter of four elements or more, which may type four bytes,
ends when nothing waits, and a shorter one, which types one, ends when seven bytes wait at most.
-/

namespace MorseKeyboard

/-! ### A keyboard and its host -/

/-- A keyboard whose host polls it, and the bytes that the host has consumed. -/
structure Polled (τ : Type) where
  keyboard : Keyboard τ
  reporter : Reporter := .fresh
  /-- The bytes that polls took from the queue, in order. -/
  typed : List UInt8 := []

namespace Polled

variable {τ : Type}

/-- The bytes that wait for the host. -/
def unread (p : Polled τ) : List UInt8 := p.keyboard.queues.keystrokes.toList

/-- The host polls. -/
def poll (p : Polled τ) : Polled τ :=
  let queue := p.keyboard.queues.keystrokes
  let (_, reporter, rest) := p.reporter.respond queue
  { keyboard := { p.keyboard with queues := { p.keyboard.queues with keystrokes := rest } }
    reporter
    typed := p.typed ++ queue.toList.take (queue.count - rest.count) }

/-- Something that happens to a keyboard and its host. -/
inductive Act where
  /-- The keyboard is asked for something. -/
  | request (r : Request)
  /-- A contact queues an edge. -/
  | queueEdge (e : Edge)
  /-- A millisecond passes. -/
  | tick
  deriving DecidableEq, Repr

variable [Ticker τ]

/-- A keyboard of which the host begins to poll. -/
def begin (kb : Keyboard τ) : Polled τ where
  keyboard := { kb with scheduler := kb.scheduler.register .host Console.pollMillis }

/-- A millisecond passes. If the slot of the host is among those handed back, the host polls. -/
def tick (p : Polled τ) : Polled τ :=
  let (fired, keyboard) := p.keyboard.tick
  let p := { p with keyboard }
  if fired.contains .host then p.poll else p

/-- Something happens. -/
def act (p : Polled τ) : Act → Polled τ
  | .request r => { p with keyboard := (p.keyboard.handle r).2 }
  | .queueEdge e => { p with keyboard := p.keyboard.operate (.queueEdge e) }
  | .tick => p.tick

/-- One thing happens after another. -/
def run (p : Polled τ) (acts : List Act) : Polled τ := acts.foldl act p

theorem run_append (p : Polled τ) (acts more : List Act) :
    p.run (acts ++ more) = (p.run acts).run more := List.foldl_append

/-! ### The race -/

/-- **While there is a backlog, it is at most `slack` more than the account of the sender.** The
next poll is in `hostWait` milliseconds, the next call of the sender in `wait`. -/
def Within (r : Reporter) (kb : Keyboard τ) (hostWait wait slack : Nat) : Prop :=
  r.backlog hostWait kb.queues.keystrokes.toList = 0 ∨
    r.backlog hostWait kb.queues.keystrokes.toList +
        2 * Sender.leastUnit * kb.sender.decoder.elements ≤
      slack + kb.sender.state.leadAt wait

variable {r : Reporter} {kb kb' : Keyboard τ} {hostWait wait period slack : Nat}

omit [Ticker τ] in
/-- What spares the output does not speed it up. -/
theorem Within.spares (h : Within r kb hostWait wait slack) (hs : kb.Spares kb') :
    Within r kb' hostWait wait slack := by
  have helements : kb'.sender.decoder.elements ≤ kb.sender.decoder.elements := by
    rcases hs.decoder with hd | hd
    · exact Nat.le_of_eq (congrArg Decoder.elements hd)
    · rw [hd]
      exact Nat.zero_le _
  rw [Within, hs.keystrokes, hs.state]
  refine h.imp id fun hle => Nat.le_trans (Nat.add_le_add_left ?_ _) hle
  exact Nat.mul_le_mul_left _ helements

omit [Ticker τ] in
theorem Within.mono {next : Nat} (h : Within r kb hostWait wait slack)
    (hnext : wait ≤ next ∨ Sender.leastUnit ≤ next) : Within r kb hostWait next slack :=
  h.imp id fun hle =>
    Nat.le_trans hle (Nat.add_le_add_left (Sender.State.leadAt_mono _ hnext) _)

omit [Ticker τ] in
/-- A millisecond less to wait is one millisecond of slack. -/
theorem Within.pred (h : Within r kb hostWait wait slack) :
    Within r kb hostWait (wait - 1) (slack + 1) := by
  have hwait : wait ≤ wait - 1 + 1 := by omega
  have hlead := kb.sender.state.leadAt_le_succ hwait
  exact h.imp id fun hle => by omega

/-! ### Turns -/

/-- What the host gets of bytes that go to a destination. -/
def share (target : Target) (bytes : List UInt8) : List UInt8 :=
  match target with
  | .keystrokes => bytes
  | .menu => []

theorem length_share_le (target : Target) (bytes : List UInt8) :
    (share target bytes).length ≤ bytes.length := by
  cases target with
  | keystrokes => exact Nat.le_refl _
  | menu => exact Nat.zero_le _

theorem filterMap_keystroke?_delivered (target : Target) (bytes : List UInt8) :
    (bytes.map (.delivered target)).filterMap Signal.keystroke? = share target bytes := by
  rw [List.filterMap_map]
  cases target with
  | keystrokes => exact List.filterMap_some
  | menu => exact List.filterMap_eq_nil_iff.mpr fun _ _ => rfl

/-- A call of the sender delivers nothing by itself. -/
theorem filterMap_keystroke?_signals {s : Sender} {chars : CharRing} {symbols : SymbolRing}
    {t : Sender.Turn} (h : Sender.Call s chars symbols t) :
    t.signals.filterMap Signal.keystroke? = [] := by
  refine List.filterMap_eq_nil_iff.mpr ?_
  intro signal hsignal
  have houtput := List.all_eq_true.mp h.all_isOutput signal hsignal
  cases signal with
  | delivered => cases houtput
  | _ => rfl

omit [Ticker τ] in
theorem delivered_played {t : Sender.Turn}
    (h : Sender.Call kb.sender kb.queues.chars kb.queues.symbols t) :
    (kb.played t).delivered = kb.delivered ++ share kb.target t.bytes := by
  have houtbox : (kb.played t).outbox.toList =
      kb.outbox.toList ++ t.signals ++ t.bytes.map (.delivered kb.target) := by
    simp [Keyboard.played]
  rw [Keyboard.delivered, houtbox, List.filterMap_append, List.filterMap_append,
    filterMap_keystroke?_signals h, filterMap_keystroke?_delivered, List.append_nil,
    Keyboard.delivered]

omit [Ticker τ] in
/-- With room for what the host gets, it is appended to what waits. -/
theorem toList_keystrokes_played {t : Sender.Turn} (h : kb.queues.keystrokes.WellFormed)
    (hroom : kb.queues.keystrokes.toList.length + (share kb.target t.bytes).length ≤ 8) :
    (kb.played t).queues.keystrokes.toList =
      kb.queues.keystrokes.toList ++ share kb.target t.bytes := by
  rw [Keyboard.played]
  cases htarget : kb.target with
  | keystrokes =>
    rw [htarget] at hroom
    exact Ring.toList_pushAll_of_length_le h hroom
  | menu => exact (List.append_nil _).symm

omit [Ticker τ] in
/-- The queue of the host stays in order. -/
theorem wellFormed_keystrokes_played (h : kb.queues.keystrokes.WellFormed) (t : Sender.Turn) :
    (kb.played t).queues.keystrokes.WellFormed := by
  rw [Keyboard.played]
  cases kb.target with
  | keystrokes => exact h.pushAll t.bytes
  | menu => exact h

omit [Ticker τ] in
/-- **When a letter ends there is room for it**, and it does not make the backlog too long. -/
theorem Within.room (h : Within r kb hostWait wait 60) (hlead : kb.sender.state.leadAt wait = 1)
    (hpos : 0 < hostWait) :
    kb.queues.keystrokes.toList.length + kb.sender.decoder.letter.length ≤ 8 ∧
      r.backlog hostWait kb.queues.keystrokes.toList + 20 * kb.sender.decoder.letter.length ≤
        81 := by
  obtain ⟨hfour, hone⟩ := kb.sender.decoder.length_letter_le
  rw [Within, hlead, Sender.leastUnit] at h
  by_cases hfew : kb.sender.decoder.elements < 4
  -- one byte at most, and seven wait at most
  · have hletter := hone hfew
    have hbacklog : r.backlog hostWait kb.queues.keystrokes.toList ≤ 61 := by omega
    have hseven : 61 ≤ Reporter.pollPeriod * 7 := by decide
    have hlength := Reporter.length_le_of_backlog_le hpos (Nat.le_trans hbacklog hseven)
    omega
  -- four elements count ninety-six milliseconds, so a backlog would be out of bounds
  · have hzero : r.backlog hostWait kb.queues.keystrokes.toList = 0 := by omega
    have hempty := (Reporter.backlog_eq_zero_iff hpos).mp hzero
    rw [hzero, hempty, List.length_nil]
    omega

/-- The keyboard may be late by so much: its sender is called once per unit unless it is idle. -/
structure Paced (kb : Keyboard τ) (wait period : Nat) : Prop where
  wellFormed : kb.queues.keystrokes.WellFormed
  output : kb.scheduler.Waits .output wait period
  unit : kb.sender.state ≠ .idle → Sender.leastUnit ≤ period

omit [Ticker τ] in
theorem Paced.spares (h : Paced kb wait period) (hs : kb.Spares kb') :
    Paced kb' wait period ∨ ∃ unit, Sender.leastUnit ≤ unit ∧ Paced kb' unit unit := by
  have hwellFormed : kb'.queues.keystrokes.WellFormed := hs.keystrokes ▸ h.wellFormed
  rcases hs.output h.output with hwaits | ⟨unit, hunit, hwaits⟩
  · exact Or.inl ⟨hwellFormed, hwaits, by rw [hs.state]; exact h.unit⟩
  · exact Or.inr ⟨unit, hunit, hwellFormed, hwaits, fun _ => hunit⟩

omit [Ticker τ] in
/-- **The race in a call of the sender**: there is room for what the host gets, and the backlog is
still within its bounds, but for the millisecond of the call. -/
theorem Within.call {t : Sender.Turn} {next : Nat} (h : Within r kb hostWait 1 60)
    (hpace : Sender.Pace kb.sender t next) (hkeystrokes : kb.queues.keystrokes.WellFormed)
    (hpos : 0 < hostWait) (hle : hostWait ≤ Reporter.pollPeriod) :
    kb.queues.keystrokes.toList.length + (share kb.target t.bytes).length ≤ 8 ∧
      (r.backlog hostWait (kb.queues.keystrokes.toList ++ share kb.target t.bytes) = 0 ∨
        r.backlog hostWait (kb.queues.keystrokes.toList ++ share kb.target t.bytes) +
            2 * Sender.leastUnit * t.sender.decoder.elements ≤
          61 + t.sender.state.leadAt next) := by
  cases hpace with
  | silent hbytes hlead =>
    have hnone : share kb.target t.bytes = [] := by
      rw [hbytes]
      cases kb.target <;> rfl
    rw [hnone, List.append_nil]
    refine ⟨?_, h.imp id fun hwithin => by omega⟩
    rw [Ring.length_toList]
    exact hkeystrokes.count_le
  | letter hbytes hdecoder hbefore hafter =>
    obtain ⟨hroom, hbacklog⟩ := h.room hbefore hpos
    have happend := r.backlog_append_le hle kb.queues.keystrokes.toList (share kb.target t.bytes)
    rw [Reporter.pollPeriod] at happend
    have hshare := length_share_le kb.target t.bytes
    have hletter : t.bytes.length = kb.sender.decoder.letter.length := congrArg List.length hbytes
    rw [Sender.leastUnit] at hafter
    rw [hdecoder, Decoder.elements_fresh]
    exact ⟨by omega, Or.inr (by omega)⟩

omit [Ticker τ] in
/-- What spares the output leaves it in the race. -/
theorem Within.paced_spares (h : Within r kb hostWait wait slack) (hp : Paced kb wait period)
    (hs : kb.Spares kb') :
    ∃ wait' period', Paced kb' wait' period' ∧ Within r kb' hostWait wait' slack := by
  rcases hp.spares hs with hp' | ⟨unit, hunit, hp'⟩
  · exact ⟨wait, period, hp', h.spares hs⟩
  · exact ⟨unit, unit, hp', (h.spares hs).mono (Or.inr hunit)⟩

/-- **A turn of the output delivers in time**: what the host gets is appended to what waits, and the
race goes on. -/
theorem Within.playTurn (h : Within r kb hostWait 1 60) (hp : Paced kb period period)
    (hpos : 0 < hostWait) (hle : hostWait ≤ Reporter.pollPeriod) :
    ∃ next bytes, Paced kb.playTurn next next ∧
      kb.playTurn.delivered = kb.delivered ++ bytes ∧
      kb.playTurn.queues.keystrokes.toList = kb.queues.keystrokes.toList ++ bytes ∧
      Within r kb.playTurn hostWait next 61 := by
  obtain ⟨t, hcall, hturn⟩ := kb.exists_playTurn
  have hdit : Sender.leastUnit ≤ kb.speed.dit := kb.speed.twelve_le_dit
  have hwaits : (kb.played t).scheduler.Waits .output period period := hp.output
  obtain ⟨hroom, hwithin⟩ := h.call (hcall.pace hdit hp.unit) hp.wellFormed hpos hle
  have hkeystrokes := toList_keystrokes_played hp.wellFormed hroom
  let next := Sender.periodAfter kb.speed.dit period t.rate
  have hpaced : Paced kb.playTurn next next :=
    { wellFormed := by
        rw [hturn, Keyboard.setRate_eq]
        exact wellFormed_keystrokes_played hp.wellFormed t
      output := by
        rw [hturn]
        exact Keyboard.waits_setRate hwaits t.rate
      unit := by
        rw [hturn, Keyboard.setRate_eq]
        exact hcall.leastUnit_le_periodAfter hdit hp.unit }
  refine ⟨next, share kb.target t.bytes, hpaced, ?_, ?_, ?_⟩
  · rw [hturn, Keyboard.setRate_eq]
    exact delivered_played hcall
  · rw [hturn, Keyboard.setRate_eq]
    exact hkeystrokes
  · rw [Within, hturn, Keyboard.setRate_eq]
    show r.backlog hostWait (kb.played t).queues.keystrokes.toList = 0 ∨ _
    rw [hkeystrokes]
    exact hwithin

/-! ### Milliseconds -/

/-- The race until the turn of the output is over. -/
theorem Within.throughTurn (h : Within r kb hostWait wait 60) (hp : Paced kb wait period)
    (hpos : 0 < hostWait) (hle : hostWait ≤ Reporter.pollPeriod) :
    ∃ wait' period' bytes, Paced kb.throughTurn wait' period' ∧
      kb.throughTurn.delivered = kb.delivered ++ bytes ∧
      kb.throughTurn.queues.keystrokes.toList = kb.queues.keystrokes.toList ++ bytes ∧
      Within r kb.throughTurn hostWait wait' 61 := by
  obtain ⟨hdue, hclock⟩ := hp.output.tick
  have hbefore := Keyboard.spares_beforeTurn kb
  have hsameBytes : kb.beforeTurn.delivered = kb.delivered := hbefore.delivered
  have hsameQueue : kb.beforeTurn.queues.keystrokes = kb.queues.keystrokes := hbefore.keystrokes
  have hadvance : Paced kb.advanceClock.2 (Scheduler.waitAfter wait period) period :=
    ⟨hp.wellFormed, hclock, hp.unit⟩
  rw [Keyboard.throughTurn, hdue]
  by_cases hone : wait = 1
  -- the turn is due, and the clock has set the wait for the next one to the period
  · subst hone
    rw [Scheduler.waitAfter, if_pos rfl] at hadvance
    have hnow : Within r kb.advanceClock.2 hostWait 1 60 := h
    have hwithin := hnow.spares hbefore
    have hturn : ∃ period', Paced kb.beforeTurn period' period' := by
      rcases hadvance.spares hbefore with hp' | ⟨unit, -, hp'⟩
      · exact ⟨period, hp'⟩
      · exact ⟨unit, hp'⟩
    obtain ⟨period', hp'⟩ := hturn
    obtain ⟨next, bytes, hpaced, hdelivered, hkeystrokes, hwithin'⟩ := hwithin.playTurn hp' hpos hle
    rw [hsameBytes] at hdelivered
    rw [hsameQueue] at hkeystrokes
    rw [decide_eq_true rfl, if_pos rfl]
    exact ⟨next, next, bytes, hpaced, hdelivered, hkeystrokes, hwithin'⟩
  -- no turn: the lead falls by the millisecond that passes
  · rw [Scheduler.waitAfter, if_neg hone] at hadvance
    rw [decide_eq_false hone]
    have hwithin : Within r kb.advanceClock.2 hostWait (wait - 1) 61 := h.pred
    obtain ⟨wait', period', hpaced, hwithin'⟩ := hwithin.paced_spares hadvance hbefore
    refine ⟨wait', period', [], hpaced, ?_, ?_, hwithin'⟩
    · rw [List.append_nil, if_neg Bool.false_ne_true, hsameBytes]
    · rw [List.append_nil, if_neg Bool.false_ne_true, hsameQueue]

/-- **A millisecond of the keyboard delivers in time**, the poll that may follow not counted. -/
theorem Within.tick (h : Within r kb hostWait wait 60) (hp : Paced kb wait period)
    (hpos : 0 < hostWait) (hle : hostWait ≤ Reporter.pollPeriod) :
    ∃ wait' period' bytes, Paced kb.tick.2 wait' period' ∧
      kb.tick.2.delivered = kb.delivered ++ bytes ∧
      kb.tick.2.queues.keystrokes.toList = kb.queues.keystrokes.toList ++ bytes ∧
      Within r kb.tick.2 hostWait wait' 61 := by
  obtain ⟨wait', period', bytes, hpaced, hdelivered, hkeystrokes, hwithin⟩ :=
    h.throughTurn hp hpos hle
  have hafter := Keyboard.spares_afterTurn kb.throughTurn kb.scheduler.tick.1
  obtain ⟨wait'', period'', hpaced', hwithin'⟩ := hwithin.paced_spares hpaced hafter
  rw [Keyboard.snd_tick]
  refine ⟨wait'', period'', bytes, hpaced', ?_, ?_, hwithin'⟩
  · rw [hafter.delivered, hdelivered]
  · rw [hafter.keystrokes, hkeystrokes]

/-- The slot of the host goes on waiting for its polls. -/
theorem waits_host_tick (h : kb.scheduler.Waits .host hostWait Reporter.pollPeriod) :
    kb.tick.1.contains .host = decide (hostWait = 1) ∧
      kb.tick.2.scheduler.Waits .host (Scheduler.waitAfter hostWait Reporter.pollPeriod)
        Reporter.pollPeriod := by
  obtain ⟨hdue, hclock⟩ := h.tick
  constructor
  · rw [Keyboard.contains_fst_tick, hdue]
    exact Bool.and_true _
  · have hbefore := (Keyboard.spares_beforeTurn kb).others rfl hclock
    rw [Keyboard.snd_tick]
    refine (Keyboard.spares_afterTurn _ _).others rfl ?_
    rw [Keyboard.throughTurn]
    split
    · obtain ⟨t, -, hturn⟩ := kb.beforeTurn.exists_playTurn
      have hplayed : (kb.beforeTurn.played t).scheduler.Waits .host _ _ := hbefore
      rw [hturn]
      exact Keyboard.waits_setRate_of_ne hplayed (by decide) t.rate
    · exact hbefore

/-! ### Polls -/

omit [Ticker τ] in
/-- **What a poll does**: it moves bytes from what waits to what was typed, as the reporter says. -/
theorem poll_spec (p : Polled τ) :
    p.poll.reporter = (p.reporter.pollOf p.unread).1 ∧
      p.poll.unread = (p.reporter.pollOf p.unread).2 ∧
      p.typed <+: p.poll.typed ∧ p.poll.typed ++ p.poll.unread = p.typed ++ p.unread := by
  obtain ⟨hreporter, hqueue⟩ := p.reporter.respond_eq_pollOf p.keyboard.queues.keystrokes
  have hunread : p.poll.unread = (p.reporter.pollOf p.unread).2 := hqueue
  refine ⟨hreporter, hunread, List.prefix_append _ _, ?_⟩
  obtain ⟨taken, htaken⟩ : p.poll.unread <:+ p.unread := by
    rw [hunread]
    exact p.reporter.pollOf_suffix p.unread
  have hfront : p.unread.take (p.unread.length - p.poll.unread.length) = taken := by
    rw [← htaken, List.length_append, Nat.add_sub_cancel, List.take_left]
  have htyped : p.poll.typed = p.typed ++ taken := by
    rw [← hfront, unread, unread, Ring.length_toList, Ring.length_toList]
    rfl
  rw [htyped, List.append_assoc, htaken]

theorem tick_eq (p : Polled τ) :
    p.tick =
      if p.keyboard.tick.1.contains .host then
        ({ p with keyboard := p.keyboard.tick.2 } : Polled τ).poll
      else { p with keyboard := p.keyboard.tick.2 } :=
  rfl

/-- **What a millisecond does to the host**, given the bytes that wait in it. -/
theorem tick_spec {p : Polled τ}
    (h : p.keyboard.scheduler.Waits .host hostWait Reporter.pollPeriod) :
    p.tick.reporter =
        (p.reporter.pass hostWait p.keyboard.tick.2.queues.keystrokes.toList).1 ∧
      p.tick.unread =
        (p.reporter.pass hostWait p.keyboard.tick.2.queues.keystrokes.toList).2 ∧
      p.typed <+: p.tick.typed ∧
      p.tick.typed ++ p.tick.unread =
        p.typed ++ p.keyboard.tick.2.queues.keystrokes.toList := by
  rw [tick_eq, (waits_host_tick h).1, Reporter.pass]
  generalize p.keyboard.tick.2 = kb'
  by_cases hone : hostWait = 1
  · rw [decide_eq_true hone, if_pos rfl, if_pos hone]
    exact poll_spec _
  · rw [decide_eq_false hone, if_neg Bool.false_ne_true, if_neg hone]
    exact ⟨rfl, rfl, List.prefix_refl _, rfl⟩

/-- A millisecond changes the keyboard as the keyboard does, but for the queue of the host. -/
theorem keyboard_tick (p : Polled τ) :
    ∃ queue, p.tick.keyboard =
        { p.keyboard.tick.2 with
          queues := { p.keyboard.tick.2.queues with keystrokes := queue } } ∧
      (p.keyboard.tick.2.queues.keystrokes.WellFormed → queue.WellFormed) := by
  rw [tick_eq]
  generalize p.keyboard.tick.2 = kb'
  split
  · exact ⟨_, rfl, p.reporter.wellFormed_respond⟩
  · exact ⟨_, rfl, id⟩

/-! ### The invariant of a history -/

/-- **The invariant of every history**: what was delivered for the host is what it has consumed and
what waits, the next poll and the next turn of the output are where they should be, and the host is
ahead in the race. -/
structure OnTime (p : Polled τ) (hostWait wait period : Nat) : Prop where
  kept : p.keyboard.delivered = p.typed ++ p.unread
  host : p.keyboard.scheduler.Waits .host hostWait Reporter.pollPeriod
  host_le : hostWait ≤ Reporter.pollPeriod
  paced : Paced p.keyboard wait period
  within : Within p.reporter p.keyboard hostWait wait 60

/-- **Some bytes will be consumed in so many milliseconds**, if they are not already: those that
still wait are the first of all that wait. -/
def Awaits (p : Polled τ) (hostWait : Nat) (bytes : List UInt8) (left : Nat) : Prop :=
  bytes <+: p.typed ∨
    ∃ rest new, p.unread = rest ++ new ∧ p.typed ++ rest = bytes ∧
      p.reporter.backlog hostWait rest ≤ left

variable {p : Polled τ}

omit [Ticker τ] in
/-- What spares the output keeps the invariant. -/
theorem OnTime.spares (h : p.OnTime hostWait wait period) (hs : p.keyboard.Spares kb') :
    ∃ wait' period', ({ p with keyboard := kb' } : Polled τ).OnTime hostWait wait' period' := by
  obtain ⟨wait', period', hpaced, hwithin⟩ := h.within.paced_spares h.paced hs
  have hunread : kb'.queues.keystrokes.toList = p.unread := congrArg Ring.toList hs.keystrokes
  refine ⟨wait', period', ?_, hs.others rfl h.host, h.host_le, hpaced, hwithin⟩
  show kb'.delivered = p.typed ++ kb'.queues.keystrokes.toList
  rw [hs.delivered, hunread, h.kept]

/-- **A millisecond keeps the invariant.** -/
theorem OnTime.tick (h : p.OnTime hostWait wait period) :
    ∃ wait' period',
      p.tick.OnTime (Scheduler.waitAfter hostWait Reporter.pollPeriod) wait' period' := by
  have hpos := h.host.wait_pos
  have hhost := (waits_host_tick h.host).2
  obtain ⟨wait', period', bytes, hpaced, hdelivered, hkeystrokes, hwithin⟩ :=
    h.within.tick h.paced hpos h.host_le
  obtain ⟨hreporter, hunread, -, hkept⟩ := tick_spec h.host
  obtain ⟨queue, hkeyboard, hqueue⟩ := p.keyboard_tick
  have hbacklog := p.reporter.backlog_pass hpos p.keyboard.tick.2.queues.keystrokes.toList
  rw [← hreporter, ← hunread] at hbacklog
  have hsame : p.tick.keyboard.delivered = p.keyboard.tick.2.delivered := by
    rw [hkeyboard]
    rfl
  have hsender : p.tick.keyboard.sender = p.keyboard.tick.2.sender := by rw [hkeyboard]
  have honTime : p.tick.OnTime (Scheduler.waitAfter hostWait Reporter.pollPeriod) wait' period' :=
    { kept := by
        rw [hkept, hsame, hdelivered, hkeystrokes, h.kept, List.append_assoc]
        rfl
      host := by
        rw [hkeyboard]
        exact hhost
      host_le := by
        rw [Scheduler.waitAfter]
        split
        · exact Nat.le_refl _
        · exact Nat.le_trans (Nat.sub_le _ _) h.host_le
      paced := by
        rw [hkeyboard]
        exact ⟨hqueue hpaced.wellFormed, hpaced.output, hpaced.unit⟩
      -- the slack that the millisecond has used up is what it took off the backlog
      within := by
        rw [Within] at hwithin ⊢
        change p.tick.reporter.backlog _ p.tick.unread = 0 ∨
          p.tick.reporter.backlog _ p.tick.unread + _ ≤ _
        rw [hsender, hbacklog]
        omega }
  exact ⟨wait', period', honTime⟩

/-- **A millisecond brings the consumption nearer.** -/
theorem Awaits.tick {bytes : List UInt8} {left : Nat} (ha : p.Awaits hostWait bytes left)
    (h : p.OnTime hostWait wait period) :
    p.tick.Awaits (Scheduler.waitAfter hostWait Reporter.pollPeriod) bytes (left - 1) := by
  have hpos := h.host.wait_pos
  obtain ⟨hreporter, hunread, htyped, hkept⟩ := tick_spec h.host
  rcases ha with hdone | ⟨rest, new, hrest, hbytes, hleft⟩
  · exact Or.inl (hdone.trans htyped)
  rcases eq_or_ne rest [] with rfl | hne
  · rw [List.append_nil] at hbytes
    exact Or.inl (hbytes ▸ htyped)
  -- what joins the queue in the millisecond comes behind `rest`, and a poll takes from the front
  obtain ⟨-, -, more, -, -, hkeystrokes, -⟩ := h.within.tick h.paced hpos h.host_le
  have hwaiting : p.keyboard.tick.2.queues.keystrokes.toList = rest ++ (new ++ more) := by
    rw [hkeystrokes, ← List.append_assoc, ← hrest]
    rfl
  rw [hwaiting, Reporter.pass_append _ _ hne] at hreporter hunread
  refine Or.inr ⟨(p.reporter.pass hostWait rest).2, new ++ more, hunread, ?_, ?_⟩
  · rw [hunread, hwaiting, ← List.append_assoc p.tick.typed, ← List.append_assoc p.typed] at hkept
    exact (List.append_cancel_right hkept).trans hbytes
  · have hbacklog := p.reporter.backlog_pass hpos rest
    rw [← hreporter] at hbacklog
    omega

/-- The milliseconds in an act. -/
def Act.millis : Act → Nat
  | .tick => 1
  | .request _ | .queueEdge _ => 0

/-- What an edge does while it waits in its queue spares the output. -/
theorem spares_queueEdge (kb : Keyboard τ) (e : Edge) : kb.Spares (kb.operate (.queueEdge e)) :=
  .of_eq (fun h => ⟨h.paddles.push e, h.symbols, h.chars, h.keystrokes, h.menu⟩) rfl rfl rfl rfl

/-- **Every act keeps the invariant**, and the milliseconds among them bring the consumption nearer
of whatever bytes. -/
theorem OnTime.act (h : p.OnTime hostWait wait period) (a : Act) :
    ∃ hostWait' wait' period', (p.act a).OnTime hostWait' wait' period' ∧
      ∀ bytes left, p.Awaits hostWait bytes left →
        (p.act a).Awaits hostWait' bytes (left - a.millis) := by
  cases a with
  | tick =>
    obtain ⟨wait', period', htick⟩ := h.tick
    exact ⟨_, wait', period', htick, fun _ _ ha => ha.tick h⟩
  | request r =>
    have hs := Keyboard.spares_handle p.keyboard r
    obtain ⟨wait', period', hrequest⟩ := h.spares hs
    refine ⟨hostWait, wait', period', hrequest, ?_⟩
    rintro bytes left (hdone | ⟨rest, new, hrest, htyped, hleft⟩)
    · exact Or.inl hdone
    · have hunread := congrArg Ring.toList hs.keystrokes
      exact Or.inr ⟨rest, new, hunread.trans hrest, htyped, hleft⟩
  | queueEdge e =>
    obtain ⟨wait', period', hedge⟩ := h.spares (spares_queueEdge p.keyboard e)
    exact ⟨hostWait, wait', period', hedge, fun _ _ ha => ha⟩

/-- **Every history keeps the invariant.** -/
theorem OnTime.run (h : p.OnTime hostWait wait period) (acts : List Act) :
    ∃ hostWait' wait' period', (p.run acts).OnTime hostWait' wait' period' ∧
      ∀ bytes left, p.Awaits hostWait bytes left →
        (p.run acts).Awaits hostWait' bytes (left - acts.count .tick) := by
  induction acts generalizing p hostWait wait period with
  | nil => exact ⟨hostWait, wait, period, h, fun _ _ ha => ha⟩
  | cons a acts ih =>
    obtain ⟨_, _, _, hact, hawaits⟩ := h.act a
    obtain ⟨hostWait', wait', period', hrun, hmore⟩ := ih hact
    refine ⟨hostWait', wait', period', hrun, ?_⟩
    intro bytes left ha
    have hcount : (a :: acts).count .tick = a.millis + acts.count .tick := by
      cases a with
      | tick => rw [List.count_cons_self, Nat.add_comm, Act.millis]
      | request | queueEdge =>
        rw [List.count_cons_of_ne (by rintro ⟨⟩), Act.millis, Nat.zero_add]
    rw [hcount, ← Nat.sub_sub]
    exact hmore bytes _ (hawaits bytes left ha)

/-! ### The result -/

/-- A keyboard that was just started, and its host, are on time. -/
theorem onTime_begin {ticker : τ} {faults : FaultRegister} {settings : Settings} {log : Logbook}
    (hstart : (Keyboard.ofParts ticker {} faults settings log).start = (.ok (), kb)) :
    ∃ hostWait wait period, (begin kb).OnTime hostWait wait period := by
  obtain ⟨wait, period, hwaits⟩ := Keyboard.scheduled_of_start hstart
  have hstarted : (Keyboard.ofParts ticker {} faults settings log).Spares kb := by
    have hspares := Keyboard.spares_start (Keyboard.ofParts ticker {} faults settings log)
    rwa [hstart] at hspares
  have hs := (Keyboard.spares_reload _).trans hstarted
  have hunread : (begin kb).unread = [] := congrArg Ring.toList hs.keystrokes
  have hidle : (begin kb).keyboard.sender.state = .idle := hs.state
  refine ⟨10, wait, period, ?_, ?_, Nat.le_refl _, ?_, ?_⟩
  · rw [hunread]
    exact hs.delivered
  · exact Scheduler.waits_register kb.scheduler .host (by decide)
  · refine ⟨?_, hwaits.register_of_ne (by decide) _, fun hc => absurd hidle hc⟩
    exact hs.keystrokes ▸ Ring.wellFormed_empty 8 0 (by decide)
  · refine Or.inl ?_
    show (begin kb).reporter.backlog 10 (begin kb).unread = 0
    rw [hunread]
    rfl

omit [Ticker τ] in
/-- Whatever waits is consumed in a hundred and sixty milliseconds: two polls for each of at most
eight bytes. -/
theorem OnTime.awaits (h : p.OnTime hostWait wait period) :
    p.Awaits hostWait p.keyboard.delivered 160 := by
  refine Or.inr ⟨p.unread, [], (List.append_nil _).symm, h.kept.symm, ?_⟩
  have hpolls := p.reporter.polls_le p.unread
  have hlength : p.unread.length ≤ 8 := by
    rw [unread, Ring.length_toList]
    exact h.paced.wellFormed.count_le
  have hle := h.host_le
  simp only [Reporter.backlog, Reporter.pollPeriod] at hle ⊢
  split <;> omega

omit [Ticker τ] in
/-- When no time is left the bytes have been consumed. -/
theorem Awaits.prefix_typed {bytes : List UInt8} (ha : p.Awaits hostWait bytes 0)
    (hpos : 0 < hostWait) : bytes <+: p.typed := by
  rcases ha with hdone | ⟨rest, new, -, hbytes, hleft⟩
  · exact hdone
  · rw [(Reporter.backlog_eq_zero_iff hpos).mp (Nat.le_zero.mp hleft), List.append_nil] at hbytes
    subst hbytes
    exact List.prefix_refl p.typed

/-- **No keystroke is lost.** A keyboard is built over fresh queues and started, its host polls it
every ten milliseconds, and then anything is asked of it, contacts queue edges and time passes, in
any order. At any time the bytes that were delivered for the host are those that it has consumed,
and after them those that wait in the queue: none was overwritten. And as soon as a hundred and
sixty milliseconds more have passed, whatever else happens in between, the host has consumed all of
them. -/
theorem delivered_run {ticker : τ} {faults : FaultRegister} {settings : Settings} {log : Logbook}
    (hstart : (Keyboard.ofParts ticker {} faults settings log).start = (.ok (), kb))
    (acts : List Act) :
    ((begin kb).run acts).keyboard.delivered =
        ((begin kb).run acts).typed ++ ((begin kb).run acts).unread ∧
      ∀ more : List Act, 160 ≤ more.count .tick →
        ((begin kb).run acts).keyboard.delivered <+: ((begin kb).run (acts ++ more)).typed := by
  obtain ⟨_, _, _, hbegin⟩ := onTime_begin hstart
  obtain ⟨hostWait, wait, period, hrun, -⟩ := hbegin.run acts
  refine ⟨hrun.kept, ?_⟩
  intro more hmore
  obtain ⟨hostWait', wait', period', hlater, hawaits⟩ := hrun.run more
  have hdone := hawaits _ 160 hrun.awaits
  rw [Nat.sub_eq_zero_of_le hmore] at hdone
  rw [run_append]
  exact hdone.prefix_typed hlater.host.wait_pos

/-- A new keyboard is set to its highest speed and given the letter e. Forty milliseconds later that
is delivered, and after a hundred and sixty more it is typed. -/
theorem delivered_run_e :
    let started := begin (Keyboard.fresh PolledTicker.free).start.2
    let acts := .request (.tune (.wpm 99)) :: .request (.send [0x65]) :: List.replicate 40 .tick
    (started.run acts).keyboard.delivered = [0x65] ∧
      [0x65] <+: (started.run (acts ++ List.replicate 160 .tick)).typed := by
  intro started acts
  have hstart : (Keyboard.ofParts PolledTicker.free {} .fresh .standard .empty).start =
      (.ok (), (Keyboard.fresh PolledTicker.free).start.2) := rfl
  have hdelivered : (started.run acts).keyboard.delivered = [0x65] := by decide +kernel
  have htyped := (delivered_run hstart acts).2 (List.replicate 160 .tick)
    (Nat.le_of_eq List.count_replicate_self.symm)
  exact ⟨hdelivered, hdelivered ▸ htyped⟩

end Polled

end MorseKeyboard
