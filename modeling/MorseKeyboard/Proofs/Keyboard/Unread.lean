import MorseKeyboard.Proofs.Keyboard.Beacon

/-!
# What a millisecond does not read

Three parts of a keyboard are of no concern to its jobs: the edges that wait, which are applied
before the clock advances; the register of faults; and the log of the main loop, which is written
and never read. Whatever stands there, **the jobs do the same**
(`MorseKeyboard.Keyboard.Blind`), and they leave it alone, apart from what they write into the log.
So a millisecond can be told without them (`MorseKeyboard.Keyboard.exists_elapse_withUnread`), and
it never touches the register of faults (`MorseKeyboard.Keyboard.faults_tick`).

It follows that an edge need not wait in the queue. A millisecond begins with the edges that wait,
in the order in which they were queued, and applying them at once just before comes to the same
(`MorseKeyboard.Keyboard.tick_queued_edges`).
-/

namespace MorseKeyboard.Keyboard

variable {τ : Type}

/-! ### Blind steps -/

/-- The keyboard with other edges waiting, another register of faults and another log of the main
loop. -/
def withUnread (kb : Keyboard τ) (paddles : EdgeRing) (faults : FaultRegister)
    (main : Log.Stream Logbook.capacity) : Keyboard τ :=
  { kb with queues := { kb.queues with paddles }, faults, log := { kb.log with main } }

/-- **A step that is blind** to the edges that wait, to the register of faults and to the log of the
main loop. Whatever they are, everything else becomes the same; the edges and the register stay what
they are, and the log is only written. -/
def Blind (step : Keyboard τ → Keyboard τ) : Prop :=
  ∀ kb, ∃ write : Log.Stream Logbook.capacity → Log.Stream Logbook.capacity,
    ∀ paddles faults main, step (kb.withUnread paddles faults main) =
      (step kb).withUnread paddles faults (write main)

/-- A step that does not even write into the log. -/
theorem Blind.of_eq {step : Keyboard τ → Keyboard τ}
    (h : ∀ (kb : Keyboard τ) paddles faults main, step (kb.withUnread paddles faults main) =
      (step kb).withUnread paddles faults main) : Blind step :=
  fun kb => ⟨id, h kb⟩

theorem Blind.comp {first second : Keyboard τ → Keyboard τ} (h : Blind first) (h' : Blind second) :
    Blind fun kb => second (first kb) := by
  intro kb
  obtain ⟨write, hfirst⟩ := h kb
  obtain ⟨more, hsecond⟩ := h' (first kb)
  refine ⟨fun main => more (write main), fun paddles faults main => ?_⟩
  calc second (first (kb.withUnread paddles faults main))
      = second ((first kb).withUnread paddles faults (write main)) :=
        congrArg second (hfirst paddles faults main)
    _ = (second (first kb)).withUnread paddles faults (more (write main)) :=
        hsecond paddles faults (write main)

/-- Blind steps one after another are blind. -/
theorem Blind.foldl {α : Type} {f : Keyboard τ → α → Keyboard τ} (hf : ∀ a, Blind fun kb => f kb a)
    (as : List α) : Blind fun kb => as.foldl f kb := by
  induction as with
  | nil => exact .of_eq fun _ _ _ _ => rfl
  | cons a as ih => exact (hf a).comp ih

/-- **A step may choose by what it reads** which of many blind steps it is. -/
theorem Blind.of_forall_eq {step : Keyboard τ → Keyboard τ}
    (h : ∀ kb : Keyboard τ, ∃ other, Blind other ∧ ∀ paddles faults main,
      step (kb.withUnread paddles faults main) = other (kb.withUnread paddles faults main)) :
    Blind step := by
  intro kb
  obtain ⟨other, hother, heq⟩ := h kb
  obtain ⟨write, hwrite⟩ := hother kb
  have hself : step kb = other kb := heq kb.queues.paddles kb.faults kb.log.main
  refine ⟨write, fun paddles faults main => ?_⟩
  rw [heq, hwrite, hself]

/-! ### The edges -/

theorem paddle_withUnread (kb : Keyboard τ) (e : Edge) (paddles : EdgeRing)
    (faults : FaultRegister) (main : Log.Stream Logbook.capacity) :
    (kb.withUnread paddles faults main).paddle e =
      (kb.paddle e).withUnread paddles faults main := by
  have hkeyer : (kb.withUnread paddles faults main).keyer = kb.keyer := rfl
  rw [paddle, paddle, Keyer.edgeOnto, Keyer.edgeOnto, hkeyer]
  -- the complaint about an impossible edge goes to the log of the interrupts
  cases kb.keyer.edge? e <;> rfl

theorem foldl_paddle_withUnread (kb : Keyboard τ) (edges : List Edge) (paddles : EdgeRing)
    (faults : FaultRegister) (main : Log.Stream Logbook.capacity) :
    edges.foldl paddle (kb.withUnread paddles faults main) =
      (edges.foldl paddle kb).withUnread paddles faults main :=
  List.foldl_hom (fun kb : Keyboard τ => kb.withUnread paddles faults main)
    fun kb e => paddle_withUnread kb e paddles faults main

/-- **The edges that wait are applied in their order**, as if they had not waited. -/
theorem applyEdges_withUnread (kb : Keyboard τ) (paddles : EdgeRing) (faults : FaultRegister)
    (main : Log.Stream Logbook.capacity) :
    (kb.withUnread paddles faults main).applyEdges =
      (paddles.toList.foldl paddle kb).withUnread paddles.drain.2 faults main := by
  show paddles.drain.1.foldl paddle (kb.withUnread paddles.drain.2 faults main) = _
  rw [paddles.toList_drain.1, foldl_paddle_withUnread]

/-! ### The jobs -/

theorem blind_tickKeyer : Blind (tickKeyer (τ := τ)) := .of_eq fun _ _ _ _ => rfl

theorem played_withUnread (kb : Keyboard τ) (t : Sender.Turn) (paddles : EdgeRing)
    (faults : FaultRegister) (main : Log.Stream Logbook.capacity) :
    (kb.withUnread paddles faults main).played t =
      (kb.played t).withUnread paddles faults main := by
  have htarget : (kb.withUnread paddles faults main).target = kb.target := rfl
  rw [played, played, htarget]
  cases kb.target <;> rfl

theorem blind_info (pieces : List String) : Blind fun kb : Keyboard τ => kb.info pieces :=
  fun kb => ⟨fun main => ({ kb.log with main }.info pieces).main, fun _ _ _ => rfl⟩

theorem blind_repeatSlot (slot : Nat) : Blind fun kb : Keyboard τ => kb.repeatSlot slot := by
  have hplay : Blind fun kb : Keyboard τ => kb.playSlot slot := .of_eq fun _ _ _ _ => rfl
  exact (blind_info _).comp hplay

theorem blind_repeatMessages : Blind (repeatMessages (τ := τ)) := by
  refine .of_forall_eq fun kb => ?_
  let due := (kb.repeater.passMinute kb.settings).1
  have hcount : Blind fun kb' : Keyboard τ =>
      { kb' with repeater := (kb.repeater.passMinute kb.settings).2 } := .of_eq fun _ _ _ _ => rfl
  rcases hmode : kb.inCommandMode with _ | _
  · exact ⟨_, hcount.comp (.foldl blind_repeatSlot due), fun _ _ _ =>
      if_pos (congrArg not hmode)⟩
  -- in command mode the number of the messages is logged, if there are any
  · have hskip : (!kb.inCommandMode) ≠ true := ne_true_of_eq_false (congrArg not hmode)
    rcases hdue : due.isEmpty with _ | _
    · exact ⟨_, hcount.comp (blind_info ["memory: ", due.length.repr, " repeat(s) skipped"]),
        fun _ _ _ => (if_neg hskip).trans (if_neg (ne_true_of_eq_false hdue))⟩
    · exact ⟨_, hcount, fun _ _ _ => (if_neg hskip).trans (if_pos hdue)⟩

variable [Ticker τ]

theorem setRate_withUnread (kb : Keyboard τ) (rate : Option Sender.Rate) (paddles : EdgeRing)
    (faults : FaultRegister) (main : Log.Stream Logbook.capacity) :
    (kb.withUnread paddles faults main).setRate rate =
      (kb.setRate rate).withUnread paddles faults main := by
  rcases rate with _ | _ | _ <;> rfl

theorem blind_playTurn : Blind (playTurn (τ := τ)) := by
  refine .of_eq fun kb paddles faults main => ?_
  rw [playTurn, playTurn, foldl_deliver, foldl_deliver]
  have hplayed := played_withUnread kb (kb.sender.advance kb.queues.chars kb.queues.symbols)
    paddles faults main
  exact (congrArg (setRate · _) hplayed).trans (setRate_withUnread _ _ _ _ _)

theorem blind_dispatch (slot : Slot) : Blind fun kb : Keyboard τ => kb.dispatch slot := by
  cases slot with
  | keyer => exact blind_tickKeyer
  | output => exact blind_playTurn
  | minute => exact blind_repeatMessages
  | debounce | host | light | watchdog => exact .of_eq fun _ _ _ _ => rfl

/-! ### Milliseconds -/

/-- A millisecond after the edges that waited were applied: the slots handed back, and the
keyboard. -/
def elapse (kb : Keyboard τ) : SlotSet × Keyboard τ :=
  let (due, kb) := kb.advanceClock
  (.ofPred fun slot => due.contains slot && !isOwn slot, due.toList.foldl dispatch kb)

theorem tick_eq_elapse (kb : Keyboard τ) : kb.tick = kb.applyEdges.elapse := rfl

/-- **From the edges on, a millisecond is blind.** -/
theorem exists_elapse_withUnread (kb : Keyboard τ) :
    ∃ write : Log.Stream Logbook.capacity → Log.Stream Logbook.capacity,
      ∀ paddles faults main, (kb.withUnread paddles faults main).elapse =
        (kb.elapse.1, kb.elapse.2.withUnread paddles faults (write main)) := by
  obtain ⟨write, hjobs⟩ := Blind.foldl blind_dispatch kb.advanceClock.1.toList kb.advanceClock.2
  exact ⟨write, fun paddles faults main => congrArg (Prod.mk _) (hjobs paddles faults main)⟩

/-- **A millisecond with edges that wait** is the edges, applied at once, and a millisecond without
them. What waits, the register of faults and the log are no concern of it. -/
theorem exists_tick_withUnread (kb : Keyboard τ) (edges : List Edge) :
    ∃ write : Log.Stream Logbook.capacity → Log.Stream Logbook.capacity,
      ∀ paddles faults main, paddles.toList = edges →
        let pressed := (edges.foldl paddle kb).elapse
        (kb.withUnread paddles faults main).tick =
          (pressed.1, pressed.2.withUnread paddles.drain.2 faults (write main)) := by
  obtain ⟨write, helapse⟩ := (edges.foldl paddle kb).exists_elapse_withUnread
  refine ⟨write, fun paddles faults main hedges => ?_⟩
  rw [tick_eq_elapse, applyEdges_withUnread, hedges, helapse]

/-- **A millisecond records no fault.** -/
theorem faults_tick (kb : Keyboard τ) : kb.tick.2.faults = kb.faults := by
  obtain ⟨write, htick⟩ := kb.exists_tick_withUnread kb.queues.paddles.toList
  have hself := htick kb.queues.paddles kb.faults kb.log.main rfl
  exact congrArg (fun r => r.2.faults) hself

/-! ### Edges that wait -/

omit [Ticker τ] in
/-- Applied at once, edges leave those that wait where they are. -/
theorem foldl_paddle_eq (kb : Keyboard τ) (edges : List Edge) :
    edges.foldl paddle kb =
      (edges.foldl paddle kb).withUnread kb.queues.paddles kb.faults kb.log.main :=
  kb.foldl_paddle_withUnread edges kb.queues.paddles kb.faults kb.log.main

theorem operated_queueEdge (kb : Keyboard τ) (edges : List Edge) :
    kb.operated (edges.map .queueEdge) =
      kb.withUnread (kb.queues.paddles.pushAll edges) kb.faults kb.log.main := by
  induction edges generalizing kb with
  | nil => rfl
  | cons e edges ih => exact ih _

theorem operated_edge (kb : Keyboard τ) (edges : List Edge) :
    kb.operated (edges.map fun e => .request (.edge e)) = edges.foldl paddle kb := by
  rw [operated, List.foldl_map]
  rfl

/-- **An edge that waits is as good as an edge that is applied at once.** Some edges, at most
sixteen of them and possible or not, are queued for a keyboard for which none waits, or they are
applied to it one after another. The next millisecond hands back the same slots in either case, and
leaves the same keyboard, with the same logs, the same signals and the same in every queue; no edge
waits any longer. -/
theorem tick_queued_edges {kb : Keyboard τ} (hkb : kb.queues.paddles.WellFormed)
    (hnone : kb.queues.paddles.toList = []) {edges : List Edge} (hedges : edges.length ≤ 16) :
    let queued := (kb.operated (edges.map .queueEdge)).tick
    let applied := (kb.operated (edges.map fun e => .request (.edge e))).tick
    queued.1 = applied.1 ∧
      queued.2 = { applied.2 with
        queues := { applied.2.queues with paddles := queued.2.queues.paddles } } ∧
      queued.2.queues.paddles.toList = [] ∧ applied.2.queues.paddles.toList = [] := by
  intro queued applied
  let waiting := kb.queues.paddles.pushAll edges
  let pressed := edges.foldl paddle kb
  have hpressed : pressed = pressed.withUnread kb.queues.paddles kb.faults kb.log.main :=
    kb.foldl_paddle_eq edges
  have hwaiting : waiting.toList = edges := by
    rw [Ring.toList_pushAll_of_length_le hkb (by rw [hnone]; simpa using hedges), hnone,
      List.nil_append]
  -- neither the edges that wait nor what has become of their queue is of concern from here on
  obtain ⟨write, helapse⟩ := pressed.exists_elapse_withUnread
  have hqueued : queued = (pressed.elapse.1,
      pressed.elapse.2.withUnread waiting.drain.2 kb.faults (write kb.log.main)) := by
    show (kb.operated _).tick = _
    rw [operated_queueEdge, tick_eq_elapse, applyEdges_withUnread, hwaiting, helapse]
  have happlied : applied = (pressed.elapse.1,
      pressed.elapse.2.withUnread kb.queues.paddles kb.faults (write kb.log.main)) := by
    have hidle : pressed.queues.paddles.isEmpty = true := by
      rw [hpressed]
      exact Ring.isEmpty_iff.mpr hnone
    show (kb.operated _).tick = _
    rw [operated_edge, tick_eq_elapse, applyEdges_of_isEmpty hidle, ← helapse, ← hpressed]
  rw [hqueued, happlied]
  exact ⟨rfl, rfl, waiting.toList_drain.2, hnone⟩

/-- The left contact bounces, and the right paddle, which is up, is let go. Whether these edges wait
or not, the keyer keys a dit in the next millisecond and has complained twice. -/
theorem tick_queued_edges_bounce :
    let kb := (fresh PolledTicker.free).start.2
    let edges : List Edge := [.press .left, .press .left, .release .right]
    let queued := (kb.operated (edges.map .queueEdge)).tick
    let applied := (kb.operated (edges.map fun e => .request (.edge e))).tick
    kb.queues.paddles.WellFormed ∧ kb.queues.paddles.toList = [] ∧ edges.length ≤ 16 ∧
      queued.1 = applied.1 ∧
      queued.2 = { applied.2 with
        queues := { applied.2.queues with paddles := queued.2.queues.paddles } } ∧
      applied.2.queues.symbols.toList = [.dit] ∧ applied.2.log.interrupt.waiting = 2 := by
  have hkb : (fresh PolledTicker.free).start.2.queues.paddles.WellFormed :=
    Queues.wellFormed_fresh.paddles
  have hnone : (fresh PolledTicker.free).start.2.queues.paddles.toList = [] := rfl
  have hedges : [Edge.press .left, .press .left, .release .right].length ≤ 16 := by decide
  obtain ⟨hfired, hqueued, -, -⟩ := tick_queued_edges hkb hnone hedges
  exact ⟨hkb, hnone, hedges, hfired, hqueued, by decide +kernel, by decide +kernel⟩

end MorseKeyboard.Keyboard
