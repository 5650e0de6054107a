import Mathlib.Data.List.Chain
import Mathlib.Data.List.Pairwise
import MorseKeyboard.Console.Session
import MorseKeyboard.Proofs.Polling

/-!
# What the host types

Bytes join the queue of the host, and the host polls, in any order
(`MorseKeyboard.Console.Traffic`). A poll is answered with a report, and the text of the session is
made from the reports. A key has to be released before it is pressed again, so a poll may leave its
byte in the queue; and a report is empty if nothing waits, if a key is released, or if the byte has
no key.

`MorseKeyboard.Console.Session.Answered` lists what a poll can do. From the list it is seen that
every poll reports, and types, the bytes that it takes from the queue, if they have a key
(`MorseKeyboard.Console.Session.filter_report`, `MorseKeyboard.Console.Session.typed_poll_eq`). So
**every byte is typed once, and in order**, whatever the traffic is
(`MorseKeyboard.Console.Session.reports_carryAll`). That no key is reported twice running rests on
the table of keys: **no two bytes have the same key** (`MorseKeyboard.Report.eq_of_ofByte?_eq`).
-/

namespace MorseKeyboard

/-! ### The table of keys -/

namespace Report

/-- A report may come behind another one: it is a different one, or they are both empty. -/
def MayFollow (before next : Report) : Prop := before = next → before.isEmpty = true

/-- The keys of all bytes, in the order of the bytes. -/
def keys : List Report := ((List.range 256).map UInt8.ofNat).filterMap ofByte?

theorem mem_range_map (byte : UInt8) : byte ∈ (List.range 256).map UInt8.ofNat :=
  List.mem_map.mpr ⟨byte.toNat, List.mem_range.mpr byte.toNat_lt, UInt8.ofNat_toNat⟩

/-- A byte with a key is reported with the key down. -/
theorem isEmpty_of_ofByte? {byte : UInt8} {r : Report} (h : ofByte? byte = some r) :
    r.isEmpty = false := by
  have hkeys : ∀ r ∈ keys, r.isEmpty = false := by decide +kernel
  exact hkeys r (List.mem_filterMap.mpr ⟨byte, mem_range_map byte, h⟩)

/-- **No two bytes have the same key.** -/
theorem eq_of_ofByte?_eq {byte other : UInt8} {r : Report} (h : ofByte? byte = some r)
    (h' : ofByte? other = some r) : byte = other := by
  have hkeys : keys.Pairwise (· ≠ ·) := by decide +kernel
  have hsymm : Std.Symm fun a b : UInt8 =>
      ∀ r, ofByte? a = some r → ∀ r', ofByte? b = some r' → r ≠ r' :=
    ⟨fun a b hab r hb r' ha => (hab r' ha r hb).symm⟩
  by_contra hne
  exact (List.pairwise_filterMap.mp hkeys).forall (mem_range_map byte) (mem_range_map other) hne
    r h r h' rfl

end Report

namespace Console

/-! ### Traffic -/

/-- What goes on between the keyboard and the host. -/
inductive Traffic where
  /-- A byte joins the queue of the host. -/
  | push (byte : UInt8)
  /-- The host polls. -/
  | poll
  deriving DecidableEq, Repr

/-- The byte that joins the queue, if one does. -/
def Traffic.pushed? : Traffic → Option UInt8
  | push byte => some byte
  | poll => none

namespace Session

/-- The bytes that wait for the host. -/
def unread (s : Session) : List UInt8 := s.keyboard.queues.keystrokes.toList

/-- The session when a byte has joined the queue of the host. -/
def queueByte (s : Session) (byte : UInt8) : Session :=
  let queues := s.keyboard.queues
  { s with
    keyboard := { s.keyboard with
      queues := { queues with keystrokes := queues.keystrokes.push byte } } }

/-- The session after one piece of traffic. -/
def carry (s : Session) : Traffic → Session
  | .push byte => s.queueByte byte
  | .poll => s.poll

/-- The session after some traffic. -/
def carryAll (s : Session) (traffic : List Traffic) : Session := traffic.foldl carry s

/-- The report with which a poll is answered. -/
def report (s : Session) : Report := (s.reporter.respond s.keyboard.queues.keystrokes).1

/-- The reports with which the polls of some traffic are answered. -/
def reports (s : Session) : List Traffic → List Report
  | [] => []
  | .push byte :: traffic => (s.queueByte byte).reports traffic
  | .poll :: traffic => s.report :: s.poll.reports traffic

/-- The bytes that a poll takes from the front of the queue. -/
def taken (s : Session) : List UInt8 := s.unread.take (s.unread.length - s.poll.unread.length)

/-- The bytes that the polls of some traffic take from the queue. -/
def consumed (s : Session) : List Traffic → List UInt8
  | [] => []
  | .push byte :: traffic => (s.queueByte byte).consumed traffic
  | .poll :: traffic => s.taken ++ s.poll.consumed traffic

/-- Whether no byte of some traffic joins a full queue. -/
def hasRoom (s : Session) : List Traffic → Bool
  | [] => true
  | .push byte :: traffic =>
    !s.keyboard.queues.keystrokes.isFull && (s.queueByte byte).hasRoom traffic
  | .poll :: traffic => s.poll.hasRoom traffic

/-! ### What a poll does -/

variable {s : Session}

theorem unread_poll (s : Session) : s.poll.unread = (s.reporter.pollOf s.unread).2 :=
  (s.reporter.respond_eq_pollOf s.keyboard.queues.keystrokes).2

theorem reporter_poll (s : Session) : s.poll.reporter = (s.reporter.pollOf s.unread).1 :=
  (s.reporter.respond_eq_pollOf s.keyboard.queues.keystrokes).1

/-- The report of a poll is that of the byte at the front, unless it has to be released first. -/
theorem report_eq (s : Session) :
    s.report = match s.unread with
      | [] => .empty
      | byte :: _ => if s.reporter.last = some byte then .empty
        else (Report.ofByte? byte).getD .empty := by
  rw [report, Reporter.respond, unread]
  rcases hp : s.keyboard.queues.keystrokes.pop? with _ | ⟨byte, rest⟩
  · rw [Ring.pop?_eq_none_iff.mp hp]
  · rw [Ring.toList_of_pop? hp]
    dsimp only
    split <;> rfl

/-- The byte at the front is typed if the report is not empty. -/
theorem typed_poll (s : Session) :
    s.poll.typed = match s.unread with
      | [] => s.typed
      | byte :: _ => if s.report.isEmpty then s.typed else typeByte s.typed byte := by
  have hhead := s.keyboard.queues.keystrokes.peek?_eq_head?
  rw [poll, report, unread]
  dsimp only
  rw [hhead]
  rcases s.keyboard.queues.keystrokes.toList with _ | ⟨byte, rest⟩
  · rfl
  · rfl

/-- **Everything that a poll can do.** -/
inductive Answered (s : Session) : Prop
  /-- Nothing waits, and all keys are released. -/
  | idle (hunread : s.unread = []) (hnext : s.poll.unread = []) (hreport : s.report = .empty)
      (htyped : s.poll.typed = s.typed) (hlast : s.poll.reporter.last = none)
  /-- The byte at the front is the one that was consumed last: its key is released first. -/
  | release {byte : UInt8} {rest : List UInt8} (hunread : s.unread = byte :: rest)
      (hnext : s.poll.unread = byte :: rest) (hreport : s.report = .empty)
      (htyped : s.poll.typed = s.typed) (hlast : s.poll.reporter.last = none)
  /-- The byte at the front has no key. -/
  | skip {byte : UInt8} {rest : List UInt8} (hunread : s.unread = byte :: rest)
      (hkey : Report.ofByte? byte = none) (hnext : s.poll.unread = rest)
      (hreport : s.report = .empty) (htyped : s.poll.typed = s.typed)
  /-- The key of the byte at the front is pressed. -/
  | press {byte : UInt8} {rest : List UInt8} (hunread : s.unread = byte :: rest)
      (hfree : s.reporter.last ≠ some byte) (hkey : Report.ofByte? byte = some s.report)
      (hnext : s.poll.unread = rest) (htyped : s.poll.typed = typeByte s.typed byte)
      (hlast : s.poll.reporter.last = some byte)

theorem answered (s : Session) : s.Answered := by
  have hreport := s.report_eq
  have htyped := s.typed_poll
  have hunread := s.unread_poll
  have hreporter := s.reporter_poll
  rcases hqueue : s.unread with _ | ⟨byte, rest⟩ <;>
    simp only [hqueue, Reporter.pollOf] at hreport htyped hunread hreporter
  · exact .idle hqueue hunread hreport htyped (by rw [hreporter]; rfl)
  by_cases hlast : s.reporter.last = some byte
  · rw [if_pos hlast] at hreport hunread hreporter
    rw [hreport] at htyped
    exact .release hqueue hunread hreport htyped (by rw [hreporter]; rfl)
  rw [if_neg hlast] at hreport hunread hreporter
  rcases hkey : Report.ofByte? byte with _ | r
  · rw [hkey] at hreport
    rw [hreport] at htyped
    exact .skip hqueue hkey hunread hreport htyped
  · rw [hkey, Option.getD_some] at hreport
    rw [hreport, Report.isEmpty_of_ofByte? hkey] at htyped
    exact .press hqueue hlast (by rw [hkey, hreport]) hunread htyped (by rw [hreporter])

theorem taken_of_eq (h : s.poll.unread = s.unread) : s.taken = [] := by
  rw [taken, h, Nat.sub_self, List.take_zero]

theorem taken_of_cons {byte : UInt8} {rest : List UInt8} (hunread : s.unread = byte :: rest)
    (hnext : s.poll.unread = rest) : s.taken = [byte] := by
  rw [taken, hunread, hnext, List.length_cons, Nat.add_sub_cancel_left, List.take_one]
  rfl

/-- **A poll takes its bytes from the front of the queue.** -/
theorem taken_append (s : Session) : s.taken ++ s.poll.unread = s.unread := by
  cases s.answered with
  | idle hunread hnext | release hunread hnext =>
    rw [taken_of_eq (hnext.trans hunread.symm), hnext, hunread]
    rfl
  | skip hunread _ hnext | press hunread _ _ hnext =>
    rw [taken_of_cons hunread hnext, hnext, hunread]
    rfl

/-- **A poll reports the keys of the bytes that it takes.** -/
theorem filter_report (s : Session) :
    ([s.report].filter fun r => !r.isEmpty) = s.taken.filterMap Report.ofByte? := by
  cases s.answered with
  | idle hunread hnext hreport | release hunread hnext hreport =>
    rw [taken_of_eq (hnext.trans hunread.symm), hreport]
    rfl
  | skip hunread hkey hnext hreport =>
    rw [taken_of_cons hunread hnext, hreport, List.filterMap_cons_none hkey]
    rfl
  | press hunread _ hkey hnext =>
    rw [taken_of_cons hunread hnext, List.filterMap_cons_some hkey,
      List.filter_cons_of_pos (by rw [Report.isEmpty_of_ofByte? hkey]; rfl)]
    rfl

/-- **A poll types those of the bytes that it takes that have a key.** -/
theorem typed_poll_eq (s : Session) :
    s.poll.typed = (s.taken.filter fun byte => (Report.ofByte? byte).isSome).foldl typeByte
      s.typed := by
  cases s.answered with
  | idle hunread hnext _ htyped | release hunread hnext _ htyped =>
    rw [taken_of_eq (hnext.trans hunread.symm), htyped]
    rfl
  | skip hunread hkey hnext _ htyped =>
    rw [taken_of_cons hunread hnext, htyped, List.filter_cons_of_neg (by rw [hkey]; decide)]
    rfl
  | press hunread _ hkey hnext htyped =>
    rw [taken_of_cons hunread hnext, htyped, List.filter_cons_of_pos (by rw [hkey]; rfl)]
    rfl

theorem wellFormed_poll (h : s.keyboard.queues.keystrokes.WellFormed) :
    s.poll.keyboard.queues.keystrokes.WellFormed := s.reporter.wellFormed_respond h

/-! ### One piece of traffic after another -/

/-- **Every byte that joins the queue is consumed once and in order**, or still waits. -/
theorem consumed_append (h : s.keyboard.queues.keystrokes.WellFormed) {traffic : List Traffic}
    (hroom : s.hasRoom traffic = true) :
    s.consumed traffic ++ (s.carryAll traffic).unread =
      s.unread ++ traffic.filterMap Traffic.pushed? := by
  induction traffic generalizing s with
  | nil => exact (List.append_nil _).symm
  | cons t traffic ih =>
    cases t with
    | push byte =>
      obtain ⟨hfull, hrest⟩ := Bool.and_eq_true_iff.mp hroom
      have hlt : s.keyboard.queues.keystrokes.count < 8 := by
        refine Nat.lt_of_le_of_ne h.count_le fun hcount => ?_
        rw [Ring.isFull, hcount] at hfull
        cases hfull
      have hjoined : (s.queueByte byte).unread = s.unread ++ [byte] :=
        Ring.toList_push_of_lt h byte hlt
      have hnext := ih (s := s.queueByte byte) (h.push byte) hrest
      rw [hjoined, List.append_assoc] at hnext
      exact hnext
    | poll =>
      have hnext := ih (s := s.poll) (wellFormed_poll h) hroom
      show (s.taken ++ s.poll.consumed traffic) ++ (s.poll.carryAll traffic).unread = _
      rw [List.append_assoc, hnext, ← List.append_assoc, taken_append]
      rfl

/-- **The reports that are not empty are the keys of the consumed bytes.** -/
theorem filter_reports (s : Session) (traffic : List Traffic) :
    ((s.reports traffic).filter fun r => !r.isEmpty) =
      (s.consumed traffic).filterMap Report.ofByte? := by
  induction traffic generalizing s with
  | nil => rfl
  | cons t traffic ih =>
    cases t with
    | push byte => exact ih _
    | poll =>
      rw [reports, consumed, List.filterMap_append, ← filter_report, ← ih, ← List.filter_append]
      rfl

/-- **The text is made of the consumed bytes that have a key.** -/
theorem typed_carryAll (s : Session) (traffic : List Traffic) :
    (s.carryAll traffic).typed =
      ((s.consumed traffic).filter fun byte => (Report.ofByte? byte).isSome).foldl typeByte
        s.typed := by
  induction traffic generalizing s with
  | nil => rfl
  | cons t traffic ih =>
    cases t with
    | push byte => exact ih _
    | poll =>
      rw [consumed, List.filter_append, List.foldl_append, ← typed_poll_eq]
      exact ih s.poll

/-- What was reported last is a key that is still down, or all keys are up. -/
def Holds (s : Session) (before : Report) : Prop :=
  before.isEmpty = true ∨ ∃ byte, s.reporter.last = some byte ∧ Report.ofByte? byte = some before

/-- **A key is released before it is pressed again.** -/
theorem Holds.poll {before : Report} (h : s.Holds before) :
    before.MayFollow s.report ∧ s.poll.Holds s.report := by
  cases s.answered with
  | idle _ _ hreport | release _ _ hreport | skip _ _ _ hreport =>
    rw [hreport]
    exact ⟨fun heq => heq ▸ rfl, Or.inl rfl⟩
  | press _ hfree hkey _ _ hlast =>
    refine ⟨fun heq => ?_, Or.inr ⟨_, hlast, hkey⟩⟩
    rcases h with hempty | ⟨byte, hdown, hbefore⟩
    · exact hempty
    -- the same key means the same byte, and that one had to be released
    · rw [← heq] at hkey
      rw [Report.eq_of_ofByte?_eq hkey hbefore] at hfree
      exact absurd hdown hfree

theorem Holds.isChain_reports {before : Report} (h : s.Holds before) (traffic : List Traffic) :
    (before :: s.reports traffic).IsChain Report.MayFollow := by
  induction traffic generalizing s before with
  | nil => exact List.isChain_singleton _
  | cons t traffic ih =>
    cases t with
    | push byte => exact ih h
    | poll =>
      obtain ⟨hfollows, hnext⟩ := h.poll
      exact List.isChain_cons_cons.mpr ⟨hfollows, ih hnext⟩

/-! ### How long a byte waits -/

/-- Every poll brings the queue nearer to its end. -/
theorem polls_replicate (s : Session) (n : Nat) :
    (s.carryAll (List.replicate n .poll)).reporter.polls
        (s.carryAll (List.replicate n .poll)).unread = s.reporter.polls s.unread - n := by
  induction n generalizing s with
  | zero => rfl
  | succ n ih =>
    have hpoll : s.poll.reporter.polls s.poll.unread = s.reporter.polls s.unread - 1 := by
      rw [unread_poll, reporter_poll, Reporter.polls_pollOf]
    have hnext := ih s.poll
    rw [hpoll, Nat.sub_sub, Nat.add_comm 1 n] at hnext
    exact hnext

/-- **Two polls for each byte empty the queue.** -/
theorem unread_replicate (s : Session) {n : Nat} (hn : 2 * s.unread.length ≤ n) :
    (s.carryAll (List.replicate n .poll)).unread = [] := by
  have hcost := s.polls_replicate n
  have hmost := s.reporter.polls_le s.unread
  have hlength := (s.carryAll (List.replicate n .poll)).reporter.length_le_polls
    (s.carryAll (List.replicate n .poll)).unread
  exact List.length_eq_zero_iff.mp (by omega)

/-- **Every byte is typed once, and in order.** A session begins with a fresh reporter. Bytes join
the queue of the host, never when it is full, and the host polls, in any order. Then the bytes that
were waiting and those that joined are the bytes consumed and those that still wait. The reports
that are not empty are the keys of the consumed bytes, as far as they have one; no report is the
same as the one before it unless it is empty; two polls for each byte that waits empty the queue;
and the text is what the consumed bytes with a key type one after another, where a backspace takes a
character back. -/
theorem reports_carryAll (kb : Keyboard PolledTicker) (hkb : kb.queues.keystrokes.WellFormed)
    {traffic : List Traffic} (hroom : ({ keyboard := kb } : Session).hasRoom traffic = true) :
    let s : Session := { keyboard := kb }
    let last := s.carryAll traffic
    s.consumed traffic ++ last.unread = s.unread ++ traffic.filterMap Traffic.pushed? ∧
      ((s.reports traffic).filter fun r => !r.isEmpty) =
        (s.consumed traffic).filterMap Report.ofByte? ∧
      (s.reports traffic).IsChain Report.MayFollow ∧
      (∀ n, 2 * last.unread.length ≤ n →
        (last.carryAll (List.replicate n .poll)).unread = []) ∧
      last.typed = ((s.consumed traffic).filter fun byte =>
        (Report.ofByte? byte).isSome).foldl typeByte #[] := by
  intro s last
  have hfresh : s.Holds .empty := Or.inl rfl
  exact ⟨consumed_append hkb hroom, filter_reports s traffic, (hfresh.isChain_reports traffic).tail,
    fun n hn => last.unread_replicate hn, typed_carryAll s traffic⟩

/-- An o is typed twice, then comes a byte without a key and a backspace, which joins the queue
between the polls. -/
theorem reports_carryAll_backspace :
    let traffic : List Traffic :=
      [.push 0x6f, .push 0x6f, .push 0x00, .poll, .poll, .push 0x08, .poll, .poll, .poll]
    let s : Session := { keyboard := Keyboard.fresh PolledTicker.free }
    s.reports traffic =
        [.plain 0x12, .empty, .plain 0x12, .empty, .plain 0x2a] ∧
      s.consumed traffic = [0x6f, 0x6f, 0x00, 0x08] ∧ (s.carryAll traffic).typed = #['o'] := by
  intro traffic s
  have hroom : s.hasRoom traffic = true := by decide +kernel
  have hconsumed : s.consumed traffic = [0x6f, 0x6f, 0x00, 0x08] := by decide +kernel
  obtain ⟨-, -, -, -, htyped⟩ := reports_carryAll (Keyboard.fresh PolledTicker.free)
    (Ring.wellFormed_empty 8 0 (by decide)) hroom
  refine ⟨by decide +kernel, hconsumed, htyped.trans ?_⟩
  rw [show ({ keyboard := _ } : Session).consumed traffic = _ from hconsumed]
  decide +kernel

end Session

end Console

end MorseKeyboard
