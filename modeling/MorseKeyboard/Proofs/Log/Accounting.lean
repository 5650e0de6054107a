import MorseKeyboard.Log.Logbook
import MorseKeyboard.Proofs.Log.Lines

/-!
# No record is lost without a word

A record is logged on one side of the logbook, at a level that passes or does not. The first 64
records that pass on a side since the log was last written out wait in its stream, and the others
are counted as rejected (`MorseKeyboard.Log.Stream.Accounts`). So whoever keeps a ledger of what
passed (`MorseKeyboard.Logbook.Ledger`) can tell what the next write-out gives: its number, its
lines, and the last line with the two counts if there is something to count.

**Every write-out of a run says what the ledger says** (`MorseKeyboard.Logbook.outputs_eq_settled`),
and the ledgers that are settled by the write-outs, together with the one still open, hold every
record that passed exactly once.
-/

namespace MorseKeyboard

open Log

/-! ### One stream -/

namespace Log.Stream

variable {n : Nat} {s : Stream n} {noted : List Entry} {most : Level} {time : UInt16}
  {level : Level} {pieces : List String}

/-- **A stream accounts for the entries noted in it** since it was last written out. -/
structure Accounts (s : Stream n) (noted : List Entry) : Prop where
  /-- It keeps the first of them, as many as there are slots. -/
  exists_keeps : ∃ pulled, s.Keeps pulled (noted.take n)
  /-- It counts the others. -/
  rejected_eq : s.rejected = UInt32.ofNat (noted.length - n)
  legible : ∀ e ∈ noted, Legible e.message

/-- Nothing is noted when nothing waits and nothing was rejected. -/
theorem Keeps.accounts_nil {pulled : Nat} (h : s.Keeps pulled []) (hrejected : s.rejected = 0) :
    s.Accounts [] where
  exists_keeps := ⟨pulled, by rwa [List.take_nil]⟩
  rejected_eq := by
    rw [hrejected, List.length_nil, Nat.zero_sub]
    rfl
  legible _ he := absurd he List.not_mem_nil

/-- There is nothing to forget where nothing was rejected. -/
theorem forgetRejected_eq_self (h : ¬0 < s.rejected) : s.forgetRejected = s := by
  have hzero : s.rejected = 0 := by
    rw [UInt32.lt_iff_toNat_lt] at h
    exact UInt32.toNat.inj (Nat.eq_zero_of_not_pos h)
  rw [forgetRejected, ← hzero]

/-- A record of a level that does not pass is not noted. -/
theorem note_of_not_passes (hpass : level.passes most = false) :
    s.note most time level pieces = (false, s) :=
  push_of_not_passes (e := Entry.ofPieces time level pieces) hpass

namespace Accounts

theorem legible_concat (h : s.Accounts noted) {e : Entry} (he : Legible e.message) :
    ∀ f ∈ noted ++ [e], Legible f.message := by
  intro f hf
  rcases List.mem_append.mp hf with hold | hnew
  · exact h.legible f hold
  · rwa [List.mem_singleton.mp hnew]

theorem isFull_iff (h : s.Accounts noted) (hn : n < 2 ^ 64) :
    s.isFull = true ↔ n ≤ noted.length := by
  obtain ⟨pulled, hkeeps⟩ := h.exists_keeps
  rw [hkeeps.isFull_iff hn, List.length_take, min_eq_left_iff]

/-- An entry for which there is a slot is kept. -/
theorem store (h : s.Accounts noted) (hdvd : n ∣ 2 ^ 64) (hn : n < 2 ^ 64)
    (hroom : noted.length < n) {e : Entry} (he : Legible e.message) :
    (s.store e).Accounts (noted ++ [e]) where
  exists_keeps := by
    obtain ⟨pulled, hkeeps⟩ := h.exists_keeps
    rw [List.take_of_length_le (Nat.le_of_lt hroom)] at hkeeps
    have hstore := hkeeps.store_of_legible hdvd hn hroom he
    exact ⟨pulled, by rwa [List.take_of_length_le (by rw [List.length_append]; exact hroom)]⟩
  rejected_eq := by
    -- nothing was rejected before, and nothing is now
    have hnone : noted.length - n = 0 := Nat.sub_eq_zero_of_le (Nat.le_of_lt hroom)
    rw [List.length_append, List.length_singleton, Nat.sub_eq_zero_of_le hroom, ← hnone]
    exact h.rejected_eq
  legible := h.legible_concat he

/-- An entry for which there is no slot is counted. -/
theorem reject (h : s.Accounts noted) (hfull : n ≤ noted.length) {e : Entry}
    (he : Legible e.message) : s.reject.Accounts (noted ++ [e]) where
  exists_keeps := by
    obtain ⟨pulled, hkeeps⟩ := h.exists_keeps
    exact ⟨pulled, by rw [List.take_append_of_le_length hfull]; exact hkeeps.reject⟩
  rejected_eq := by
    rw [List.length_append, List.length_singleton, Nat.sub_add_comm hfull, UInt32.ofNat_add,
      ← h.rejected_eq]
    rfl
  legible := h.legible_concat he

/-- **An entry that passes is kept or counted.** -/
theorem push (h : s.Accounts noted) (hn : n < 2 ^ 64) (hdvd : n ∣ 2 ^ 64) {e : Entry}
    (he : Legible e.message) (hpass : e.level.passes most = true) :
    (s.push most e.time e.level e.message).2.Accounts (noted ++ [e]) := by
  cases hfull : s.isFull with
  | true =>
    rw [push_of_isFull hpass hfull]
    exact h.reject ((h.isFull_iff hn).mp hfull) he
  | false =>
    have hroom : noted.length < n := by
      rw [← Nat.not_le, ← h.isFull_iff hn, hfull]
      exact Bool.false_ne_true
    rw [push_of_not_isFull hpass hfull]
    exact h.store hdvd hn hroom he

theorem note (h : s.Accounts noted) (hn : n < 2 ^ 64) (hdvd : n ∣ 2 ^ 64)
    (hpass : level.passes most = true) :
    (s.note most time level pieces).2.Accounts (noted ++ [Entry.ofPieces time level pieces]) :=
  h.push hn hdvd (e := .ofPieces time level pieces) (Message.legible_ofPieces pieces) hpass

/-- **A write-out gives what is kept**, and leaves a stream that starts counting afresh. -/
theorem writeTo (h : s.Accounts noted) (hn : n < 2 ^ 64) {w : Writer} (hw : w.limit = none) :
    ∃ text last, s.writeTo w = ((noted.take n).length, { w with text := w.text ++ text }, last) ∧
      Text.bytes text = (noted.take n).flatMap Entry.line ∧
      last.rejected = UInt32.ofNat (noted.length - n) ∧ last.forgetRejected.Accounts [] := by
  obtain ⟨pulled, hkeeps⟩ := h.exists_keeps
  obtain ⟨text, last, hwrite, htext, hlast, hrejected⟩ :=
    hkeeps.writeTo hn (fun e he => h.legible e (List.mem_of_mem_take he)) hw
  have hnothing : last.forgetRejected.Keeps (pulled + (noted.take n).length) [] :=
    ⟨hlast.toCounts.congr rfl rfl, hlast.entryAt_eq⟩
  exact ⟨text, last, hwrite, htext, hrejected.trans h.rejected_eq, hnothing.accounts_nil rfl⟩

end Accounts

end Log.Stream

namespace Logbook

/-! ### What is done to a logbook -/

/-- Where a record is logged. -/
inductive Side where
  | interrupt
  | main
  deriving DecidableEq, Repr

/-- Something done to a logbook. -/
inductive Act where
  /-- Log a message put together from pieces. -/
  | log (side : Side) (time : UInt16) (level : Level) (pieces : List String)
  /-- Keep the records up to another level from now on. -/
  | setMost (most : Level)
  /-- Write out both streams into a writer that takes everything. -/
  | writeOut
  deriving DecidableEq, Repr

/-- The stream of a side. -/
def stream (b : Logbook) : Side → Stream capacity
  | .interrupt => b.interrupt
  | .main => b.main

/-- What becomes of a logbook in an act. -/
def act (b : Logbook) : Act → Logbook
  | .log .interrupt time level pieces => b.logInterrupt time level pieces
  | .log .main time level pieces => b.logMain time level pieces
  | .setMost most => { b with most }
  | .writeOut => b.writeOut.2.2

/-- What becomes of a logbook in one act after another. -/
def run (b : Logbook) (acts : List Act) : Logbook := acts.foldl act b

/-- The number and the text that an act gives, if it is a write-out. -/
def tells (b : Logbook) : Act → List (Nat × String)
  | .writeOut => [(b.writeOut.1, b.writeOut.2.1)]
  | _ => []

/-- The numbers and the texts of the write-outs in one act after another. -/
def outputs (b : Logbook) : List Act → List (Nat × String)
  | [] => []
  | a :: acts => b.tells a ++ (b.act a).outputs acts

/-! ### What ought to be told -/

/-- **The ledger of a logbook**: the filter, and what passed since the last write-out. -/
structure Ledger where
  most : Level := .info
  /-- The entries of either side that were of a level that passed when they were logged. -/
  noted : Side → List Entry := fun _ => []

namespace Ledger

/-- The ledger of an empty logbook. -/
def opening : Ledger := {}

/-- The ledger with one more entry on a side. -/
def note (l : Ledger) (side : Side) (e : Entry) : Ledger :=
  { l with noted := fun other => if other = side then l.noted side ++ [e] else l.noted other }

theorem noted_note (l : Ledger) (side : Side) (e : Entry) (other : Side) :
    (l.note side e).noted other = if other = side then l.noted side ++ [e] else l.noted other :=
  rfl

/-- What becomes of a ledger in an act. -/
def act (l : Ledger) : Act → Ledger
  | .log side time level pieces =>
    if level.passes l.most then l.note side (.ofPieces time level pieces) else l
  | .setMost most => { l with most }
  | .writeOut => { l with noted := fun _ => [] }

/-- What becomes of a ledger in one act after another. -/
def run (l : Ledger) (acts : List Act) : Ledger := acts.foldl act l

/-- The ledger that an act settles, if it is a write-out. -/
def settles (l : Ledger) : Act → List Ledger
  | .writeOut => [l]
  | _ => []

/-- The ledgers that are settled in one act after another. -/
def settled (l : Ledger) : List Act → List Ledger
  | [] => []
  | a :: acts => l.settles a ++ (l.act a).settled acts

/-- The entries that are printed: the first ones of the interrupt side, then those of the main
loop. -/
def printed (l : Ledger) : List Entry :=
  (l.noted .interrupt).take capacity ++ (l.noted .main).take capacity

/-- How many entries of a side are not printed. -/
def rejected (l : Ledger) (side : Side) : Nat := (l.noted side).length - capacity

/-- The line about the entries that are not printed, if there are any. -/
def notice (l : Ledger) : String :=
  if 0 < l.rejected .interrupt ∨ 0 < l.rejected .main then
    String.join ["[WARN] Dropped: ISR=", (l.rejected .interrupt).repr, ", MAIN=",
      (l.rejected .main).repr, "\n"]
  else ""

/-- The number and the bytes that a write-out ought to give. -/
def output (l : Ledger) : Nat × List UInt8 :=
  (l.printed.length, l.printed.flatMap Entry.line ++ Text.bytes l.notice)

end Ledger

/-- The entries of a side that are of a level that passes when they are logged. -/
def passed (side : Side) (most : Level) : List Act → List Entry
  | [] => []
  | .log other time level pieces :: acts =>
    (if other = side ∧ level.passes most then [Entry.ofPieces time level pieces] else []) ++
      passed side most acts
  | .setMost most :: acts => passed side most acts
  | .writeOut :: acts => passed side most acts

/-- **Every entry that passed is in one ledger**, those that are settled and the one that is still
open, and each of them in the order in which the entries were logged. -/
theorem Ledger.noted_append_passed (l : Ledger) (side : Side) (acts : List Act) :
    l.noted side ++ passed side l.most acts =
      (l.settled acts).flatMap (fun t => t.noted side) ++ (l.run acts).noted side := by
  induction acts generalizing l with
  | nil => exact List.append_nil _
  | cons a acts ih =>
    rw [settled, List.flatMap_append, List.append_assoc]
    rw [show l.run (a :: acts) = (l.act a).run acts from rfl, ← ih]
    cases a with
    | log other time level pieces =>
      have hnone : (l.settles (.log other time level pieces)).flatMap (fun t => t.noted side) = [] :=
        rfl
      rw [passed, hnone, List.nil_append, act, ← List.append_assoc]
      cases level.passes l.most with
      | false => simp
      | true => by_cases hside : other = side <;> simp [note, hside, eq_comm]
    | setMost most => rfl
    | writeOut => simp [passed, settles, act]

/-! ### A logbook and its ledger -/

variable {b : Logbook} {l : Ledger}

/-- A logbook accounts for what its ledger says. -/
structure Agrees (b : Logbook) (l : Ledger) : Prop where
  most_eq : b.most = l.most
  accounts (side : Side) : (b.stream side).Accounts (l.noted side)

theorem agrees_opening : empty.Agrees Ledger.opening where
  most_eq := rfl
  accounts side := by
    cases side with
    | interrupt => exact (Stream.keeps_empty _).accounts_nil rfl
    | main => exact (Stream.keeps_empty _).accounts_nil rfl

theorem stream_log (b : Logbook) (side other : Side) (time : UInt16) (level : Level)
    (pieces : List String) :
    (b.act (.log side time level pieces)).stream other =
      if other = side then ((b.stream side).note b.most time level pieces).2
      else b.stream other := by
  cases side <;> cases other <;> rfl

theorem most_log (b : Logbook) (side : Side) (time : UInt16) (level : Level)
    (pieces : List String) : (b.act (.log side time level pieces)).most = b.most := by
  cases side <;> rfl

/-- **A record is entered into the ledger just if it is kept or counted.** -/
theorem Agrees.log (h : b.Agrees l) (side : Side) (time : UInt16) (level : Level)
    (pieces : List String) :
    (b.act (.log side time level pieces)).Agrees (l.act (.log side time level pieces)) := by
  have hmost := (b.most_log side time level pieces).trans h.most_eq
  rw [Ledger.act]
  cases hpass : level.passes l.most with
  | false =>
    refine ⟨hmost, fun other => ?_⟩
    have hstream : (b.act (.log side time level pieces)).stream other = b.stream other := by
      rw [stream_log, h.most_eq, Stream.note_of_not_passes hpass]
      split
      · next heq => rw [heq]
      · rfl
    rw [hstream]
    exact h.accounts other
  | true =>
    refine ⟨hmost, fun other => ?_⟩
    rw [stream_log, if_pos rfl, Ledger.noted_note, h.most_eq]
    split
    · exact (h.accounts side).note (by decide) (by decide) hpass
    · exact h.accounts other

/-- **What a write-out gives**, and the logbook that it leaves: the last line is there if there is
something to count, and the counts are back at zero in either case. -/
theorem writeOut_eq {first second : Nat} {w₁ w₂ : Writer} {interrupt main : Stream capacity}
    (hinterrupt : b.interrupt.writeTo {} = (first, w₁, interrupt))
    (hmain : b.main.writeTo w₁ = (second, w₂, main)) :
    b.writeOut = (first + second,
      w₂.text ++ (if 0 < interrupt.rejected ∨ 0 < main.rejected then
        rejectedLine interrupt.rejected main.rejected else ""),
      { b with interrupt := interrupt.forgetRejected, main := main.forgetRejected }) := by
  simp only [writeOut, hinterrupt, hmain]
  split
  · rfl
  · next hnone =>
    rw [not_or] at hnone
    rw [String.append_empty, Stream.forgetRejected_eq_self hnone.1,
      Stream.forgetRejected_eq_self hnone.2]

/-- **A write-out says what the ledger says**, and both begin afresh. -/
theorem Agrees.writeOut (h : b.Agrees l) (hfew : ∀ side, l.rejected side < 2 ^ 32) :
    (b.writeOut.1, Text.bytes b.writeOut.2.1) = l.output ∧
      b.writeOut.2.2.Agrees (l.act .writeOut) := by
  obtain ⟨text₁, interrupt, hwrite₁, htext₁, hrejected₁, haccounts₁⟩ :=
    (h.accounts .interrupt).writeTo (by decide) (w := {}) rfl
  obtain ⟨text₂, main, hwrite₂, htext₂, hrejected₂, haccounts₂⟩ :=
    (h.accounts .main).writeTo (by decide) (w := { text := "" ++ text₁ }) rfl
  have hcount (side : Side) :
      (UInt32.ofNat (l.rejected side)).toNat = l.rejected side :=
    UInt32.toNat_ofNat_of_lt' (hfew side)
  have hpositive (side : Side) : 0 < UInt32.ofNat (l.rejected side) ↔ 0 < l.rejected side := by
    rw [UInt32.lt_iff_toNat_lt, hcount]
    rfl
  have hnotice : (if 0 < interrupt.rejected ∨ 0 < main.rejected then
      rejectedLine interrupt.rejected main.rejected else "") = l.notice := by
    rw [show interrupt.rejected = UInt32.ofNat (l.rejected .interrupt) from hrejected₁,
      show main.rejected = UInt32.ofNat (l.rejected .main) from hrejected₂, Ledger.notice]
    simp only [hpositive, rejectedLine, hcount]
  rw [writeOut_eq hwrite₁ hwrite₂, hnotice]
  refine ⟨?_, h.most_eq, fun side => ?_⟩
  · rw [Ledger.output, Ledger.printed, List.length_append, List.flatMap_append]
    simp only [Text.bytes_append, htext₁, htext₂]
    rfl
  · cases side with
    | interrupt => exact haccounts₁
    | main => exact haccounts₂

/-! ### Runs -/

/-- **What an act tells is what the ledgers say that it settles.** -/
theorem Agrees.act (h : b.Agrees l) (a : Act)
    (hfew : ∀ t ∈ l.settles a, ∀ side, t.rejected side < 2 ^ 32) :
    (b.act a).Agrees (l.act a) ∧
      (b.tells a).map (Prod.map id Text.bytes) = (l.settles a).map Ledger.output := by
  cases a with
  | log side time level pieces => exact ⟨h.log side time level pieces, rfl⟩
  | setMost most => exact ⟨⟨rfl, h.accounts⟩, rfl⟩
  | writeOut =>
    obtain ⟨houtput, hafter⟩ := h.writeOut (hfew l List.mem_cons_self)
    exact ⟨hafter, congrArg (fun o => [o]) houtput⟩

theorem Agrees.run (h : b.Agrees l) (acts : List Act)
    (hfew : ∀ t ∈ l.settled acts, ∀ side, t.rejected side < 2 ^ 32) :
    (b.run acts).Agrees (l.run acts) ∧
      (b.outputs acts).map (Prod.map id Text.bytes) = (l.settled acts).map Ledger.output := by
  induction acts generalizing b l with
  | nil => exact ⟨h, rfl⟩
  | cons a acts ih =>
    rw [Ledger.settled] at hfew ⊢
    obtain ⟨hact, htells⟩ := h.act a fun t ht => hfew t (List.mem_append_left _ ht)
    obtain ⟨hrun, houtputs⟩ := ih hact fun t ht => hfew t (List.mem_append_right _ ht)
    rw [outputs, List.map_append, List.map_append, htells, houtputs]
    exact ⟨hrun, rfl⟩

/-- **No record is lost without a word.** Whatever is logged on either side, however the filter
changes in between and whenever the log is written out: every write-out gives the number, the lines
and the notice that the ledger says, as long as the counts of rejected records fit 32 bits. Every
entry that passed is in one ledger, and what the open ledger says is to be printed is what waits. -/
theorem outputs_eq_settled (acts : List Act)
    (hfew : ∀ t ∈ Ledger.opening.settled acts, ∀ side, t.rejected side < 2 ^ 32) :
    (empty.outputs acts).map (Prod.map id Text.bytes) =
        (Ledger.opening.settled acts).map Ledger.output ∧
      (∀ side, passed side .info acts =
        (Ledger.opening.settled acts).flatMap (fun t => t.noted side) ++
          (Ledger.opening.run acts).noted side) ∧
      ∀ side, ((empty.run acts).stream side).contents =
        ((Ledger.opening.run acts).noted side).take capacity := by
  obtain ⟨hagrees, houtputs⟩ := agrees_opening.run acts hfew
  refine ⟨houtputs, fun side => ?_, fun side => ?_⟩
  · exact Ledger.opening.noted_append_passed side acts
  · obtain ⟨pulled, hkeeps⟩ := (hagrees.accounts side).exists_keeps
    exact hkeeps.contents_eq (by decide)

/-- A message of the main loop, then one warning more than fits, and something that does not pass.
The next time there is nothing to count. -/
theorem outputs_eq_settled_crowded :
    let acts : List Act := .log .main 8 .info ["up"] ::
      List.replicate 65 (.log .interrupt 9 .warn ["late ", "key"]) ++
        [.log .main 9 .debug ["idle"], .writeOut, .log .main 10 .error ["down"], .writeOut]
    (∀ t ∈ Ledger.opening.settled acts, ∀ side, t.rejected side < 2 ^ 32) ∧
      (empty.outputs acts).map (Prod.map id Text.bytes) =
        [(65, (List.replicate 64 "[    9] WARN: late key\n" ++
          ["[    8] INFO: up\n", "[WARN] Dropped: ISR=1, MAIN=0\n"]).flatMap Text.bytes),
          (1, Text.bytes "[   10] ERROR: down\n")] := by
  intro acts
  have hboth : ∀ t ∈ Ledger.opening.settled acts,
      t.rejected .interrupt < 2 ^ 32 ∧ t.rejected .main < 2 ^ 32 := by
    decide +kernel
  have hfew : ∀ t ∈ Ledger.opening.settled acts, ∀ side, t.rejected side < 2 ^ 32 := by
    intro t ht side
    cases side with
    | interrupt => exact (hboth t ht).1
    | main => exact (hboth t ht).2
  refine ⟨hfew, ?_⟩
  rw [(outputs_eq_settled acts hfew).1]
  decide +kernel

end Logbook

end MorseKeyboard
