import MorseKeyboard.Proofs.Scheduler.Waiting
import MorseKeyboard.Report
import MorseKeyboard.Ring.Lemmas

/-!
# Polls of the host

A poll consumes a byte unless it is the byte consumed by the poll before, which takes a release in
between. So what a queue costs is a number of polls, one or two for each byte
(`MorseKeyboard.Reporter.polls`), and **every poll lowers it by one**
(`MorseKeyboard.Reporter.polls_pollOf`).

The host polls every ten milliseconds. How many milliseconds a queue costs is its *backlog*
(`MorseKeyboard.Reporter.backlog`), and **every millisecond lowers it by one**
(`MorseKeyboard.Reporter.backlog_pass`), whether there is a poll in it or not; a byte that joins the
queue raises it by twenty at most (`MorseKeyboard.Reporter.backlog_append_le`).
-/

namespace MorseKeyboard.Reporter

/-! ### A poll -/

/-- What a poll does to the reporter and to the bytes that wait. -/
def pollOf (r : Reporter) : List UInt8 → Reporter × List UInt8
  | [] => (fresh, [])
  | byte :: bytes =>
    if r.last = some byte then (fresh, byte :: bytes) else ({ last := some byte }, bytes)

/-- The polls that it takes to consume some bytes. -/
def polls (r : Reporter) : List UInt8 → Nat
  | [] => 0
  | byte :: bytes => (if r.last = some byte then 2 else 1) + polls { last := some byte } bytes

/-- **Answering a poll is a poll of the bytes in the queue.** -/
theorem respond_eq_pollOf (r : Reporter) (queue : KeystrokeRing) :
    (r.respond queue).2.1 = (r.pollOf queue.toList).1 ∧
      (r.respond queue).2.2.toList = (r.pollOf queue.toList).2 := by
  rcases hp : queue.pop? with _ | ⟨byte, rest⟩
  · rw [respond, hp, Ring.pop?_eq_none_iff.mp hp]
    exact ⟨rfl, rfl⟩
  · rw [respond, hp, Ring.toList_of_pop? hp, pollOf]
    dsimp only
    split
    · exact ⟨rfl, Ring.toList_of_pop? hp⟩
    · exact ⟨rfl, rfl⟩

theorem wellFormed_respond (r : Reporter) {queue : KeystrokeRing} (h : queue.WellFormed) :
    (r.respond queue).2.2.WellFormed := by
  rcases hp : queue.pop? with _ | ⟨byte, rest⟩
  · rw [respond, hp]
    exact h
  · rw [respond, hp]
    dsimp only
    split
    · exact h
    · exact h.of_pop? hp

/-- A poll takes bytes from the front. -/
theorem pollOf_suffix (r : Reporter) (bytes : List UInt8) : (r.pollOf bytes).2 <:+ bytes := by
  cases bytes with
  | nil => exact List.suffix_refl []
  | cons byte bytes =>
    rw [pollOf]
    split
    · exact List.suffix_refl _
    · exact List.suffix_cons byte bytes

/-- What waits behind other bytes does not matter to a poll. -/
theorem pollOf_append (r : Reporter) {bytes : List UInt8} (h : bytes ≠ []) (more : List UInt8) :
    r.pollOf (bytes ++ more) = ((r.pollOf bytes).1, (r.pollOf bytes).2 ++ more) := by
  obtain ⟨byte, bytes, rfl⟩ := List.exists_cons_of_ne_nil h
  rw [List.cons_append, pollOf, pollOf]
  split <;> rfl

/-! ### How many polls a queue costs -/

/-- **A poll lowers the cost by one.** -/
theorem polls_pollOf (r : Reporter) (bytes : List UInt8) :
    (r.pollOf bytes).1.polls (r.pollOf bytes).2 = r.polls bytes - 1 := by
  cases bytes with
  | nil => rfl
  | cons byte bytes =>
    by_cases hlast : r.last = some byte
    -- the release leaves the byte, and the key is free for it in the next poll
    · have hfresh : fresh.last ≠ some byte := by rintro ⟨⟩
      rw [pollOf, if_pos hlast, polls, polls, if_pos hlast, if_neg hfresh]
      omega
    · rw [pollOf, if_neg hlast, polls, if_neg hlast]
      exact (Nat.add_sub_cancel_left _ _).symm

theorem polls_append_le (r : Reporter) (bytes more : List UInt8) :
    r.polls (bytes ++ more) ≤ r.polls bytes + 2 * more.length := by
  induction bytes generalizing r with
  | nil =>
    induction more generalizing r with
    | nil => exact Nat.zero_le _
    | cons byte more ih =>
      have := ih { last := some byte }
      rw [List.nil_append] at this ⊢
      rw [polls, polls, List.length_cons]
      rw [polls] at this
      split <;> omega
  | cons byte bytes ih =>
    have := ih { last := some byte }
    rw [List.cons_append, polls, polls]
    omega

/-- Every byte costs a poll. -/
theorem length_le_polls (r : Reporter) (bytes : List UInt8) : bytes.length ≤ r.polls bytes := by
  induction bytes generalizing r with
  | nil => exact Nat.zero_le _
  | cons byte bytes ih =>
    have := ih { last := some byte }
    rw [polls, List.length_cons]
    split <;> omega

theorem polls_le (r : Reporter) (bytes : List UInt8) : r.polls bytes ≤ 2 * bytes.length := by
  have := polls_append_le r [] bytes
  rwa [List.nil_append, polls, Nat.zero_add] at this

/-! ### How many milliseconds a queue costs -/

/-- The milliseconds between two polls. -/
def pollPeriod : Nat := 10

/-- **The milliseconds until all of some bytes are consumed**, if the next poll is in `wait` of
them. -/
def backlog (r : Reporter) (wait : Nat) (bytes : List UInt8) : Nat :=
  if r.polls bytes = 0 then 0 else wait + pollPeriod * (r.polls bytes - 1)

theorem backlog_eq_zero_iff {r : Reporter} {wait : Nat} (hwait : 0 < wait) {bytes : List UInt8} :
    r.backlog wait bytes = 0 ↔ bytes = [] := by
  constructor
  · intro h
    rw [backlog] at h
    split at h
    · next hpolls =>
      have := r.length_le_polls bytes
      exact List.length_eq_zero_iff.mp (by omega)
    · omega
  · rintro rfl
    rfl

/-- A byte that joins the queue raises the backlog by twenty at most. -/
theorem backlog_append_le (r : Reporter) {wait : Nat} (hwait : wait ≤ pollPeriod)
    (bytes more : List UInt8) :
    r.backlog wait (bytes ++ more) ≤ r.backlog wait bytes + 2 * pollPeriod * more.length := by
  have hpolls := r.polls_append_le bytes more
  simp only [backlog, pollPeriod] at hwait ⊢
  split <;> split <;> omega

/-- The bytes of a queue are at most as many as there are polls in the backlog. -/
theorem length_le_of_backlog_le {r : Reporter} {wait : Nat} (hwait : 0 < wait) {bytes : List UInt8}
    {k : Nat} (h : r.backlog wait bytes ≤ pollPeriod * k) : bytes.length ≤ k := by
  have hlength := r.length_le_polls bytes
  simp only [backlog, pollPeriod] at h
  split at h <;> omega

/-- What a millisecond does to the reporter and to the bytes that wait, if the next poll is in
`wait` of them. -/
def pass (r : Reporter) (wait : Nat) (bytes : List UInt8) : Reporter × List UInt8 :=
  if wait = 1 then r.pollOf bytes else (r, bytes)

/-- What waits behind other bytes does not matter in a millisecond. -/
theorem pass_append (r : Reporter) (wait : Nat) {bytes : List UInt8} (h : bytes ≠ [])
    (more : List UInt8) :
    r.pass wait (bytes ++ more) = ((r.pass wait bytes).1, (r.pass wait bytes).2 ++ more) := by
  rw [pass, pass]
  split
  · exact r.pollOf_append h more
  · rfl

/-- **Every millisecond lowers the backlog by one.** -/
theorem backlog_pass (r : Reporter) {wait : Nat} (hwait : 0 < wait) (bytes : List UInt8) :
    (r.pass wait bytes).1.backlog (Scheduler.waitAfter wait pollPeriod) (r.pass wait bytes).2 =
      r.backlog wait bytes - 1 := by
  rw [pass, Scheduler.waitAfter]
  split
  · next hone =>
    simp only [backlog, pollPeriod, r.polls_pollOf bytes]
    split <;> split <;> omega
  · simp only [backlog]
    split <;> omega

end MorseKeyboard.Reporter
