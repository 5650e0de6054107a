import MorseKeyboard.Keyboard.Request

/-!
# What a request can do

Fifteen things may be asked of a keyboard, but there are only a few that it does in answer.
`MorseKeyboard.Keyboard.Handled` lists them: nothing, if the request is refused for its number; a
start; characters that are queued; settings that are changed, with a countdown that begins afresh or
with a reload of the parameters; a change-over; an edge. **Every request does one of them**
(`MorseKeyboard.Keyboard.handled_handle`), so what holds of all requests is proved by going through
the list, and the branches of the requests are not looked at again.
-/

namespace MorseKeyboard

/-- Whether a request queues characters to be played. -/
def Request.isSending : Request → Bool
  | send _ | play _ | playCallsign | announceOverruns => true
  | _ => false

namespace Keyboard

variable {τ : Type} [Ticker τ]

/-- **Everything that a request can do to a keyboard.** -/
inductive Handled (kb : Keyboard τ) : Request → Keyboard τ → Prop
  /-- It is refused for its number. -/
  | refuse {r : Request} : Handled kb r kb
  /-- The ticker is claimed, or the start is refused and recorded. -/
  | start : Handled kb .start kb.start.2
  /-- Characters are queued. A notice about overruns also acknowledges the fault, and if there is
  none to be played, no character is queued. -/
  | send {r : Request} (hr : r.isSending = true) (faults : FaultRegister) (bytes : List UInt8) :
      Handled kb r ({ kb with faults }.sendBytes bytes)
  /-- The settings change, and the countdown of a message may begin afresh. -/
  | store {r : Request} (settings : Settings) (repeater : Repeater) :
      Handled kb r { kb with settings, repeater }
  /-- The settings change, and their parameters are put into force. -/
  | reload {r : Request} (settings : Settings) : Handled kb r { kb with settings }.reload
  /-- Command mode is entered or left. -/
  | changeOver (enabled : Bool) : Handled kb (.changeOver enabled) (kb.changeOver enabled)
  /-- An edge is applied. -/
  | edge (e : Edge) : Handled kb (.edge e) (kb.paddle e)

omit [Ticker τ] in
/-- A request that may be refused does nothing if it is. -/
theorem snd_settle_ite (kb kb' : Keyboard τ) (accepted : Prop) [Decidable accepted]
    (refusal : Refusal) :
    (kb.settle (if accepted then .ok kb' else .error refusal)).2 =
      if accepted then kb' else kb := by
  split <;> rfl

theorem Handled.settle {kb kb' : Keyboard τ} {r : Request} (h : kb.Handled r kb') (accepted : Prop)
    [Decidable accepted] (refusal : Refusal) :
    kb.Handled r (kb.settle (if accepted then .ok kb' else .error refusal)).2 := by
  rw [snd_settle_ite]
  split
  · exact h
  · exact .refuse

theorem handled_announceOverruns (kb : Keyboard τ) :
    kb.Handled .announceOverruns kb.announceOverruns := by
  rw [announceOverruns]
  dsimp only
  split
  · exact .send rfl _ _
  · exact .send rfl _ []

/-- **Every request does one of the things on the list.** -/
theorem handled_handle (kb : Keyboard τ) (r : Request) : kb.Handled r (kb.handle r).2 := by
  cases r with
  | start => exact .start
  | reload => exact .reload kb.settings
  | send bytes => exact .send rfl kb.faults bytes
  | playCallsign => exact .send rfl kb.faults _
  | announceOverruns => exact handled_announceOverruns kb
  | storeCallsign text => exact .store _ kb.repeater
  | tune t => exact .reload _
  | exchangePaddles => exact .reload _
  | changeOver enabled => exact .changeOver enabled
  | edge e => exact .edge e
  | play slot => exact Handled.settle (.send rfl kb.faults _) _ _
  | storeMessage slot text => exact Handled.settle (.store _ kb.repeater) _ _
  | repeatMessage slot minutes => exact Handled.settle (.store _ _) _ _
  | recallPreset index => exact Handled.settle (.reload _) _ _
  | storePreset index => exact Handled.settle (.store _ kb.repeater) _ _

end Keyboard

end MorseKeyboard
