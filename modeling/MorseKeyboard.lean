import MorseKeyboard.Main
import MorseKeyboard.Console.Script
import MorseKeyboard.Receiver
import MorseKeyboard.Ring.Lemmas
import MorseKeyboard.Log.Draft
import MorseKeyboard.Proofs.Sender.RoundTrip
import MorseKeyboard.Proofs.Sender.Keying
import MorseKeyboard.Proofs.Keyboard.Requests
import MorseKeyboard.Proofs.Keyboard.Millisecond
import MorseKeyboard.Proofs.Sender.Waveform
import MorseKeyboard.Proofs.Keyboard.Operation
import MorseKeyboard.Proofs.Keyboard.Waveform
import MorseKeyboard.Proofs.Polling
import MorseKeyboard.Proofs.Keyboard.Typing
import MorseKeyboard.Proofs.Keyer.Modes
import MorseKeyboard.Proofs.Keyer.Tapping
import MorseKeyboard.Proofs.Keyer.Presses
import MorseKeyboard.Proofs.Keyer.Spelling
import MorseKeyboard.Proofs.Keyer.Rhythm
import MorseKeyboard.Proofs.Keyboard.Retuning
import MorseKeyboard.Proofs.Keyboard.ChangeOver
import MorseKeyboard.Proofs.Keyboard.Beacon
import MorseKeyboard.Proofs.Keyboard.Paddling
import MorseKeyboard.Proofs.Keyboard.Rhythm
import MorseKeyboard.Proofs.Keyboard.Squeeze
import MorseKeyboard.Proofs.Scheduler.Firing
import MorseKeyboard.Proofs.Scheduler.Sleeping
import MorseKeyboard.Proofs.Scheduler.Ticking
import MorseKeyboard.Proofs.Keyboard.Routing
import MorseKeyboard.Proofs.Keyboard.Silence
import MorseKeyboard.Proofs.Keyboard.Parameters
import MorseKeyboard.Proofs.Reporting
import MorseKeyboard.Proofs.Hearing
import MorseKeyboard.Proofs.Deque
import MorseKeyboard.Proofs.Log.Order
import MorseKeyboard.Proofs.Log.Accounting
import MorseKeyboard.Proofs.Listening
import MorseKeyboard.Proofs.Sender.Relay
import MorseKeyboard.Proofs.Keyer.Mirror
import MorseKeyboard.Proofs.Keyer.Timetable
import MorseKeyboard.Proofs.Keyer.LetterSpace
import MorseKeyboard.Proofs.Keyer.Contacts
import MorseKeyboard.Proofs.Repeating
import MorseKeyboard.Proofs.Settings
import MorseKeyboard.Proofs.Faults
import MorseKeyboard.Proofs.Cutting
import MorseKeyboard.Proofs.Log.Pieces
import MorseKeyboard.Proofs.Log.Readable
import MorseKeyboard.Proofs.Keyboard.Announcing
import MorseKeyboard.Proofs.Keyboard.StoredTexts
import MorseKeyboard.Proofs.Log.Breakdown
import MorseKeyboard.Proofs.Words
import MorseKeyboard.Proofs.Console.Obeying
import MorseKeyboard.Proofs.Keyer.Counters
import MorseKeyboard.Proofs.Sender.Bounds
