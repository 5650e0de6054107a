import MorseKeyboard.Keyboard.Request
import MorseKeyboard.Text.Blank
import MorseKeyboard.Text.Lines
import MorseKeyboard.Text.Number
import MorseKeyboard.Text.Quoted

/-!
# Commands

A line that the operator types is sent as code, unless it starts with a backslash: then it is a
command, one word up to the first blank, and what follows is its argument.

`MorseKeyboard.Console.Command.parse` reads a line and `MorseKeyboard.Console.execute` carries it
out. Reading never fails. A number that cannot be read stands for one out of range, and **it is the
keyboard that refuses or replaces what is out of range**; an unknown name stays in the command and
is shown back to the operator.
-/

namespace MorseKeyboard.Console

/-- What a line asks for. -/
inductive Command where
  /-- Leave. -/
  | quit
  /-- Show the commands. -/
  | help
  /-- A request that needs no answer if it is granted. -/
  | ask (r : Request)
  /-- Set the speed and show what it is then. -/
  | wpm (wpm : Nat)
  /-- Set the pitch and show what it is then. -/
  | hz (hz : Nat)
  /-- Exchange the paddles and show what the left one keys then. -/
  | swap
  /-- Show that there is no mode with this name. -/
  | unknownMode (name : List Char)
  /-- Show that there is no command with this name. -/
  | unknown (name : List Char)
  deriving DecidableEq, Repr

namespace Command

/-- The greatest number that names a slot or a preset, whether one exists or not. -/
def indexMax : Nat := UInt64.size - 1

/-- The characters up to the first blank, and those after it. -/
def splitWord (cs : List Char) : List Char × List Char :=
  (Text.splitFirst? ' ' cs).getD (cs, [])

/-- The slot or preset that an argument names by its first word. A word that is no number names none
that exists. -/
def index (arg : List Char) : Nat :=
  (Text.number? indexMax (splitWord arg).1).getD indexMax

/-- The minutes that an argument gives after its first word; none if they cannot be read. -/
def minutes (arg : List Char) : Nat :=
  (Text.number? 255 (Text.trimChars (splitWord arg).2)).getD 0

/-- The paddle that an argument names. -/
def paddle (arg : List Char) : Paddle := if arg.head? = some 'r' then .right else .left

/-- The command to set the mode that an argument names. -/
def keying (arg : List Char) : Command :=
  match Mode.ofName? (String.ofList arg) with
  | some m => .ask (.tune (.mode m))
  | none => .unknownMode arg

/-- The command of a name with an argument. -/
def ofName (name arg : List Char) : Command :=
  match String.ofList name with
  | "quit" => .quit
  | "help" => .help
  | "wpm" => .wpm ((Text.number? 255 arg).getD 0)
  | "hz" => .hz ((Text.number? 65535 arg).getD 0)
  | "mode" => keying arg
  | "swap" => .swap
  | "call" => .ask (.storeCallsign (String.ofList arg))
  | "de" => .ask .playCallsign
  | "mem" => .ask (.storeMessage (index arg) (String.ofList (splitWord arg).2))
  | "rep" => .ask (.repeatMessage (index arg) (minutes arg))
  | "play" => .ask (.play (index arg))
  | "load" => .ask (.recallPreset (index arg))
  | "save" => .ask (.storePreset (index arg))
  | "press" => .ask (.edge (.press (paddle arg)))
  | "release" => .ask (.edge (.release (paddle arg)))
  | "menu" => .ask (.changeOver (arg = ['o', 'n']))
  | _ => .unknown name

/-- The byte that ends a line that is sent. -/
def blank : UInt8 := 0x20

/-- Read a line. -/
def parse (line : String) : Command :=
  match line.toList with
  | '\\' :: command =>
    let (name, arg) := splitWord command
    ofName name (Text.trimChars arg)
  | cs => .ask (.send (Text.encode cs ++ [blank]))

end Command

/-- The list of commands shown to the operator. -/
def helpText : String := String.intercalate "\n"
  ["commands:",
   "  \\wpm N          speed",
   "  \\hz N           sidetone",
   "  \\mode NAME      straight ultimatic bug paddle iambic-a iambic-b",
   "  \\swap           swap paddles",
   "  \\call TEXT      set callsign      \\de   send callsign",
   "  \\mem N TEXT     store message     \\play N   send message",
   "  \\rep N MIN      repeat message every MIN minutes",
   "  \\load N         load preset       \\save N   save preset",
   "  \\press l|r      paddle down       \\release l|r",
   "  \\menu on|off    configuration mode",
   "  \\quit"]

/-- What is said about the answer to a request: nothing if it was granted. -/
def remark : Except Refusal Unit → String
  | .ok () => ""
  | .error refusal => refusal.text ++ "\n"

variable {τ : Type} [Ticker τ]

/-- Carry out a command: what is said to the operator, and the keyboard. There is no result if the
operator wants to leave. -/
def execute (kb : Keyboard τ) : Command → Option (String × Keyboard τ)
  | .quit => none
  | .help => some (helpText ++ "\n", kb)
  | .ask r =>
    let (answer, kb) := kb.handle r
    some (remark answer, kb)
  | .wpm wpm =>
    let kb := kb.tune (.wpm wpm)
    some (kb.speed.wpm.repr ++ " wpm\n", kb)
  | .hz hz =>
    let kb := kb.tune (.hz hz)
    some (kb.settings.current.hz.repr ++ " Hz\n", kb)
  | .swap =>
    let kb := kb.exchangePaddles
    some ("left paddle: " ++ kb.keyer.left.name ++ "\n", kb)
  | .unknownMode name => some ("unknown mode " ++ Text.quoteText name ++ "\n", kb)
  | .unknown name =>
    some ("unknown command " ++ Text.quoteText name ++ ", try \\help\n", kb)

/-- Carry out what a line asks for. -/
def respondTo (kb : Keyboard τ) (line : String) : Option (String × Keyboard τ) :=
  execute kb (Command.parse line)

end MorseKeyboard.Console
