import MorseKeyboard.Keyer.Basic
import MorseKeyboard.Log.Logbook
import MorseKeyboard.Queues

/-!
# The keyer at its queue

What the keyer keys goes into the symbol queue. **An impossible edge changes neither the keyer nor
the queue**: it is logged as a warning of the interrupt side, since a bouncing contact is the
likely cause.
-/

namespace MorseKeyboard

/-- Append a symbol that was keyed, if any was. -/
def SymbolRing.key (symbols : SymbolRing) (keyed : Option Symbol) : SymbolRing :=
  match keyed with
  | some s => symbols.push s
  | none => symbols

namespace Keyer

/-- Let a millisecond pass and queue what was keyed in it. -/
def tickOnto (k : Keyer) (symbols : SymbolRing) : Keyer × SymbolRing :=
  let (keyed, k) := k.tick
  (k, symbols.key keyed)

/-- The pieces of the warning about an impossible edge. -/
def complaint (k : Keyer) (e : Edge) : List String :=
  ["keyer: "] ++ e.words ++ [" in ", k.state.name]

/-- Apply an edge at a given time: queue what it keys, or log that it is impossible. -/
def edgeOnto (k : Keyer) (e : Edge) (now : UInt16) (symbols : SymbolRing) (log : Logbook) :
    Keyer × SymbolRing × Logbook :=
  match k.edge? e with
  | some (keyed, k) => (k, symbols.key keyed, log)
  | none => (k, symbols, log.logInterrupt now .warn (k.complaint e))

end Keyer

end MorseKeyboard
