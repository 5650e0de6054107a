import MorseKeyboard.Ring.Basic

/-!
# Receivers of text

Decoded text leaves the keyboard byte by byte. Anything with `MorseKeyboard.Receiver.receive` may
receive it: a ring, which gives up its oldest byte when full, a bounded buffer, which refuses the
newest, or a list, which holds everything.
-/

namespace MorseKeyboard

/-- A receiver of bytes. -/
class Receiver (σ : Type) where
  /-- The receiver after one more byte. -/
  receive : σ → UInt8 → σ

namespace Receiver

variable {σ : Type} [Receiver σ]

/-- The receiver after some bytes in order. -/
def receiveAll (receiver : σ) (bytes : List UInt8) : σ := bytes.foldl receive receiver

end Receiver

instance : Receiver (List UInt8) where
  receive bytes byte := bytes ++ [byte]

instance {n : Nat} : Receiver (Ring UInt8 n) where
  receive := Ring.push

/-- Up to `n` bytes; what does not fit is rejected. -/
structure Buffer (n : Nat) where
  bytes : List UInt8 := []
  deriving DecidableEq, Repr

instance {n : Nat} : Receiver (Buffer n) where
  receive buffer byte :=
    if buffer.bytes.length < n then { bytes := buffer.bytes ++ [byte] } else buffer

end MorseKeyboard
