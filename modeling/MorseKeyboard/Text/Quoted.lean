import MorseKeyboard.Text.Printable

/-!
# Quoted text

What the operator typed is shown back between quotes, with everything that would not show on a
terminal written as an escape: a backslash and a letter for the tabulator, the newline, the carriage
return and the null character, a backslash before the quote and the backslash itself, and the code
point in hexadecimal for every other character that is not printable or combines with the one
before it. Texts stand between double quotes, single characters between single ones, and **only the
quote in use is escaped**.
-/

namespace MorseKeyboard.Text

/-- A character as its code point in hexadecimal. -/
def codePoint (c : Char) : List Char :=
  ['\\', 'u', '\x7b'] ++ Nat.toDigits 16 c.toNat ++ ['\x7d']

/-- A character as it is shown between the given quotes. -/
def escape (quote c : Char) : List Char :=
  match c with
  | '\x00' => ['\\', '0']
  | '\t' => ['\\', 't']
  | '\r' => ['\\', 'r']
  | '\n' => ['\\', 'n']
  | '\\' => ['\\', '\\']
  | c =>
    if c = quote then ['\\', c]
    else if combines c || !isPrintable c then codePoint c
    else [c]

/-- Characters between the given quotes. -/
def quoteWith (quote : Char) (cs : List Char) : String :=
  String.ofList ([quote] ++ cs.flatMap (escape quote) ++ [quote])

/-- A text between double quotes. -/
def quoteText (cs : List Char) : String := quoteWith '"' cs

/-- A character between single quotes. -/
def quoteChar (c : Char) : String := quoteWith '\'' [c]

end MorseKeyboard.Text
