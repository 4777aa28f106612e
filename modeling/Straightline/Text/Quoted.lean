/-
  Quoted text: how messages show a string.

  The quote is an apostrophe, or a double quote if the text has an apostrophe
  and no double quote.  A backslash and the quote in use are written with a
  backslash before them, the three common control characters as `\n`, `\r`,
  `\t`, and every other unprintable character as a lower-case hexadecimal
  escape of two, four or eight digits.

  * `escape` writes one character;
  * `quoted` writes a whole text.
-/
import Straightline.Text.Printable

namespace Straightline.Text

/-- The number `n` in lower-case hexadecimal, padded with zeros to `width`
    digits. -/
def hexadecimal (width n : Nat) : List Char :=
  let digits := Nat.toDigits 16 n
  List.replicate (width - digits.length) '0' ++ digits

/-- The escape of an unprintable character: the shortest of the three forms
    that holds its code point. -/
def escapeCode (c : Char) : List Char :=
  if c.toNat < 0x100 then '\\' :: 'x' :: hexadecimal 2 c.toNat
  else if c.toNat < 0x10000 then '\\' :: 'u' :: hexadecimal 4 c.toNat
  else '\\' :: 'U' :: hexadecimal 8 c.toNat

/-- One character as it is written between two `quote`s. -/
def escape (quote c : Char) : List Char :=
  if c = quote ∨ c = '\\' then ['\\', c]
  else if c = '\n' then ['\\', 'n']
  else if c = '\r' then ['\\', 'r']
  else if c = '\t' then ['\\', 't']
  else if isPrintable c then [c]
  else escapeCode c

/-- The quote for a text: an apostrophe, unless only the text itself holds
    one. -/
def quoteFor (text : List Char) : Char :=
  if text.contains '\x27' && !text.contains '\x22' then '\x22' else '\x27'

/-- A text between quotes, with everything escaped that would not show as
    itself. -/
def quoted (text : String) : String :=
  let quote := quoteFor text.toList
  String.ofList (quote :: text.toList.flatMap (escape quote) ++ [quote])

end Straightline.Text
