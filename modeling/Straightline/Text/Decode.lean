/-
  The text of a file.

  A file holds bytes.  They are read as strict UTF-8, so that overlong forms,
  encoded surrogates and values above U+10FFFF are refused, and a byte order
  mark is kept as a character.  Then every line end, be it CR LF, CR or LF, is
  read as LF.  Writing is plain UTF-8.

  * `unifyLineEnds` turns each line end into LF;
  * `decode?` reads bytes, `encode` writes them.
-/

namespace Straightline.Text

/-- Turns each CR LF and each remaining CR into LF. -/
def unifyLineEnds : List Char → List Char
  | [] => []
  | '\r' :: '\n' :: rest => '\n' :: unifyLineEnds rest
  | c :: rest => (if c = '\r' then '\n' else c) :: unifyLineEnds rest

/-- The text that the bytes of a file hold, if they are UTF-8. -/
def decode? (bytes : ByteArray) : Option String :=
  (String.fromUTF8? bytes).map fun text => String.ofList (unifyLineEnds text.toList)

/-- The bytes of a file that holds a text. -/
def encode (text : String) : ByteArray :=
  text.toUTF8

end Straightline.Text
