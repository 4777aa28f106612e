/-
  The scanner: from a text to its tokens.

  A cursor stands in a text: it knows what is left, how much was passed, and
  the place of the next character.  A scan skips blanks and takes the longest
  token that starts at the cursor, again and again, until the text ends or a
  character starts no token.

  * `Cursor.advance?`, `Cursor.takeWhile`: moving over characters;
  * `Cursor.token?`: the token that starts at the cursor;
  * `Cursor.scan`: all tokens from the cursor on;
  * `Scanner`: a cursor with the tokens of its last scan and the symbol table
    in which it registers identifiers.
-/
import Straightline.Token
import Straightline.Symbols

namespace Straightline

/-! ## Character classes -/

/-- Blanks separate tokens and are otherwise skipped. -/
def isBlank (c : Char) : Bool :=
  c = ' ' || c = '\t' || c = '\r' || c = '\n'

/-- The characters of an identifier: ASCII letters, digits and the underscore. -/
def isWordChar (c : Char) : Bool :=
  c.isAlphanum || c = '_'

/-- The characters an identifier may start with. -/
def isWordStart (c : Char) : Bool :=
  isWordChar c && !c.isDigit

/-- The terminal that a single character stands for. -/
def markOf? : Char → Option Terminal
  | '=' => some .assign
  | '+' => some .plus
  | '-' => some .minus
  | '*' => some .star
  | '/' => some .slash
  | '(' => some .openParen
  | ')' => some .closeParen
  | ',' => some .comma
  | ';' => some .semicolon
  | _ => none

/-! ## Cursors -/

/-- The place after a character that stands at `p`. -/
def Place.after (p : Place) (c : Char) : Place :=
  if c = '\n' then ⟨p.line + 1, 1⟩ else ⟨p.line, p.column + 1⟩

/-- A position in a text. -/
structure Cursor where
  /-- What is left of the text. -/
  rest : List Char
  /-- The number of characters passed. -/
  offset : Nat := 0
  /-- The place of the first character left. -/
  place : Place := ⟨1, 1⟩
  deriving DecidableEq, Repr

namespace Cursor

/-- The character at the cursor. -/
def current? (c : Cursor) : Option Char :=
  c.rest.head?

/-- Moves over one character. -/
def advance? (c : Cursor) : Option (Char × Cursor) :=
  match c.rest with
  | [] => none
  | a :: rest => some (a, ⟨rest, c.offset + 1, c.place.after a⟩)

/-- Moves over the characters at the cursor that satisfy `p`, up to the first
    that does not. -/
def takeWhile (c : Cursor) (p : Char → Bool) : List Char × Cursor :=
  let run := c.rest.takeWhile p
  (run, ⟨c.rest.dropWhile p, c.offset + run.length, run.foldl Place.after c.place⟩)

/-- Moves over blanks. -/
def skipBlanks (c : Cursor) : Cursor :=
  (c.takeWhile isBlank).2

/-- Moves over digits. -/
def takeDigits (c : Cursor) : String × Cursor :=
  let (run, c') := c.takeWhile Char.isDigit
  (String.ofList run, c')

/-- Moves over the characters of an identifier. -/
def takeWord (c : Cursor) : String × Cursor :=
  let (run, c') := c.takeWhile isWordChar
  (String.ofList run, c')

/-- The token for a word: a keyword, or an identifier. -/
def wordToken (word : String) (place : Place) : Token :=
  if word = "int" then ⟨.intWord, "", place⟩
  else if word = "return" then ⟨.returnWord, "", place⟩
  else ⟨.identifier, word, place⟩

/-- The longest token that starts at the cursor, and the cursor after it. -/
def token? (c : Cursor) : Option (Token × Cursor) :=
  match c.rest with
  | [] => none
  | a :: rest =>
    if isWordStart a then
      let (word, c') := c.takeWord
      some (wordToken word c.place, c')
    else if a.isDigit then
      let (digits, c') := c.takeDigits
      some (⟨.constant, digits, c.place⟩, c')
    else
      (markOf? a).map fun kind => (⟨kind, "", c.place⟩, ⟨rest, c.offset + 1, c.place.after a⟩)

theorem length_dropWhile_lt {p : Char → Bool} {a : Char} {l : List Char} (h : p a = true) :
    ((a :: l).dropWhile p).length < (a :: l).length := by
  rw [List.dropWhile_cons, if_pos h, List.length_cons]
  exact Nat.lt_succ_of_le (List.dropWhile_sublist p).length_le

/-- A token takes at least one character. -/
theorem token?_shorter {c c' : Cursor} {t : Token} (h : c.token? = some (t, c')) :
    c'.rest.length < c.rest.length := by
  unfold token? at h
  split at h
  · contradiction
  · rename_i a rest hrest
    split at h
    · rename_i hword
      simp only [takeWord, takeWhile, Option.some.injEq, Prod.mk.injEq] at h
      rw [← h.2, hrest]
      simp only [isWordStart, Bool.and_eq_true] at hword
      exact length_dropWhile_lt hword.1
    · split at h
      · rename_i hdigit
        simp only [takeDigits, takeWhile, Option.some.injEq, Prod.mk.injEq] at h
        rw [← h.2, hrest]
        exact length_dropWhile_lt hdigit
      · obtain ⟨kind, _, heq⟩ := Option.map_eq_some_iff.1 h
        simp only [Prod.mk.injEq] at heq
        rw [← heq.2, hrest]
        simp

theorem skipBlanks_length_le (c : Cursor) : c.skipBlanks.rest.length ≤ c.rest.length :=
  (List.dropWhile_sublist isBlank).length_le

end Cursor

/-! ## Scanning -/

/-- A character that starts no token, and where it stands. -/
structure ScanError where
  char : Char
  place : Place
  deriving DecidableEq, Repr

/-- What is wrong, without the place. -/
def ScanError.text (e : ScanError) : String :=
  s!"Unexpected character {Text.quoted (String.singleton e.char)}"

/-- What is wrong, and where. -/
def ScanError.message (e : ScanError) : String :=
  s!"{e.text} at {e.place.text}"

/-- What a scan finds: the tokens up to its end, where it ends, and the
    character that ended it early, if any. -/
structure Scan where
  tokens : List Token
  cursor : Cursor
  error? : Option ScanError
  deriving DecidableEq, Repr

/-- The tokens from the cursor to the end of the text, closed by an end mark,
    or those before the first character that starts no token. -/
def Cursor.scan (c : Cursor) : Scan :=
  match _h : c.skipBlanks.token? with
  | some (t, c') =>
    let found := c'.scan
    { found with tokens := t :: found.tokens }
  | none =>
    match c.skipBlanks.rest with
    | [] => ⟨[⟨.endMark, "", c.skipBlanks.place⟩], c.skipBlanks, none⟩
    | a :: _ => ⟨[], c.skipBlanks, some ⟨a, c.skipBlanks.place⟩⟩
termination_by c.rest.length
decreasing_by exact Nat.lt_of_lt_of_le (token?_shorter _h) c.skipBlanks_length_le

/-- Registers the identifiers among some tokens, in order. -/
def Symbols.registerTokens (s : Symbols) (tokens : List Token) : Symbols :=
  (tokens.filter (·.kind = .identifier)).foldl (fun s t => s.register t.value) s

/-- A cursor in a text, the tokens of the last scan from it, and the symbol
    table that scans fill, if there is one. -/
structure Scanner where
  cursor : Cursor
  tokens : List Token := []
  symbols : Option Symbols := none
  deriving DecidableEq, Repr

namespace Scanner

/-- A scanner at the start of a text. -/
def start (text : String) (symbols : Option Symbols) : Scanner :=
  ⟨⟨text.toList, 0, ⟨1, 1⟩⟩, [], symbols⟩

/-- Scans from the cursor on.  The tokens found replace those of an earlier
    scan; they are kept, and their identifiers registered, also if the scan
    ends early. -/
def tokenize (s : Scanner) : Scanner × Except ScanError (List Token) :=
  let found := s.cursor.scan
  let s' : Scanner :=
    ⟨found.cursor, found.tokens, s.symbols.map (·.registerTokens found.tokens)⟩
  match found.error? with
  | none => (s', .ok found.tokens)
  | some e => (s', .error e)

end Scanner

/-- The tokens of a whole text with a fresh symbol table for its identifiers. -/
def scanText (text : String) : Except ScanError (List Token × Symbols) :=
  let found := (Cursor.mk text.toList 0 ⟨1, 1⟩).scan
  match found.error? with
  | none => .ok (found.tokens, Symbols.registerTokens {} found.tokens)
  | some e => .error e

end Straightline
