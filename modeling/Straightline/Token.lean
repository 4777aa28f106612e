/-
  Terminals and tokens.

  A terminal is a kind of word of the source language; its name is the one
  that the grammar and all messages use.  A token is a word of a given text:
  its kind, the characters that matter of it (for identifiers and constants
  only) and the place where it starts.

  * `Terminal`, with `name` and `ofName?` inverse to each other on names;
  * `Place`, a line and a column;
  * `Token`, with its short text (`text`) and its full description
    (`description`).
-/
import Straightline.Text.Quoted

namespace Straightline

/-! ## Terminals -/

/-- The kinds of words of the source language, with the end of the text as one
    of them. -/
inductive Terminal where
  | identifier
  | constant
  | intWord
  | returnWord
  | assign
  | plus
  | minus
  | star
  | slash
  | openParen
  | closeParen
  | comma
  | semicolon
  | endMark
  deriving DecidableEq, Repr, Inhabited

namespace Terminal

/-- All terminals, in the order of their names' code points. -/
def all : List Terminal :=
  [endMark, openParen, closeParen, star, plus, comma, minus, slash, assign, constant, semicolon,
    identifier, intWord, returnWord]

/-- The name of a terminal in the grammar. -/
def name : Terminal → String
  | identifier => "id"
  | constant => "IntConst"
  | intWord => "int"
  | returnWord => "return"
  | assign => "="
  | plus => "+"
  | minus => "-"
  | star => "*"
  | slash => "/"
  | openParen => "("
  | closeParen => ")"
  | comma => ","
  | semicolon => "Semicolon"
  | endMark => "$"

/-- The heading of a terminal in the description of a token. -/
def heading : Terminal → String
  | identifier => "ID"
  | constant => "INT_CONST"
  | intWord => "INT"
  | returnWord => "RETURN"
  | assign => "ASSIGN"
  | plus => "PLUS"
  | minus => "MINUS"
  | star => "STAR"
  | slash => "SLASH"
  | openParen => "LPAREN"
  | closeParen => "RPAREN"
  | comma => "COMMA"
  | semicolon => "SEMICOLON"
  | endMark => "EOF"

/-- The terminal of a given name. -/
def ofName? (name : String) : Option Terminal :=
  all.find? (·.name = name)

/-- The terminal of a given heading. -/
def ofHeading? (heading : String) : Option Terminal :=
  all.find? (·.heading = heading)

theorem mem_all (t : Terminal) : t ∈ all := by
  cases t <;> decide

theorem ofName?_name (t : Terminal) : ofName? t.name = some t := by
  cases t <;> decide

end Terminal

/-! ## Places -/

/-- A place in a text: line and column, both counted from one in a text that
    is scanned. -/
structure Place where
  line : Int := 0
  column : Int := 0
  deriving DecidableEq, Repr, Inhabited

/-- A place as messages show it. -/
def Place.text (p : Place) : String :=
  s!"{p.line}:{p.column}"

/-! ## Tokens -/

/-- A word of a text. -/
structure Token where
  kind : Terminal
  /-- The characters of an identifier or a constant; empty for all others. -/
  value : String := ""
  place : Place := {}
  deriving DecidableEq, Repr, Inhabited

namespace Token

/-- A token as listings show it: kind and value. -/
def text (t : Token) : String :=
  s!"({t.kind.name},{t.value})"

/-- A token with all that is known about it. -/
def description (t : Token) : String :=
  s!"Token({t.kind.heading}, {Text.quoted t.value}, {t.place.text})"

end Token

end Straightline
