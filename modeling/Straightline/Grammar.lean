/-
  The grammar of the source language.

  A program is a list of statements, each closed by a semicolon.  A statement
  declares a name, assigns an expression to a name, or returns an expression.
  Expressions add and subtract terms, terms multiply factors, and a factor is
  a name, a constant or an expression in parentheses.

  * `Nonterminal` and `Symbol`: the vocabulary;
  * `Production`: the fifteen productions, with `head`, `body` and `number`;
  * `Rule`: the productions together with the rule for the goal symbol, which
    derives a whole program.
-/
import Straightline.Token

namespace Straightline

/-! ## Symbols -/

/-- The nonterminals of the grammar. -/
inductive Nonterminal where
  /-- The goal: a whole program.  It occurs in no body. -/
  | goal
  | program
  | statements
  | statement
  | typeName
  | expression
  | term
  | factor
  deriving DecidableEq, Repr, Inhabited

namespace Nonterminal

/-- The nonterminals that head a production, in the order of their names' code
    points. -/
def all : List Nonterminal :=
  [term, factor, typeName, expression, program, statement, statements]

/-- The name of a nonterminal. -/
def name : Nonterminal → String
  | goal => "P\x27"
  | program => "P"
  | statements => "S_list"
  | statement => "S"
  | typeName => "D"
  | expression => "E"
  | term => "A"
  | factor => "B"

/-- The nonterminal of a given name. -/
def ofName? (name : String) : Option Nonterminal :=
  (goal :: all).find? (·.name = name)

theorem mem_all (n : Nonterminal) : n = goal ∨ n ∈ all := by
  cases n <;> decide

end Nonterminal

/-- A grammar symbol. -/
inductive Symbol where
  | terminal (t : Terminal)
  | nonterminal (n : Nonterminal)
  deriving DecidableEq, Repr, Inhabited

namespace Symbol

/-- The name of a symbol. -/
def name : Symbol → String
  | terminal t => t.name
  | nonterminal n => n.name

/-- The symbol of a given name; no terminal is named like a nonterminal. -/
def ofName? (name : String) : Option Symbol :=
  match Terminal.ofName? name with
  | some t => some (terminal t)
  | none => (Nonterminal.ofName? name).map nonterminal

/-- The symbols other than the goal, in the order of their names' code
    points. -/
def all : List Symbol :=
  [terminal .endMark, terminal .openParen, terminal .closeParen, terminal .star, terminal .plus,
    terminal .comma, terminal .minus, terminal .slash, terminal .assign, nonterminal .term,
    nonterminal .factor, nonterminal .typeName, nonterminal .expression, terminal .constant,
    nonterminal .program, nonterminal .statement, nonterminal .statements, terminal .semicolon,
    terminal .identifier, terminal .intWord, terminal .returnWord]

theorem pairwise_all : all.Pairwise (·.name < ·.name) := by
  decide

theorem mem_all (s : Symbol) : s = nonterminal .goal ∨ s ∈ all := by
  cases s with
  | terminal t => cases t <;> decide
  | nonterminal n => cases n <;> decide

end Symbol

instance : Coe Terminal Symbol := ⟨Symbol.terminal⟩

instance : Coe Nonterminal Symbol := ⟨Symbol.nonterminal⟩

/-! ## Productions -/

/-- The productions of the grammar. -/
inductive Production where
  | program
  | statementsMore
  | statementsLast
  | declaration
  | intType
  | assignment
  | returnValue
  | add
  | sub
  | expressionTerm
  | mul
  | termFactor
  | parentheses
  | factorName
  | factorConstant
  deriving DecidableEq, Repr, Inhabited

namespace Production

/-- The productions in the order of their numbers. -/
def all : List Production :=
  [.program, .statementsMore, .statementsLast, .declaration, .intType, .assignment, .returnValue,
    .add, .sub, .expressionTerm, .mul, .termFactor, .parentheses, .factorName, .factorConstant]

/-- The number of a production, counted from one. -/
def number : Production → Nat
  | .program => 1
  | .statementsMore => 2
  | .statementsLast => 3
  | .declaration => 4
  | .intType => 5
  | .assignment => 6
  | .returnValue => 7
  | .add => 8
  | .sub => 9
  | .expressionTerm => 10
  | .mul => 11
  | .termFactor => 12
  | .parentheses => 13
  | .factorName => 14
  | .factorConstant => 15

/-- The heading of a production in messages. -/
def heading : Production → String
  | .program => "PROGRAM"
  | .statementsMore => "STMT_LIST"
  | .statementsLast => "STMT_LIST_LAST"
  | .declaration => "DECLARATION"
  | .intType => "TYPE_INT"
  | .assignment => "ASSIGNMENT"
  | .returnValue => "RETURN"
  | .add => "ADD"
  | .sub => "SUB"
  | .expressionTerm => "EXPR_TERM"
  | .mul => "MUL"
  | .termFactor => "TERM_FACTOR"
  | .parentheses => "PAREN"
  | .factorName => "FACTOR_ID"
  | .factorConstant => "FACTOR_CONST"

/-- The nonterminal that a production expands. -/
def head : Production → Nonterminal
  | .program => .program
  | .statementsMore | .statementsLast => .statements
  | .declaration | .assignment | .returnValue => .statement
  | .intType => .typeName
  | .add | .sub | .expressionTerm => .expression
  | .mul | .termFactor => .term
  | .parentheses | .factorName | .factorConstant => .factor

/-- What a production puts in place of its head. -/
def body : Production → List Symbol
  | .program => [Nonterminal.statements]
  | .statementsMore => [Nonterminal.statement, Terminal.semicolon, Nonterminal.statements]
  | .statementsLast => [Nonterminal.statement, Terminal.semicolon]
  | .declaration => [Nonterminal.typeName, Terminal.identifier]
  | .intType => [Terminal.intWord]
  | .assignment => [Terminal.identifier, Terminal.assign, Nonterminal.expression]
  | .returnValue => [Terminal.returnWord, Nonterminal.expression]
  | .add => [Nonterminal.expression, Terminal.plus, Nonterminal.term]
  | .sub => [Nonterminal.expression, Terminal.minus, Nonterminal.term]
  | .expressionTerm => [Nonterminal.term]
  | .mul => [Nonterminal.term, Terminal.star, Nonterminal.factor]
  | .termFactor => [Nonterminal.factor]
  | .parentheses => [Terminal.openParen, Nonterminal.expression, Terminal.closeParen]
  | .factorName => [Terminal.identifier]
  | .factorConstant => [Terminal.constant]

/-- A production as it is written: head, arrow, body. -/
def text (p : Production) : String :=
  let body := " ".intercalate (p.body.map Symbol.name)
  s!"{p.head.name} -> {body}"

/-- A production with its heading, number and parts. -/
def description (p : Production) : String :=
  let names := p.body.map (Text.quoted ·.name)
  let inner := match names with
    | [only] => only ++ ","
    | _ => ", ".intercalate names
  let head := Text.quoted p.head.name
  s!"<Production.{p.heading}: ({p.number}, {head}, ({inner}))>"

/-- The production of a given number. -/
def ofNumber? (n : Int) : Option Production :=
  all.find? (·.number = n)

theorem mem_all (p : Production) : p ∈ all := by
  cases p <;> decide

theorem ofNumber?_number (p : Production) : ofNumber? p.number = some p := by
  cases p <;> decide

theorem body_ne_nil (p : Production) : p.body ≠ [] := by
  cases p <;> decide

end Production

/-- The refusal of a number that no production has. -/
structure UnknownProduction where
  number : Int
  deriving DecidableEq, Repr

/-- The wording of the refusal. -/
def UnknownProduction.message (e : UnknownProduction) : String :=
  s!"unknown production index: {e.number}"

/-- The production of a given number, which has to be one. -/
def Production.ofNumber (n : Int) : Except UnknownProduction Production :=
  match ofNumber? n with
  | some p => .ok p
  | none => .error ⟨n⟩

/-! ## Rules -/

/-- The rules of the grammar: the rule for the goal, and the productions. -/
inductive Rule where
  | goal
  | production (p : Production)
  deriving DecidableEq, Repr, Inhabited

namespace Rule

/-- The rules in the order of their numbers. -/
def all : List Rule :=
  goal :: Production.all.map production

/-- The number of a rule: zero for the goal, the production's number else. -/
def number : Rule → Nat
  | goal => 0
  | production p => p.number

/-- The nonterminal that a rule expands. -/
def head : Rule → Nonterminal
  | goal => .goal
  | production p => p.head

/-- What a rule puts in place of its head. -/
def body : Rule → List Symbol
  | goal => [Nonterminal.program]
  | production p => p.body

/-- The production of a rule; the goal's rule has none. -/
def production? : Rule → Option Production
  | goal => none
  | production p => some p

theorem mem_all (r : Rule) : r ∈ all := by
  cases r with
  | goal => decide
  | production p => exact List.mem_cons_of_mem _ (List.mem_map_of_mem p.mem_all)

theorem body_ne_nil (r : Rule) : r.body ≠ [] := by
  cases r with
  | goal => decide
  | production p => exact p.body_ne_nil

end Rule

end Straightline
