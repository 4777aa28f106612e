/-
  Declaration checks from the actions of a run.

  The checker keeps a stack of slots beside the stack of a shift/reduce run:
  the token of each terminal, and the type of the word `int` and of what is
  reduced from it.  A declaration gives its name a type in the symbol table; a
  name that has one may not be declared again, and a name may be assigned or
  read only if it has one.

  * `Checker`: the slots and the symbol table;
  * `Checker.shift`, `Checker.reduce`: what the checker does with an action;
  * `Checker.watch`: the checker as a watcher of a run.

  A refused action (`CheckError`) leaves the symbol table as it was.
-/
import Straightline.Emitter
import Straightline.Symbols

namespace Straightline

/-- Why the checker refuses an action. -/
inductive CheckError where
  /-- There is no symbol table to check against. -/
  | noSymbols
  /-- A name is declared a second time. -/
  | redeclared (name : Token)
  /-- A name is used that has not been declared. -/
  | undeclared (name : Token)
  /-- The stack has fewer slots than the action looks at. -/
  | noSlot
  /-- The slot that should hold a name holds no token. -/
  | noToken
  /-- A reduction by something that is no production. -/
  | notProduction (ref : ProductionRef)
  deriving DecidableEq, Repr

namespace CheckError

/-- The kind of thing that stands where a production should. -/
def kindOf : ProductionRef → String
  | .production _ => "Production"
  | .number _ => "int"
  | .name _ => "str"
  | .nothing => "NoneType"

/-- The wording of a refusal. -/
def message : CheckError → String
  | noSymbols => "no symbol table bound to the semantic analyzer"
  | redeclared name => s!"redeclaration of \x27{name.value}\x27 at {name.place.text}"
  | undeclared name => s!"use of undeclared identifier \x27{name.value}\x27 at {name.place.text}"
  | noSlot => "list index out of range"
  | noToken => "\x27NoneType\x27 object has no attribute \x27value\x27"
  | notProduction ref => s!"\x27{kindOf ref}\x27 object has no attribute \x27body\x27"

end CheckError

/-- What the checker remembers of a symbol on the stack. -/
structure Checker.Slot where
  token : Option Token := none
  type : Option SourceType := none
  deriving DecidableEq, Repr, Inhabited

/-- The state of the checker.  Only tokens are ever shifted, so a slot always has
    its place for a token and its place for a type, and the two cannot fall out
    of step. -/
structure Checker where
  /-- The slots, top first. -/
  stack : List Checker.Slot := []
  symbols : Option Symbols := none
  deriving DecidableEq, Repr

namespace Checker

/-- A step of the checker. -/
abbrev Step := Attempt CheckError Checker

/-- Puts a slot on the stack. -/
def push (slot : Slot) : Step Unit :=
  modify fun c => { c with stack := slot :: c.stack }

/-- Takes `n` slots off the stack. -/
def drop (n : Nat) : Step Unit :=
  modify fun c => { c with stack := discard n c.stack }

/-- The slot `n` places below the top. -/
def slotAt (n : Nat) : Step Slot := do
  match (← get).stack[n]? with
  | some slot => return slot
  | none => throw .noSlot

/-- The symbol table and the token of a name to look up in it. -/
def lookUp (slot : Slot) : Step (Symbols × Token) := do
  match (← get).symbols, slot.token with
  | none, _ => throw .noSymbols
  | some _, none => throw .noToken
  | some symbols, some name => return (symbols, name)

/-- Gives a name a type, unless it has one. -/
def declare (slot : Slot) (type : Option SourceType) : Step Unit := do
  let (symbols, name) ← lookUp slot
  match symbols.typeOf? name.value with
  | some _ => throw (.redeclared name)
  | none =>
    let symbols := (symbols.register name.value).retype name.value type
    modify fun c => { c with symbols := some symbols }

/-- Makes sure that a name has a type. -/
def requireDeclared (slot : Slot) : Step Unit := do
  let (symbols, name) ← lookUp slot
  match symbols.typeOf? name.value with
  | some _ => pure ()
  | none => throw (.undeclared name)

/-- A token comes on the stack; the word `int` brings its type. -/
def shift (token : Token) : Step Unit :=
  push ⟨some token, if token.kind = .intWord then some .int else none⟩

/-- The slots of a production's body become the slot of its head. -/
def reduceBy (p : Production) : Step Unit := do
  match p with
  | .declaration =>
    let name ← slotAt 0
    let type ← slotAt 1
    drop 2
    declare name type.type
    push {}
  | .intType =>
    let slot ← slotAt 0
    drop 1
    push ⟨none, slot.type⟩
  | .assignment =>
    requireDeclared (← slotAt 2)
    drop p.body.length
    push {}
  | .factorName =>
    requireDeclared (← slotAt 0)
    drop p.body.length
    push {}
  | _ =>
    drop p.body.length
    push {}

/-- A reduction by what is meant to be a production. -/
def reduce : ProductionRef → Step Unit
  | .production p => reduceBy p
  | ref => throw (.notProduction ref)

/-- What the checker does with an action of a run. -/
def handle : Event → Step Unit
  | .shift token => shift token
  | .reduce p => reduceBy p
  | .accept => pure ()

/-- The checker as the watcher of a run. -/
def watch : Watcher CheckError Checker :=
  fun r => handle r.event

end Checker

end Straightline
