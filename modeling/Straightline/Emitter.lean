/-
  The emitter: instructions from the actions of a run.

  The emitter keeps a stack of slots beside the stack of a shift/reduce run,
  one slot a symbol.  The slot of an identifier, a constant or an expression
  holds an operand, every other slot is a placeholder.  An assignment, a
  return and each arithmetic operation emit one instruction; an operation puts
  its result into a new temporary.

  * `Emitter`: the instructions so far, the number of temporaries, the slots;
  * `Emitter.shift`, `Emitter.reduce`: what the emitter does with an action;
  * `Emitter.watch`: the emitter as a watcher of a run.

  An action that does not fit is refused (`EmitError`).  Slots taken before
  the refusal stay taken; instructions and temporaries are as before.
-/
import Straightline.Text.Decimal
import Straightline.Parse
import Straightline.Instruction

namespace Straightline

/-! ## References to productions -/

/-- What an action names as its production: a production, or something that is
    none. -/
inductive ProductionRef where
  | production (p : Production)
  | number (n : Int)
  | name (text : String)
  | nothing
  deriving DecidableEq, Repr

namespace ProductionRef

/-- The reference by a number. -/
def ofNumber (n : Int) : ProductionRef :=
  match Production.ofNumber? n with
  | some p => production p
  | none => number n

/-- A reference as messages show it. -/
def description : ProductionRef → String
  | production p => p.description
  | number n => toString n
  | name text => Text.quoted text
  | nothing => "None"

end ProductionRef

/-! ## The emitter -/

/-- Why the emitter refuses an action. -/
inductive EmitError where
  /-- A constant that is no run of digits, or too long a one. -/
  | badConstant (e : Text.DecimalError)
  /-- A token that cannot be on the stack. -/
  | badToken (kind : Terminal)
  /-- A reduction by something that is no production. -/
  | unknownProduction (ref : ProductionRef)
  /-- A reduction takes more slots than there are. -/
  | underflow
  /-- A slot without an operand where one is needed. -/
  | placeholder
  /-- An assignment to a placeholder (`none`) or to a constant. -/
  | badTarget (found : Option Int)
  deriving DecidableEq, Repr

/-- The wording of a refusal. -/
def EmitError.message : EmitError → String
  | badConstant e => e.message
  | badToken kind => s!"Invalid token type: {kind.name}"
  | unknownProduction ref => s!"Unknown production: {ref.description}"
  | underflow => "semantic stack underflow"
  | placeholder => "expected a value on the semantic stack, found a placeholder"
  | badTarget none => "assignment target is not a variable: None"
  | badTarget (some value) =>
    s!"assignment target is not a variable: IRImmediate(value={value})"

/-- The state of the emitter. -/
structure Emitter where
  /-- The instructions emitted so far. -/
  instructions : List Instruction := []
  /-- The number of temporaries in use. -/
  temporaries : Nat := 0
  /-- The slots, top first. -/
  stack : List (Option Operand) := []
  deriving DecidableEq, Repr

namespace Emitter

/-- A step of the emitter. -/
abbrev Step := Attempt EmitError Emitter

/-- Puts a slot on the stack. -/
def push (slot : Option Operand) : Step Unit :=
  modify fun e => { e with stack := slot :: e.stack }

/-- Takes the top slot off the stack. -/
def pop : Step (Option Operand) := do
  let e ← get
  match e.stack with
  | [] => throw .underflow
  | slot :: rest =>
    set { e with stack := rest }
    return slot

/-- Takes the top slot off the stack, which has to hold an operand. -/
def popOperand : Step Operand := do
  match ← pop with
  | some operand => return operand
  | none => throw .placeholder

/-- Takes the top slot off the stack, which has to hold a variable. -/
def popVariable : Step String := do
  match ← pop with
  | some (.var name) => return name
  | some (.imm value) => throw (.badTarget (some value))
  | none => throw (.badTarget none)

/-- Takes `n` slots off the stack, one after the other. -/
def popMany : Nat → Step Unit
  | 0 => pure ()
  | n + 1 => do
    let _ ← pop
    popMany n

/-- Adds an instruction at the end. -/
def emit (i : Instruction) : Step Unit :=
  modify fun e => { e with instructions := e.instructions ++ [i] }

/-- A temporary that is not yet in use. -/
def newTemporary : Step String := do
  let e ← get
  set { e with temporaries := e.temporaries + 1 }
  return temporary e.temporaries

/-- The slot for a token. -/
def slotFor (token : Token) : Except EmitError (Option Operand) :=
  match token.kind with
  | .identifier => .ok (some (.var token.value))
  | .constant =>
    match Text.readDecimal token.value with
    | .ok value => .ok (some (.imm value))
    | .error e => .error (.badConstant e)
  | .endMark => .error (.badToken .endMark)
  | _ => .ok none

/-- A token comes on the stack. -/
def shift (token : Token) : Step Unit :=
  match slotFor token with
  | .ok slot => push slot
  | .error e => throw e

/-- An arithmetic operation: its operands leave the stack, the temporary with
    its result comes on it. -/
def arithmetic (opcode : Opcode) : Step Unit := do
  let rhs ← popOperand
  let _ ← pop
  let lhs ← popOperand
  let result ← newTemporary
  emit ⟨opcode, [lhs, rhs], some result⟩
  push (some (.var result))

/-- The slots of a production's body become the slot of its head. -/
def reduceBy : Production → Step Unit
  | .assignment => do
    let value ← popOperand
    let _ ← pop
    let target ← popVariable
    emit ⟨.mov, [value], some target⟩
    push none
  | .returnValue => do
    let value ← popOperand
    let _ ← pop
    emit ⟨.ret, [value], none⟩
    push none
  | .add => arithmetic .add
  | .sub => arithmetic .sub
  | .mul => arithmetic .mul
  | .parentheses => do
    let _ ← pop
    let value ← popOperand
    let _ ← pop
    push (some value)
  | .expressionTerm | .termFactor | .factorName | .factorConstant => do
    let value ← popOperand
    push (some value)
  | p@(.program) | p@(.statementsMore) | p@(.statementsLast) | p@(.declaration)
  | p@(.intType) => do
    popMany p.body.length
    push none

/-- A reduction by what is meant to be a production. -/
def reduce : ProductionRef → Step Unit
  | .production p => reduceBy p
  | ref => throw (.unknownProduction ref)

/-- What the emitter does with an action of a run. -/
def handle : Event → Step Unit
  | .shift token => shift token
  | .reduce p => reduceBy p
  | .accept => pure ()

/-- The emitter as the watcher of a run. -/
def watch : Watcher EmitError Emitter :=
  fun r => handle r.event

end Emitter

end Straightline
