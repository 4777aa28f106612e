/-
  Lowering: assembly for a list of instructions.

  Each instruction up to the first return becomes one line, or a few lines if
  constants have to be loaded into registers first.  What comes after the
  first return is never reached and is left out.  Subtraction and
  multiplication take a constant only as their last operand, and not even
  there if constants are to be loaded (`loadRight`).  A constant that is too
  long to be written cannot be lowered.

  * `Lowering`: the registers given out, and the lines so far;
  * `Lowering.lower`: one instruction;
  * `lower`: a whole list.

  Lines and registers of an instruction that cannot be lowered (`LowerError`)
  stay as far as they got.
-/
import Straightline.Attempt
import Straightline.Allocation
import Straightline.Assembly

namespace Straightline

open Assembly (Line Operation Source)

/-- Why an instruction cannot be lowered. -/
inductive LowerError where
  /-- There is no register for a variable. -/
  | exhausted (e : Exhausted)
  /-- The target has no such operation. -/
  | unsupported (name : String)
  /-- The instruction has the wrong number of operands. -/
  | arity (opcode : Opcode) (expected found : Nat)
  /-- The instruction has no variable for its result. -/
  | noResult (opcode : Opcode)
  /-- An addition of two constants. -/
  | bothImmediate
  /-- A constant has more digits than can be written. -/
  | tooLong
  deriving DecidableEq, Repr

/-- The wording of a refusal. -/
def LowerError.message : LowerError → String
  | exhausted e => e.message
  | unsupported name => s!"Operation not supported: {name}"
  | arity opcode expected found =>
    s!"{opcode.name} instruction requires exactly {expected} operand(s), got {found}"
  | noResult opcode => s!"{opcode.name} instruction requires a result"
  | bothImmediate => "ADD instruction cannot have both operands as immediate values"
  | tooLong =>
    s!"Exceeds the limit ({Text.digitLimit} digits) for integer string conversion; " ++
    "use sys.set_int_max_str_digits() to increase the limit"

/-- The state of lowering. -/
structure Lowering where
  allocation : Allocation
  /-- The lines so far. -/
  lines : List Line := []
  /-- What was said about registers, latest first. -/
  notes : List String := []
  deriving DecidableEq, Repr

namespace Lowering

/-- A step of lowering. -/
abbrev Step := Attempt LowerError Lowering

/-- Makes sure that a constant can be written. -/
def requireWritable (value : Int) : Step Unit :=
  if Text.isWritable value then pure () else throw .tooLong

theorem exec_requireWritable (value : Int) (l : Lowering) :
    (requireWritable value).exec l =
      if Text.isWritable value then (.ok (), l) else (.error .tooLong, l) := by
  unfold requireWritable
  split <;> rfl

/-- The state with one more line. -/
def write (l : Lowering) (line : Line) : Lowering :=
  { l with lines := l.lines ++ [line] }

/-- Adds a line, if it can be written. -/
def emit (line : Line) : Step Unit :=
  if line.isWritable then modify (·.write line) else throw .tooLong

theorem exec_emit (line : Line) (l : Lowering) :
    (emit line).exec l =
      if line.isWritable then (.ok (), l.write line) else (.error .tooLong, l) := by
  unfold emit
  split <;> rfl

/-- The register of a variable. -/
def register (name : String) : Step Register := do
  let l ← get
  match l.allocation.obtain name with
  | .ok (grant, allocation) =>
    set { l with allocation := allocation, notes := (grant.notes name).reverse ++ l.notes }
    return grant.register
  | .error e => throw (.exhausted e)

theorem exec_register (name : String) (l : Lowering) :
    (register name).exec l =
      match l.allocation.obtain name with
      | .ok (grant, a) =>
        (.ok grant.register,
          { l with allocation := a, notes := (grant.notes name).reverse ++ l.notes })
      | .error e => (.error (.exhausted e), l) := by
  simp only [register, Attempt.exec_bind, Attempt.exec_get]
  cases l.allocation.obtain name with
  | error e => rfl
  | ok granted => rfl

/-- The register for the result of an instruction. -/
def destination (i : Instruction) : Step Register :=
  match i.result with
  | some name => register name
  | none => throw (.noResult i.opcode)

/-- The variable that stands for a constant of the current instruction: the
    left one has number 0, the right one number 1. -/
def scratch (number : Nat) : String :=
  s!"%imm{number}"

/-- The register of a scratch variable, which is then pinned. -/
def scratchRegister (number : Nat) : Step Register := do
  let r ← register (scratch number)
  modify fun l => { l with allocation := l.allocation.pin (scratch number) }
  return r

/-- Loads a constant into the register of a scratch variable. -/
def load (number : Nat) (value : Int) : Step Register := do
  let r ← scratchRegister number
  emit (.loadImmediate r value)
  return r

/-- An addition.  A constant operand goes last, wherever it stood. -/
def lowerAdd (i : Instruction) : Step Unit := do
  match i.operands with
  | [.imm _, .imm _] => throw .bothImmediate
  | [.imm value, .var name] | [.var name, .imm value] =>
    let dest ← destination i
    let r ← register name
    emit (.addImmediate dest r value)
  | [.var lhs, .var rhs] =>
    let dest ← destination i
    let r ← register lhs
    let s ← register rhs
    emit (.operate .add dest r (.register s))
  | operands => throw (.arity .add 2 operands.length)

/-- A constant as the last operand: loaded, or as it stands. -/
def rightConstant (loadRight : Bool) (value : Int) : Step Source :=
  if loadRight then Source.register <$> load 1 value else pure (.literal value)

/-- A subtraction or multiplication.  The registers of variables are found, and
    a constant on the right is tried, before constants are loaded. -/
def lowerBinary (loadRight : Bool) (op : Operation) (i : Instruction) : Step Unit := do
  match i.operands with
  | [.var lhs, .var rhs] =>
    let dest ← destination i
    let r ← register lhs
    let s ← register rhs
    emit (.operate op dest r (.register s))
  | [.var lhs, .imm value] =>
    let dest ← destination i
    let r ← register lhs
    requireWritable value
    let source ← rightConstant loadRight value
    emit (.operate op dest r source)
  | [.imm value, .var rhs] =>
    let dest ← destination i
    let s ← register rhs
    let r ← load 0 value
    emit (.operate op dest r (.register s))
  | [.imm left, .imm right] =>
    let dest ← destination i
    requireWritable right
    let r ← load 0 left
    let source ← rightConstant loadRight right
    emit (.operate op dest r source)
  | operands => throw (.arity i.opcode 2 operands.length)

/-- A move. -/
def lowerMove (i : Instruction) : Step Unit := do
  match i.operands with
  | [.imm value] =>
    let dest ← destination i
    emit (.loadImmediate dest value)
  | [.var name] =>
    let dest ← destination i
    let r ← register name
    emit (.move dest r)
  | operands => throw (.arity .mov 1 operands.length)

/-- A return; without an operand there is nothing to do. -/
def lowerReturn (i : Instruction) : Step Unit := do
  match i.operands with
  | [] => pure ()
  | [.imm value] => emit (.loadImmediate .result value)
  | [.var name] =>
    let r ← register name
    emit (.move .result r)
  | operands => throw (.arity .ret 1 operands.length)

/-- One instruction. -/
def lower (loadRight : Bool) (i : Instruction) : Step Unit :=
  match i.opcode with
  | .add => lowerAdd i
  | .sub => lowerBinary loadRight .sub i
  | .mul => lowerBinary loadRight .mul i
  | .mov => lowerMove i
  | .ret => lowerReturn i
  | .other name => throw (.unsupported name)

/-- The instructions from index `position` on, up to the first return. -/
def lowerFrom (loadRight : Bool) : (position : Nat) → List Instruction → Step Unit
  | _, [] => pure ()
  | position, i :: rest => do
    modify fun l => { l with allocation := l.allocation.advance position i.result }
    lower loadRight i
    if i.opcode = .ret then pure () else lowerFrom loadRight (position + 1) rest

/-- The lines as texts, under the heading of their section. -/
def texts (l : Lowering) : List String :=
  Assembly.sectionTexts l.lines

/-- The assembly text. -/
def listing (l : Lowering) : String :=
  Assembly.listing l.texts

end Lowering

/-- Assembly for a list of instructions, as far as it can be lowered. -/
def lower (loadRight : Bool) (code : List Instruction) : Except LowerError Unit × Lowering :=
  (Lowering.lowerFrom loadRight 0 code).exec ⟨⟨code, 0, [], []⟩, [], []⟩

/-- The assembly text for a list of instructions. -/
def assemble (loadRight : Bool) (code : List Instruction) : Except LowerError String :=
  match lower loadRight code with
  | (.ok _, l) => .ok l.listing
  | (.error e, _) => .error e

end Straightline
