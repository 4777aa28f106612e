/-
  Three-address instructions.

  An operand is a variable or an integer.  Variables are names: those of the
  source program keep theirs, and temporaries are called `%t0`, `%t1`, and so
  on, which no identifier of the source can be.  An instruction has an opcode,
  any number of operands and possibly a result.

  * `Operand`, `Opcode`, `Instruction`, each with its `text`;
  * `Instruction.written`: the text of an instruction that the target knows;
  * `Instruction.reads`: whether a variable is an operand.
-/

namespace Straightline

/-- A variable or an integer constant. -/
inductive Operand where
  | var (name : String)
  | imm (value : Int)
  deriving DecidableEq, Repr, Inhabited

namespace Operand

/-- Whether an operand is a constant. -/
def isImmediate : Operand → Bool
  | var _ => false
  | imm _ => true

/-- An operand as it is written. -/
def text : Operand → String
  | var name => name
  | imm value => toString value

end Operand

/-- Whether a variable is a temporary: its name starts with a percent sign. -/
def isTemporary (name : String) : Bool :=
  name.toList.head? = some '%'

/-- The name of the temporary with a given number. -/
def temporary (n : Nat) : String :=
  s!"%t{n}"

/-- What an instruction does. -/
inductive Opcode where
  | add
  | sub
  | mul
  | mov
  | ret
  /-- An operation that the target does not know. -/
  | other (name : String)
  deriving DecidableEq, Repr, Inhabited

/-- The name of an opcode. -/
def Opcode.name : Opcode → String
  | add => "ADD"
  | sub => "SUB"
  | mul => "MUL"
  | mov => "MOV"
  | ret => "RET"
  | other name => name

/-- The opcode of a given name. -/
def Opcode.ofName (name : String) : Opcode :=
  match name with
  | "ADD" => add
  | "SUB" => sub
  | "MUL" => mul
  | "MOV" => mov
  | "RET" => ret
  | _ => other name

/-- The refusal to write an operation that the target does not know. -/
structure UnknownOperation where
  name : String
  deriving DecidableEq, Repr

/-- The wording of the refusal. -/
def UnknownOperation.message (_ : UnknownOperation) : String :=
  "\x27str\x27 object has no attribute \x27value\x27"

/-- A three-address instruction. -/
structure Instruction where
  opcode : Opcode
  operands : List Operand := []
  /-- The variable that takes the result. -/
  result : Option String := none
  deriving DecidableEq, Repr, Inhabited

namespace Instruction

/-- An instruction as it is written: opcode, then result and operands. -/
def text (i : Instruction) : String :=
  let parts := ", ".intercalate (i.result.toList ++ i.operands.map Operand.text)
  s!"{i.opcode.name} {parts}"

/-- The text of an instruction, unless the target does not know its
    operation. -/
def written (i : Instruction) : Except UnknownOperation String :=
  match i.opcode with
  | .other name => .error ⟨name⟩
  | _ => .ok i.text

/-- Whether a variable is among the operands. -/
def reads (i : Instruction) (name : String) : Bool :=
  i.operands.contains (.var name)

/-- A list of instructions as text, one a line. -/
def listing (code : List Instruction) : String :=
  String.join (code.map fun i => i.text ++ "\n")

end Instruction

end Straightline
