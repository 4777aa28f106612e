/-
  Assembly lines of the target.

  * `Line`: the operations that are emitted, over registers and integers;
  * `Line.isWritable`: whether its number, if it has one, is not too long;
  * `Line.text`, `listing`: how they are written.
-/
import Straightline.Register
import Straightline.Text.Decimal

namespace Straightline.Assembly

/-- The arithmetic operations on registers. -/
inductive Operation where
  | add
  | sub
  | mul
  deriving DecidableEq, Repr, Inhabited

/-- The mnemonic of an operation. -/
def Operation.name : Operation → String
  | add => "add"
  | sub => "sub"
  | mul => "mul"

/-- The last operand of an operation: a register, or a number in its place. -/
inductive Source where
  | register (r : Register)
  | literal (value : Int)
  deriving DecidableEq, Repr, Inhabited

/-- A source as it is written. -/
def Source.text : Source → String
  | register r => r.name
  | literal value => toString value

/-- A line of assembly. -/
inductive Line where
  /-- `dest := lhs op rhs` -/
  | operate (op : Operation) (dest lhs : Register) (rhs : Source)
  /-- `dest := source + value` -/
  | addImmediate (dest source : Register) (value : Int)
  /-- `dest := value` -/
  | loadImmediate (dest : Register) (value : Int)
  /-- `dest := source` -/
  | move (dest source : Register)
  deriving DecidableEq, Repr, Inhabited

/-- The number in a line, if there is one. -/
def Line.number? : Line → Option Int
  | operate _ _ _ (.literal value) | addImmediate _ _ value | loadImmediate _ value => some value
  | operate _ _ _ (.register _) | move _ _ => none

/-- Whether a line can be written: a number in it is not too long. -/
def Line.isWritable (line : Line) : Bool :=
  line.number?.all Text.isWritable

/-- A line as it is written, if it can be. -/
def Line.text : Line → String
  | operate op dest lhs rhs => s!"    {op.name} {dest.name}, {lhs.name}, {rhs.text}"
  | addImmediate dest source value => s!"    addi {dest.name}, {source.name}, {value}"
  | loadImmediate dest value => s!"    li {dest.name}, {value}"
  | move dest source => s!"    mv {dest.name}, {source.name}"

/-- The texts of a section of lines, under the heading of the section. -/
def sectionTexts (lines : List Line) : List String :=
  ".text" :: lines.map Line.text

/-- Lines of text, each closed by a line end; at least one. -/
def listing (texts : List String) : String :=
  "\n".intercalate texts ++ "\n"

end Straightline.Assembly
