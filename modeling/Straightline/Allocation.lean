/-
  Which variable is in which register.

  Variables get registers when they are first met.  A new variable takes the
  first free register; when all are in use it takes over the register of the
  oldest variable that is no longer needed, and if there is none it gets
  nothing.  A variable is needed while it is pinned, or while the current
  instruction or a later one reads it.

  * `Allocation`: the code, the position in it, what is pinned, and the
    variables with their registers, oldest first;
  * `Allocation.obtain`: the register of a variable, given out if need be;
  * `Allocation.advance`, `Allocation.pin`.
-/
import Straightline.Instruction
import Straightline.Register

namespace Straightline

/-- An assignment of registers to variables at a point of some code. -/
structure Allocation where
  /-- The code for which registers are given out. -/
  code : List Instruction
  /-- The index of the current instruction. -/
  position : Int := 0
  /-- Variables that keep their registers until the next advance. -/
  pinned : List String := []
  /-- The variables that are in registers, oldest first. -/
  assigned : List (String × Register) := []
  deriving DecidableEq, Repr

/-- No register is free and no variable can give up its own. -/
structure Exhausted where
  name : String
  position : Int
  deriving DecidableEq, Repr

/-- The wording of the refusal. -/
def Exhausted.message (e : Exhausted) : String :=
  s!"No available register for {e.name} at instruction {e.position}"

/-- How a variable came by its register. -/
inductive Grant where
  /-- It had the register already. -/
  | held (r : Register)
  /-- The register was free. -/
  | fresh (r : Register)
  /-- The register was another variable's. -/
  | taken (r : Register) (victim : String)
  deriving DecidableEq, Repr

/-- The register of a grant. -/
def Grant.register : Grant → Register
  | held r | fresh r | taken r _ => r

/-- What there is to say about a grant of a register to a variable. -/
def Grant.notes (name : String) : Grant → List String
  | held _ => []
  | fresh r => [s!"assign {name} -> {r.name}"]
  | taken r victim =>
    [s!"steal {r.name} from {victim} for {name}", s!"assign {name} -> {r.name}"]

namespace Allocation

/-- Moves to another instruction, whose result is then all that is pinned. -/
def advance (a : Allocation) (position : Int) (result : Option String) : Allocation :=
  { a with position := position, pinned := result.toList }

/-- Pins one more variable. -/
def pin (a : Allocation) (name : String) : Allocation :=
  { a with pinned := name :: a.pinned }

/-- The current instruction and those after it. -/
def ahead (a : Allocation) : List Instruction :=
  a.code.drop a.position.toNat

/-- Whether a variable is still needed, if `ahead` are the instructions to
    come.  Before the first instruction every variable is. -/
def isNeededIn (a : Allocation) (ahead : List Instruction) (name : String) : Bool :=
  a.pinned.contains name || a.position < 0 || ahead.any (·.reads name)

/-- Whether a variable is still needed: it is pinned, or the current
    instruction or a later one reads it. -/
def isNeeded (a : Allocation) (name : String) : Bool :=
  a.isNeededIn a.ahead name

/-- The register of a variable. -/
def register? (a : Allocation) (name : String) : Option Register :=
  a.assigned.lookup name

/-- The first register that no variable is in. -/
def free? (a : Allocation) : Option Register :=
  Register.all.find? fun r => !a.assigned.any (·.2 = r)

/-- The oldest variable in a register that is no longer needed. -/
def victim? (a : Allocation) : Option (String × Register) :=
  let ahead := a.ahead
  a.assigned.find? fun entry => !a.isNeededIn ahead entry.1

/-- The register of a variable, after giving it one if need be. -/
def obtain (a : Allocation) (name : String) : Except Exhausted (Grant × Allocation) :=
  match a.register? name with
  | some r => .ok (.held r, a)
  | none =>
    match a.free? with
    | some r => .ok (.fresh r, { a with assigned := a.assigned ++ [(name, r)] })
    | none =>
      match a.victim? with
      | some (victim, r) =>
        let kept := a.assigned.filter (·.1 ≠ victim)
        .ok (.taken r victim, { a with assigned := kept ++ [(name, r)] })
      | none => .error ⟨name, a.position⟩

end Allocation

end Straightline
