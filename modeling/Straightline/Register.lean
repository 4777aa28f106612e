/-
  The registers that hold variables.

  Fifteen registers of the target are used, in three groups that are tried in
  turn: three temporaries, the eight argument registers, four more
  temporaries.

  * `Register`, in the order in which registers are given out (`all`);
  * `Register.number`, `Register.name`, `Register.ofNumber?`;
  * `Register.result`: the register for the value of a program.
-/

namespace Straightline

/-- The registers that hold variables, in the order in which they are given
    out. -/
inductive Register where
  | t0
  | t1
  | t2
  | a0
  | a1
  | a2
  | a3
  | a4
  | a5
  | a6
  | a7
  | t3
  | t4
  | t5
  | t6
  deriving DecidableEq, Repr, Inhabited

namespace Register

/-- The registers in the order in which they are given out. -/
def all : List Register :=
  [t0, t1, t2, a0, a1, a2, a3, a4, a5, a6, a7, t3, t4, t5, t6]

/-- The number of a register in the target's register file. -/
def number : Register → Nat
  | t0 => 5
  | t1 => 6
  | t2 => 7
  | a0 => 10
  | a1 => 11
  | a2 => 12
  | a3 => 13
  | a4 => 14
  | a5 => 15
  | a6 => 16
  | a7 => 17
  | t3 => 28
  | t4 => 29
  | t5 => 30
  | t6 => 31

/-- The name of a register in assembly text. -/
def name : Register → String
  | t0 => "t0"
  | t1 => "t1"
  | t2 => "t2"
  | a0 => "a0"
  | a1 => "a1"
  | a2 => "a2"
  | a3 => "a3"
  | a4 => "a4"
  | a5 => "a5"
  | a6 => "a6"
  | a7 => "a7"
  | t3 => "t3"
  | t4 => "t4"
  | t5 => "t5"
  | t6 => "t6"

/-- The register for the value of a program. -/
def result : Register :=
  a0

/-- The register of a given number. -/
def ofNumber? (n : Int) : Option Register :=
  all.find? (·.number = n)

theorem mem_all (r : Register) : r ∈ all := by
  cases r <;> decide

theorem nodup_all : all.Nodup := by
  decide

theorem ofNumber?_number (r : Register) : ofNumber? r.number = some r := by
  cases r <;> decide

end Register

/-- The refusal of a number that no such register has. -/
structure UnknownRegister where
  number : Int
  deriving DecidableEq, Repr

/-- The wording of the refusal. -/
def UnknownRegister.message (e : UnknownRegister) : String :=
  s!"Invalid register number: {e.number}"

/-- The register of a given number, which has to be one of those in use. -/
def Register.ofNumber (n : Int) : Except UnknownRegister Register :=
  match ofNumber? n with
  | some r => .ok r
  | none => .error ⟨n⟩

end Straightline
