/-
  What instructions and lines of assembly do.

  Instructions read and write an environment, which has an integer for each
  variable; lines of assembly read and write registers.  All numbers are
  integers of any size.  Both run from top to bottom; instructions end at the
  first return.

  * `Instruction.perform`, `performAll`, `returned`: instructions;
  * `readsFirst`: whether code reads a variable before it writes it;
  * `Assembly.Line.step`, `execute`: lines of assembly.
-/
import Mathlib.Logic.Function.Basic
import Straightline.Instruction
import Straightline.Assembly

namespace Straightline

open Assembly (Line Operation Source)

/-- The number that an operation computes. -/
def Assembly.Operation.apply : Operation → Int → Int → Int
  | .add, a, b => a + b
  | .sub, a, b => a - b
  | .mul, a, b => a * b

/-- The opcode of an operation. -/
def Assembly.Operation.opcode : Operation → Opcode
  | .add => .add
  | .sub => .sub
  | .mul => .mul

theorem Assembly.Operation.opcode_ne_ret (op : Operation) : op.opcode ≠ .ret := by
  cases op <;> decide

/-! ## Instructions -/

/-- The values of variables. -/
abbrev Environment := String → Int

/-- The value of an operand. -/
def Operand.value (env : Environment) : Operand → Int
  | .var name => env name
  | .imm value => value

namespace Instruction

theorem reads_iff {i : Instruction} {x : String} : i.reads x = true ↔ .var x ∈ i.operands :=
  List.contains_iff_mem

/-- Whether an instruction writes or reads a variable. -/
def Mentions (i : Instruction) (x : String) : Prop :=
  i.result = some x ∨ i.reads x = true

/-- The number that an instruction computes, if it has the operands that its
    opcode asks for. -/
def value? (i : Instruction) (env : Environment) : Option Int :=
  match i.opcode, i.operands with
  | .add, [a, b] => some (Operation.add.apply (a.value env) (b.value env))
  | .sub, [a, b] => some (Operation.sub.apply (a.value env) (b.value env))
  | .mul, [a, b] => some (Operation.mul.apply (a.value env) (b.value env))
  | .mov, [a] => some (a.value env)
  | _, _ => none

theorem value?_opcode (op : Operation) (lhs rhs : Operand) (result : Option String)
    (env : Environment) : value? ⟨op.opcode, [lhs, rhs], result⟩ env =
      some (op.apply (lhs.value env) (rhs.value env)) := by
  cases op <;> rfl

/-- The environment after an instruction: its result has the number that it
    computes. -/
def perform (i : Instruction) (env : Environment) : Environment :=
  match i.result, i.value? env with
  | some name, some value => Function.update env name value
  | _, _ => env

theorem perform_of_result_ne {i : Instruction} {name : String} (h : i.result ≠ some name)
    (env : Environment) : i.perform env name = env name := by
  rcases hresult : i.result with _ | target
  · simp only [perform, hresult]
  · rcases hvalue : i.value? env with _ | value
    · simp only [perform, hresult, hvalue]
    · have hne : name ≠ target := fun heq => h (heq ▸ hresult)
      simp only [perform, hresult, hvalue, Function.update_of_ne hne]

theorem perform_result {i : Instruction} {name : String} {value : Int} {env : Environment}
    (hresult : i.result = some name) (hvalue : i.value? env = some value) :
    i.perform env name = value := by
  simp only [perform, hresult, hvalue, Function.update_self]

end Instruction

/-- The environment after some instructions. -/
def performAll (code : List Instruction) (env : Environment) : Environment :=
  code.foldl (fun env i => i.perform env) env

theorem performAll_append (front back : List Instruction) (env : Environment) :
    performAll (front ++ back) env = performAll back (performAll front env) :=
  List.foldl_append

/-- What is not written keeps its value. -/
theorem performAll_of_result_ne {name : String} : ∀ {code : List Instruction} (env : Environment),
    (∀ i ∈ code, i.result ≠ some name) → performAll code env name = env name
  | [], _, _ => rfl
  | i :: rest, env, h => by
    have hrest := performAll_of_result_ne (i.perform env) fun j hj => h j (List.mem_cons_of_mem i hj)
    exact hrest.trans (Instruction.perform_of_result_ne (h i List.mem_cons_self) env)

/-- The value of the first return, if it has one. -/
def returned : List Instruction → Environment → Option Int
  | [], _ => none
  | i :: rest, env =>
    if i.opcode = .ret then i.operands.head?.map (Operand.value env)
    else returned rest (i.perform env)

/-- Whether code reads a variable, up to the first return, before it writes
    it. -/
def readsFirst (name : String) : List Instruction → Bool
  | [] => false
  | i :: rest =>
    i.reads name || (i.opcode ≠ .ret && i.result ≠ some name && readsFirst name rest)

/-- Whether no instruction is a return. -/
def NoReturn (code : List Instruction) : Prop :=
  ∀ i ∈ code, i.opcode ≠ .ret

theorem noReturn_or_exists_first : ∀ code : List Instruction, NoReturn code ∨
    ∃ pre i rest, code = pre ++ i :: rest ∧ NoReturn pre ∧ i.opcode = .ret
  | [] => .inl (List.forall_mem_nil _)
  | i :: rest => by
    by_cases hi : i.opcode = .ret
    · exact .inr ⟨[], i, rest, rfl, List.forall_mem_nil _, hi⟩
    · rcases noReturn_or_exists_first rest with h | ⟨pre, j, rest', rfl, hpre, hj⟩
      · exact .inl (List.forall_mem_cons.2 ⟨hi, h⟩)
      · exact .inr ⟨i :: pre, j, rest', rfl, List.forall_mem_cons.2 ⟨hi, hpre⟩, hj⟩

theorem NoReturn.isPrefix {pre pre' rest : List Instruction} {i : Instruction}
    (hpre' : NoReturn pre') (h : pre' <+: pre ++ i :: rest) (hi : i.opcode = .ret) :
    pre' <+: pre := by
  rcases List.prefix_or_prefix_of_prefix h (List.prefix_append pre _) with h' | ⟨tail, rfl⟩
  · exact h'
  · rw [List.prefix_append_right_inj] at h
    cases tail with
    | nil => simp
    | cons j tail =>
      rw [List.cons_prefix_cons] at h
      exact absurd hi (h.1 ▸ hpre' j (by simp))

theorem returned_append {pre : List Instruction} (hpre : NoReturn pre) (rest : List Instruction)
    (env : Environment) : returned (pre ++ rest) env = returned rest (performAll pre env) := by
  induction pre generalizing env with
  | nil => rfl
  | cons i pre ih =>
    rw [List.cons_append, returned, if_neg (hpre i List.mem_cons_self)]
    exact ih (fun j hj => hpre j (List.mem_cons_of_mem i hj)) _

theorem readsFirst_append_left {name : String} {pre : List Instruction}
    (h : readsFirst name pre = true) (rest : List Instruction) :
    readsFirst name (pre ++ rest) = true := by
  induction pre with
  | nil => cases h
  | cons i pre ih =>
    simp only [List.cons_append, readsFirst, Bool.or_eq_true, Bool.and_eq_true] at h ⊢
    exact h.imp_right fun h => ⟨h.1, ih h.2⟩

theorem readsFirst_append_right {name : String} {pre rest : List Instruction}
    (hpre : NoReturn pre) (hwrite : ∀ i ∈ pre, i.result ≠ some name)
    (h : readsFirst name rest = true) : readsFirst name (pre ++ rest) = true := by
  induction pre with
  | nil => exact h
  | cons i pre ih =>
    have hrest := ih (fun j hj => hpre j (List.mem_cons_of_mem i hj))
      fun j hj => hwrite j (List.mem_cons_of_mem i hj)
    simp [readsFirst, hrest, hpre i List.mem_cons_self, hwrite i List.mem_cons_self]

theorem exists_reads_of_readsFirst {name : String} {code : List Instruction}
    (h : readsFirst name code = true) : ∃ i ∈ code, i.reads name = true := by
  induction code with
  | nil => cases h
  | cons i rest ih =>
    simp only [readsFirst, Bool.or_eq_true, Bool.and_eq_true] at h
    rcases h with h | ⟨-, h⟩
    · exact ⟨i, List.mem_cons_self, h⟩
    · obtain ⟨j, hj, hreads⟩ := ih h
      exact ⟨j, List.mem_cons_of_mem i hj, hreads⟩

/-! ## Lines of assembly -/

/-- The contents of the registers. -/
abbrev Registers := Register → Int

namespace Assembly

/-- The value of a source. -/
def Source.value (regs : Registers) : Source → Int
  | .register r => regs r
  | .literal value => value

/-- The register that a line writes. -/
def Line.dest : Line → Register
  | .operate _ dest _ _ | .addImmediate dest _ _ | .loadImmediate dest _ | .move dest _ => dest

/-- The number that a line writes. -/
def Line.value (regs : Registers) : Line → Int
  | .operate op _ lhs rhs => op.apply (regs lhs) (rhs.value regs)
  | .addImmediate _ source value => regs source + value
  | .loadImmediate _ value => value
  | .move _ source => regs source

/-- The registers after a line. -/
def Line.step (line : Line) (regs : Registers) : Registers :=
  Function.update regs line.dest (line.value regs)

end Assembly

/-- The registers after some lines. -/
def execute (lines : List Line) (regs : Registers) : Registers :=
  lines.foldl (fun regs line => line.step regs) regs

theorem execute_append (front back : List Line) (regs : Registers) :
    execute (front ++ back) regs = execute back (execute front regs) :=
  List.foldl_append

theorem execute_singleton_dest (line : Line) (regs : Registers) :
    execute [line] regs line.dest = line.value regs :=
  Function.update_self ..

/-- A register that no line writes keeps its contents. -/
theorem execute_of_dest_ne {r : Register} : ∀ {lines : List Line} (regs : Registers),
    (∀ line ∈ lines, line.dest ≠ r) → execute lines regs r = regs r
  | [], _, _ => rfl
  | line :: rest, regs, h => by
    have hrest := execute_of_dest_ne (line.step regs) fun l hl => h l (List.mem_cons_of_mem line hl)
    exact hrest.trans (Function.update_of_ne (h line List.mem_cons_self).symm _ _)

end Straightline
