/-
  Instructions for programs.

  The operations of an expression are put in temporaries, from left to right
  and inner ones first; each operation takes the next temporary.  So the
  temporaries that an expression writes are those from the first free one up
  to the next free one, and the variables of the program are left alone.

  * `Expr.translate`, `Program.translate`: the instructions;
  * `Expr.translate_value`: what they compute for an expression;
  * `Program.returned_translate`: they return what the program returns.
-/
import Straightline.Proofs.Phrase

namespace Straightline

open Assembly (Operation)

/-! ## Temporaries -/

theorem toList_temporary (n : Nat) : (temporary n).toList = '%' :: 't' :: Nat.toDigits 10 n := by
  have heq : temporary n = "%t" ++ n.repr := rfl
  rw [heq, String.toList_append, Nat.toList_repr]
  rfl

theorem isTemporary_temporary (n : Nat) : isTemporary (temporary n) = true := by
  simp [isTemporary, toList_temporary]

theorem temporary_inj {m n : Nat} (h : temporary m = temporary n) : m = n := by
  have hdigits : Nat.toDigits 10 m = Nat.toDigits 10 n := by
    simpa [toList_temporary] using congrArg String.toList h
  calc m = Nat.ofDigitChars 10 (Nat.toDigits 10 m) 0 := Nat.ofDigitChars_ten_toDigits.symm
    _ = n := by rw [hdigits, Nat.ofDigitChars_ten_toDigits]

/-! ## Instructions -/

/-- The instructions for an expression, the operand with its value, and the
    number of temporaries in use then. -/
structure Expr.Translation where
  instructions : List Instruction
  operand : Operand
  temporaries : Nat

/-- The instructions for an expression, if `n` temporaries are in use. -/
def Expr.translate (n : Nat) : Expr → Expr.Translation
  | .name x => ⟨[], .var x, n⟩
  | .constant value => ⟨[], .imm value, n⟩
  | .operation op lhs rhs =>
    let left := lhs.translate n
    let right := rhs.translate left.temporaries
    let result := temporary right.temporaries
    ⟨left.instructions ++ right.instructions ++
        [⟨op.opcode, [left.operand, right.operand], some result⟩],
      .var result, right.temporaries + 1⟩

/-- The instructions for a statement, if `n` temporaries are in use, and the
    number in use then. -/
def Statement.translate (n : Nat) : Statement → List Instruction × Nat
  | .declare _ => ([], n)
  | .assign x e =>
    let value := e.translate n
    (value.instructions ++ [⟨.mov, [value.operand], some x⟩], value.temporaries)
  | .ret e =>
    let value := e.translate n
    (value.instructions ++ [⟨.ret, [value.operand], none⟩], value.temporaries)

@[inherit_doc Statement.translate]
def Program.translate (n : Nat) : Program → List Instruction × Nat
  | [] => ([], n)
  | s :: rest =>
    let first := s.translate n
    let others := translate first.2 rest
    (first.1 ++ others.1, others.2)

/-! ## What they mention -/

namespace Expr

variable {e : Expr} {n : Nat} {i : Instruction} {x : String}

theorem le_temporaries (e : Expr) (n : Nat) : n ≤ (e.translate n).temporaries := by
  induction e generalizing n with
  | name x => exact Nat.le_refl n
  | constant value => exact Nat.le_refl n
  | operation op lhs rhs ihl ihr =>
    have hl := ihl n
    have hr := ihr (lhs.translate n).temporaries
    simp only [translate]
    omega

/-- Every instruction for an expression writes a temporary, one of those it
    takes, and does not return. -/
theorem result_translate (hi : i ∈ (e.translate n).instructions) :
    i.opcode ≠ .ret ∧
      ∃ m, n ≤ m ∧ m < (e.translate n).temporaries ∧ i.result = some (temporary m) := by
  induction e generalizing n with
  | name x => cases hi
  | constant value => cases hi
  | operation op lhs rhs ihl ihr =>
    have hl := lhs.le_temporaries n
    have hr := rhs.le_temporaries (lhs.translate n).temporaries
    simp only [translate, List.mem_append, List.mem_singleton] at hi ⊢
    rcases hi with (hi | hi) | rfl
    · obtain ⟨hret, m, hm, hlt, hresult⟩ := ihl hi
      exact ⟨hret, m, hm, by omega, hresult⟩
    · obtain ⟨hret, m, hm, hlt, hresult⟩ := ihr hi
      exact ⟨hret, m, by omega, by omega, hresult⟩
    · exact ⟨op.opcode_ne_ret, _, by omega, by omega, rfl⟩

/-- The operand with the value of an expression: a constant, a variable that
    it reads, or a temporary that it writes. -/
theorem operand_translate (h : (e.translate n).operand = .var x) :
    e.reads x = true ∨ ∃ m, n ≤ m ∧ m < (e.translate n).temporaries ∧ x = temporary m := by
  cases e with
  | name y =>
    cases h
    exact .inl (by simp [reads])
  | constant value => cases h
  | operation op lhs rhs =>
    cases h
    have hl := lhs.le_temporaries n
    have hr := rhs.le_temporaries (lhs.translate n).temporaries
    exact .inr ⟨_, by omega, Nat.lt_succ_self _, rfl⟩

theorem reads_or_temporary_of_operand (h : (e.translate n).operand = .var x) :
    e.reads x = true ∨ ∃ m, x = temporary m := by
  rcases operand_translate h with h | ⟨m, -, -, h⟩
  · exact .inl h
  · exact .inr ⟨m, h⟩

theorem mentions_translate (hi : i ∈ (e.translate n).instructions) (hx : i.Mentions x) :
    e.reads x = true ∨ ∃ m, x = temporary m := by
  rcases hx with hx | hx
  · obtain ⟨-, m, -, -, hresult⟩ := result_translate hi
    exact .inr ⟨m, Option.some.inj (hx.symm.trans hresult)⟩
  · induction e generalizing n with
    | name y => cases hi
    | constant value => cases hi
    | operation op lhs rhs ihl ihr =>
      simp only [translate, List.mem_append, List.mem_singleton] at hi
      have hleft : lhs.reads x = true → (operation op lhs rhs).reads x = true := by simp_all [reads]
      have hright : rhs.reads x = true → (operation op lhs rhs).reads x = true := by simp_all [reads]
      rcases hi with (hi | hi) | rfl
      · exact (ihl hi).imp_left hleft
      · exact (ihr hi).imp_left hright
      · simp only [Instruction.reads_iff, List.mem_cons, List.not_mem_nil, or_false] at hx
        rcases hx with hx | hx
        · exact (reads_or_temporary_of_operand hx.symm).imp_left hleft
        · exact (reads_or_temporary_of_operand hx.symm).imp_left hright

/-! ## What they compute -/

/-- The instructions for an expression change no variable but the temporaries
    that they take. -/
theorem performAll_translate (env : Environment)
    (hx : ∀ m, n ≤ m → m < (e.translate n).temporaries → x ≠ temporary m) :
    performAll (e.translate n).instructions env x = env x := by
  refine performAll_of_result_ne env fun i hi hresult => ?_
  obtain ⟨-, m, hm, hlt, hresult'⟩ := result_translate hi
  exact hx m hm hlt (Option.some.inj (hresult.symm.trans hresult'))

theorem performAll_translate_of_not_isTemporary (env : Environment) (hx : isTemporary x = false) :
    performAll (e.translate n).instructions env x = env x := by
  refine performAll_translate env fun m _ _ heq => ?_
  rw [heq, isTemporary_temporary] at hx
  cases hx

/-- **The instructions for an expression compute its value.** -/
theorem translate_value (hplain : ∀ x, e.reads x = true → isTemporary x = false)
    (env : Environment) :
    (e.translate n).operand.value (performAll (e.translate n).instructions env) = e.value env := by
  induction e generalizing n env with
  | name x => rfl
  | constant value => rfl
  | operation op lhs rhs ihl ihr =>
    have hl : ∀ x, lhs.reads x = true → isTemporary x = false :=
      fun x hx => hplain x (by simp [reads, hx])
    have hr : ∀ x, rhs.reads x = true → isTemporary x = false :=
      fun x hx => hplain x (by simp [reads, hx])
    let left := lhs.translate n
    let right := rhs.translate left.temporaries
    let env₁ := performAll left.instructions env
    let env₂ := performAll right.instructions env₁
    -- The right operand finds the variables unchanged, and leaves the left
    -- operand, computed before it, unchanged.
    have hright : right.operand.value env₂ = rhs.value env := by
      rw [ihr hr env₁]
      exact value_congr fun x hx => performAll_translate_of_not_isTemporary env (hr x hx)
    have hleft : left.operand.value env₂ = lhs.value env := by
      rw [← ihl hl env]
      rcases hoperand : left.operand with x | value
      · refine performAll_translate env₁ fun m hm _ heq => ?_
        rcases operand_translate hoperand with hreads | ⟨m', -, hlt, heq'⟩
        · have hplain := hl x hreads
          rw [heq, isTemporary_temporary] at hplain
          cases hplain
        · rw [temporary_inj (heq'.symm.trans heq)] at hlt
          exact absurd hlt (Nat.not_lt.2 hm)
      · rfl
    simp only [translate, performAll_append]
    refine Instruction.perform_result rfl ?_
    rw [Instruction.value?_opcode]
    exact congrArg some (congrArg₂ op.apply hleft hright)

theorem noReturn_translate (e : Expr) (n : Nat) : NoReturn (e.translate n).instructions :=
  fun _ hi => (result_translate hi).1

theorem translate_value_of_agree (hplain : ∀ x, e.reads x = true → isTemporary x = false)
    {env env' : Environment} (henv : ∀ x, isTemporary x = false → env' x = env x) :
    (e.translate n).operand.value (performAll (e.translate n).instructions env') = e.value env :=
  (translate_value hplain env').trans (value_congr fun x hx => henv x (hplain x hx))

end Expr

theorem Statement.mentions_translate {s : Statement} {n : Nat} {i : Instruction} {x : String}
    (hi : i ∈ (s.translate n).1) (hx : i.Mentions x) : s.uses x = true ∨ ∃ m, x = temporary m := by
  cases s with
  | declare y => cases hi
  | assign y e =>
    have hreads : e.reads x = true → (assign y e).uses x = true := by simp_all [uses]
    rcases List.mem_append.1 hi with hi | hi
    · exact (Expr.mentions_translate hi hx).imp_left hreads
    · cases List.mem_singleton.1 hi
      rcases hx with hx | hx
      · cases hx
        exact .inl (by simp [uses])
      · rw [Instruction.reads_iff, List.mem_singleton] at hx
        exact (Expr.reads_or_temporary_of_operand hx.symm).imp_left hreads
  | ret e =>
    rcases List.mem_append.1 hi with hi | hi
    · exact Expr.mentions_translate hi hx
    · cases List.mem_singleton.1 hi
      rcases hx with hx | hx
      · cases hx
      · rw [Instruction.reads_iff, List.mem_singleton] at hx
        exact Expr.reads_or_temporary_of_operand hx.symm

namespace Statement

variable {y : String} {e : Expr} {n : Nat}

theorem noReturn_translate_assign : NoReturn ((assign y e).translate n).1 := by
  intro i hi
  rcases List.mem_append.1 hi with hi | hi
  · exact e.noReturn_translate n i hi
  · rw [List.mem_singleton.1 hi]
    simp

/-- The instructions for an assignment do to the variables of the program what
    the assignment does. -/
theorem performAll_translate_assign (he : ∀ x, e.reads x = true → isTemporary x = false)
    {env env' : Environment} (henv : ∀ x, isTemporary x = false → env' x = env x)
    {x : String} (hx : isTemporary x = false) :
    performAll ((assign y e).translate n).1 env' x = Function.update env y (e.value env) x := by
  rw [translate, performAll_append]
  by_cases hxy : x = y
  · subst hxy
    rw [Function.update_self, ← Expr.translate_value_of_agree he henv]
    exact Function.update_self ..
  · have hne : (⟨.mov, [(e.translate n).operand], some y⟩ : Instruction).result ≠ some x := by
      simpa using Ne.symm hxy
    rw [Function.update_of_ne hxy, ← henv x hx,
      ← Expr.performAll_translate_of_not_isTemporary (e := e) (n := n) env' hx]
    exact Instruction.perform_of_result_ne hne _

end Statement

namespace Program

theorem mentions_translate {p : Program} {n : Nat} {i : Instruction} {x : String}
    (hi : i ∈ (translate n p).1) (hx : i.Mentions x) :
    uses x p = true ∨ ∃ m, x = temporary m := by
  induction p generalizing n with
  | nil => cases hi
  | cons s rest ih =>
    rcases List.mem_append.1 hi with hi | hi
    · exact (Statement.mentions_translate hi hx).imp_left fun h => by simp [uses, h]
    · exact (ih hi).imp_left fun h => by simp_all [uses]

/-- **The instructions for a program return what the program returns**, if its
    variables are no temporaries. -/
theorem returned_translate {p : Program} (hplain : ∀ x, uses x p = true → isTemporary x = false)
    (n : Nat) {env env' : Environment} (henv : ∀ x, isTemporary x = false → env' x = env x) :
    returned (translate n p).1 env' = value p env := by
  induction p generalizing n env env' with
  | nil => rfl
  | cons s rest ih =>
    have hrest : ∀ x, uses x rest = true → isTemporary x = false :=
      fun x hx => hplain x (by simp_all [uses])
    cases s with
    | declare y => exact ih hrest n henv
    | assign y e =>
      have he : ∀ x, e.reads x = true → isTemporary x = false :=
        fun x hx => hplain x (by simp [uses, Statement.uses, hx])
      rw [translate, returned_append Statement.noReturn_translate_assign]
      exact ih hrest _ fun x hx => Statement.performAll_translate_assign he henv hx
    | ret e =>
      have he : ∀ x, e.reads x = true → isTemporary x = false :=
        fun x hx => hplain x (by simp [uses, Statement.uses, hx])
      rw [translate, Statement.translate, List.append_assoc,
        returned_append (e.noReturn_translate n), value, ← Expr.translate_value_of_agree he henv]
      rfl

end Program

end Straightline
