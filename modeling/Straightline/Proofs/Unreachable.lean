/-
  Code that is never reached.

  Nothing behind the first return is lowered, but what is read there is needed
  until the end.  So unreachable code can keep a variable in its register, and
  another one has to give up its own.

  * `lowerFrom_append_of_return`: nothing behind a return is lowered;
  * `unreachable_code_not_ignored`: a case where the assembly changes;
  * `unreachable_code_only_moves_registers`: what may change, and when.
-/
import Straightline.Proofs.PairedRuns

namespace Straightline

open Assembly (Line)

/-! ## Code with a tail -/

section

variable {loadRight : Bool} {code tail : List Instruction}

/-- A tail adds what it reads to what is read from any index on. -/
theorem readsFrom_append {p : Nat} (hp : p ≤ code.length) (x : String) :
    ReadsFrom (code ++ tail) p x ↔ ReadsFrom code p x ∨ ∃ j ∈ tail, j.reads x = true := by
  simp only [ReadsFrom, List.drop_append_of_le_length hp, List.mem_append]
  constructor
  · rintro ⟨j, hj | hj, hreads⟩
    · exact .inl ⟨j, hj, hreads⟩
    · exact .inr ⟨j, hj, hreads⟩
  · rintro (⟨j, hj, hreads⟩ | ⟨j, hj, hreads⟩)
    · exact ⟨j, .inl hj, hreads⟩
    · exact ⟨j, .inr hj, hreads⟩

/-- Nothing behind a return is lowered. -/
theorem Lowering.lowerFrom_append_of_return (hreturn : ∃ i ∈ code, i.opcode = .ret)
    (position : Nat) :
    lowerFrom loadRight position (code ++ tail) = lowerFrom loadRight position code := by
  induction code generalizing position with
  | nil =>
    obtain ⟨i, hi, -⟩ := hreturn
    cases hi
  | cons i rest ih =>
    rw [List.cons_append, lowerFrom, lowerFrom]
    by_cases hi : i.opcode = .ret
    · rw [if_pos hi, if_pos hi]
    · obtain ⟨j, hj, hopcode⟩ := hreturn
      have hmem : j ∈ rest := by
        rcases List.mem_cons.1 hj with rfl | hj
        · exact absurd hopcode hi
        · exact hj
      rw [if_neg hi, if_neg hi, ih ⟨j, hmem, hopcode⟩]

/-- Code without its tail, and with it. -/
def Outlook.withTail (loadRight : Bool) (code tail : List Instruction) : Outlook where
  loadRight := loadRight
  code := code
  code' := code ++ tail
  extra x := ∃ j ∈ tail, j.reads x = true
  readsFrom_iff _ hp := readsFrom_append hp

end

/-! ## What unreachable code does -/

/-- Unreachable code is not ignored: sixteen variables are set, and the last one
    takes the register of the first, unless this one is read behind the
    return. -/
theorem unreachable_code_not_ignored :
    ¬ ∀ (loadRight : Bool) (pre tail : List Instruction) (r : Instruction), r.opcode = .ret →
      assemble loadRight (pre ++ [r] ++ tail) = assemble loadRight (pre ++ [r]) := by
  intro h
  let names := ["a", "b", "c", "d", "e", "f", "g", "h", "i", "j", "k", "l", "m", "n", "o", "p"]
  have heq := h false (names.map fun x => ⟨.mov, [.imm 7], some x⟩) [⟨.ret, [.var "a"], none⟩]
    ⟨.ret, [.var "p"], none⟩ rfl
  exact absurd (congrArg Except.toOption heq) (by decide +kernel)

/-- **Unreachable code can change nothing but the choice of registers.**  Let
    any instructions stand behind some code that ends in a return.

    * The assembly, or the error, is the same as without them, unless the
      instructions up to the first return, or to the first one that is refused,
      ask for registers for more than fifteen variables, and one of these
      variables is read by the additional instructions but not by the code from
      its first return on.
    * In any case, either there are not registers enough, or lowering succeeds
      as it does without them, or fails for the same reason, and the lines
      written are the same but for the registers in them. -/
theorem unreachable_code_only_moves_registers (loadRight : Bool) (pre tail : List Instruction)
    (r : Instruction) (hr : r.opcode = .ret) :
    (assemble loadRight (pre ++ [r] ++ tail) = assemble loadRight (pre ++ [r]) ∨
      (15 < (askedBy loadRight (pre ++ [r])).card ∧
        ∃ x ∈ askedBy loadRight (pre ++ [r]), (∃ j ∈ tail, j.reads x = true) ∧
          ∀ j ∈ (pre ++ [r]).dropWhile (·.opcode ≠ .ret), j.reads x = false)) ∧
    ((∃ e, (lower loadRight (pre ++ [r] ++ tail)).1 = .error (.exhausted e)) ∨
      ((lower loadRight (pre ++ [r] ++ tail)).1 = (lower loadRight (pre ++ [r])).1 ∧
        (lower loadRight (pre ++ [r] ++ tail)).2.lines.map Line.shape =
          (lower loadRight (pre ++ [r])).2.lines.map Line.shape)) := by
  let o := Outlook.withTail loadRight (pre ++ [r]) tail
  have hsame : Lowering.lowerFrom o.loadRight 0 o.code' = Lowering.lowerFrom o.loadRight 0 o.code :=
    Lowering.lowerFrom_append_of_return ⟨r, by simp, hr⟩ 0
  exact ⟨o.assemble_eq_or_contested hsame, o.exhausted_or_shapes_eq hsame⟩

/-- The theorem where the assembly does change: both times all is lowered, and
    in the second text another register is taken. -/
theorem unreachable_code_only_moves_registers_sixteen :
    let names := ["a", "b", "c", "d", "e", "f", "g", "h", "i", "j", "k", "l", "m", "n", "o", "p"]
    let pre : List Instruction := names.map fun x => ⟨.mov, [.imm 7], some x⟩
    let r : Instruction := ⟨.ret, [.var "p"], none⟩
    let tail : List Instruction := [⟨.ret, [.var "a"], none⟩]
    r.opcode = .ret ∧
      assemble true (pre ++ [r] ++ tail) ≠ assemble true (pre ++ [r]) ∧
      15 < (askedBy true (pre ++ [r])).card ∧
      (lower true (pre ++ [r] ++ tail)).2.lines.map Line.shape =
        (lower true (pre ++ [r])).2.lines.map Line.shape := by
  intro names pre r tail
  have hne : (assemble true (pre ++ [r] ++ tail)).toOption ≠
      (assemble true (pre ++ [r])).toOption := by
    decide +kernel
  have hok : (lower true (pre ++ [r] ++ tail)).1.isOk = true := by decide +kernel
  obtain ⟨hequal | hcontested, ⟨e, he⟩ | hshapes⟩ :=
    unreachable_code_only_moves_registers true pre tail r rfl
  · exact absurd (congrArg Except.toOption hequal) hne
  · exact absurd (congrArg Except.toOption hequal) hne
  · rw [he] at hok
    cases hok
  · exact ⟨rfl, fun hequal => hne (congrArg Except.toOption hequal), hcontested.1, hshapes.2⟩

end Straightline
