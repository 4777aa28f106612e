/-
  The order of the operands of a sum.

  A constant operand of an addition goes last, wherever it stood.  So the sum
  of a variable and a constant is lowered by the same step in both orders.
  Which registers that step is given depends on the whole code, but only on
  what is read from which index on, and there the order does not matter
  either.  Hence the operands of any number of such sums can be exchanged
  without a trace in what a run leaves behind.

  * `Instruction.isMixedSum`, `exchangeAt`: the sums, and code with the
    operands of some of them exchanged;
  * `SameReads`: codes that read the same variables from any index on;
  * `Allocation.obtain_of_recoded`: for such codes the same registers are given
    out;
  * `Lowering.Recoded`, `Lowering.coupling_recoded`: two runs that do the same
    for such codes;
  * `exchanging_operands_changes_nothing`: the whole run.
-/
import Mathlib.Data.List.Forall2
import Straightline.Proofs.Coupling
import Straightline.Proofs.Divergence

namespace Straightline

open Attempt (Failures Related Relates relates_modify relates_pure)

/-! ## Exchanging operands -/

namespace Instruction

/-- Whether an instruction adds two operands of which just one is a
    constant. -/
def isMixedSum (i : Instruction) : Bool :=
  i.opcode = .add && i.operands.length = 2 && i.operands.countP Operand.isImmediate = 1

/-- An instruction with its operands in the opposite order. -/
def exchanged (i : Instruction) : Instruction :=
  { i with operands := i.operands.reverse }

theorem reads_exchanged (i : Instruction) (x : String) : i.exchanged.reads x = i.reads x := by
  rw [Bool.eq_iff_iff, reads_iff, reads_iff]
  exact List.mem_reverse

theorem isMixedSum_cases {i : Instruction} (h : i.isMixedSum = true) :
    i.opcode = .add ∧ ∃ x value,
      i.operands = [.var x, .imm value] ∨ i.operands = [.imm value, .var x] := by
  obtain ⟨opcode, operands, result⟩ := i
  simp only [isMixedSum, Bool.and_eq_true, decide_eq_true_eq] at h
  obtain ⟨⟨rfl, hlength⟩, hcount⟩ := h
  obtain ⟨lhs, rhs, rfl⟩ := List.length_eq_two.1 hlength
  refine ⟨rfl, ?_⟩
  rcases lhs with x | a <;> rcases rhs with y | b
  · cases hcount
  · exact ⟨x, b, .inl rfl⟩
  · exact ⟨y, a, .inr rfl⟩
  · cases hcount

end Instruction

/-- Code with the operands of the instructions at the chosen indices
    exchanged. -/
def exchangeAt (chosen : Finset Nat) (code : List Instruction) : List Instruction :=
  code.mapIdx fun k i => if k ∈ chosen then i.exchanged else i

/-- An instruction, or the same sum with its operands exchanged. -/
def Reordered (i j : Instruction) : Prop :=
  j = i ∨ (i.isMixedSum = true ∧ j = i.exchanged)

theorem forall₂_exchangeAt {chosen : Finset Nat} {code : List Instruction}
    (h : ∀ k ∈ chosen, ∃ i, code[k]? = some i ∧ i.isMixedSum = true) :
    List.Forall₂ Reordered code (exchangeAt chosen code) := by
  refine List.forall₂_iff_get.2 ⟨by simp [exchangeAt], fun k hk hk' => ?_⟩
  simp only [exchangeAt, List.get_eq_getElem, List.getElem_mapIdx]
  split
  · next hchosen =>
    obtain ⟨i, hi, hmixed⟩ := h k hchosen
    rw [List.getElem?_eq_getElem hk, Option.some.injEq] at hi
    exact .inr ⟨hi ▸ hmixed, rfl⟩
  · exact .inl rfl

/-- **The step for a sum does not depend on the order of its operands.** -/
theorem Lowering.lower_of_reordered {i j : Instruction} (h : Reordered i j) (loadRight : Bool) :
    lower loadRight j = lower loadRight i := by
  obtain rfl | ⟨hmixed, rfl⟩ := h
  · rfl
  · obtain ⟨opcode, operands, result⟩ := i
    obtain ⟨rfl, x, value, rfl | rfl⟩ := Instruction.isMixedSum_cases hmixed
    · rfl
    · rfl

theorem Lowering.lowerFrom_of_reordered {code code' : List Instruction}
    (h : List.Forall₂ Reordered code code') (loadRight : Bool) (position : Nat) :
    lowerFrom loadRight position code' = lowerFrom loadRight position code := by
  induction h generalizing position with
  | nil => rfl
  | @cons i j code code' hij _ ih =>
    have hframe : j.opcode = i.opcode ∧ j.result = i.result := by
      obtain rfl | ⟨-, rfl⟩ := hij <;> exact ⟨rfl, rfl⟩
    rw [lowerFrom, lowerFrom, lower_of_reordered hij, hframe.1, hframe.2, ih]

/-! ## Registers for codes that read the same -/

/-- Two codes read the same variables from any index on. -/
def SameReads (code code' : List Instruction) : Prop :=
  ∀ p x, ReadsFrom code' p x ↔ ReadsFrom code p x

theorem sameReads_of_reordered {code code' : List Instruction}
    (h : List.Forall₂ Reordered code code') : SameReads code code' := by
  intro p x
  have hreads : List.Forall₂ (fun i j : Instruction => j.reads x = i.reads x)
      (code.drop p) (code'.drop p) := by
    refine (List.forall₂_drop p h).imp fun i j hij => ?_
    obtain rfl | ⟨-, rfl⟩ := hij
    · rfl
    · exact i.reads_exchanged x
  simp only [ReadsFrom, ← List.any_eq_true]
  generalize code.drop p = front at hreads ⊢
  generalize code'.drop p = front' at hreads ⊢
  induction hreads with
  | nil => rfl
  | cons hij _ ih => simp only [List.any_cons, Bool.or_eq_true, hij, ih]

namespace Allocation

/-- The same assignment of registers, for two codes. -/
structure Recoded (code code' : List Instruction) (a b : Allocation) : Prop where
  left_code : a.code = code
  right : b = { a with code := code' }

variable {code code' : List Instruction} {a b : Allocation}

theorem Recoded.isNeeded_eq (h : Recoded code code' a b) (hsame : SameReads code code')
    (x : String) : b.isNeeded x = a.isNeeded x := by
  obtain ⟨rfl, rfl⟩ := h
  have hahead : (code'.drop a.position.toNat).any (·.reads x) =
      (a.code.drop a.position.toNat).any (·.reads x) := by
    rw [Bool.eq_iff_iff, List.any_eq_true, List.any_eq_true]
    exact hsame _ x
  simp only [isNeeded, isNeededIn, ahead, hahead]

theorem Recoded.pin (h : Recoded code code' a b) (name : String) :
    (a.pin name).Recoded code code' (b.pin name) := by
  obtain ⟨hcode, rfl⟩ := h
  exact ⟨hcode, rfl⟩

theorem Recoded.advance (h : Recoded code code' a b) (position : Int) (result : Option String) :
    (a.advance position result).Recoded code code' (b.advance position result) := by
  obtain ⟨hcode, rfl⟩ := h
  exact ⟨hcode, rfl⟩

/-- **For codes that read the same, the same registers are given out.** -/
theorem obtain_of_recoded (h : Recoded code code' a b) (hsame : SameReads code code')
    (name : String) :
    (∃ granted a' b', a.obtain name = .ok (granted, a') ∧ b.obtain name = .ok (granted, b') ∧
      Recoded code code' a' b') ∨
    ∃ e, a.obtain name = .error e ∧ b.obtain name = .error e := by
  have hneeded := h.isNeeded_eq hsame
  obtain ⟨hcode, rfl⟩ := h
  obtain ⟨granted, a', ha, hb⟩ | herror | ⟨victim, r, a', -, -, -, -, hleft, hright⟩ :=
    obtain_eq_or (a := a) (b := { a with code := code' }) rfl
      (fun x hx => (hneeded x).trans hx) rfl name
  · have hlater : Later (· = name) a a' := later_of_obtain rfl ha
    refine .inl ⟨granted, a', _, ha, hb, hlater.code.trans hcode, ?_⟩
    rw [← hlater.position, ← pinned_of_obtain ha]
  · exact .inr herror
  · cases hleft.symm.trans ((hneeded victim).symm.trans hright)

end Allocation

/-! ## Steps for codes that read the same -/

namespace Lowering

/-- The same state, for two codes. -/
structure Recoded (code code' : List Instruction) (l l' : Lowering) : Prop where
  allocation : l.allocation.Recoded code code' l'.allocation
  lines : l'.lines = l.lines
  notes : l'.notes = l.notes

/-- Both runs fail, and for the same reason. -/
def recodedFailures (code code' : List Instruction) : Failures LowerError Lowering where
  both e e' l l' := e' = e ∧ Recoded code code' l l'
  second _ := False

variable {code code' : List Instruction} (hsame : SameReads code code')
include hsame

theorem relates_register_recoded (name : String) :
    Relates (recodedFailures code code') (Recoded code code') (Recoded code code') Eq
      (register name) (register name) := by
  intro l l' hl
  obtain ⟨granted, a, b, ha, hb, hrecoded⟩ | ⟨e, ha, hb⟩ :=
    Allocation.obtain_of_recoded hl.allocation hsame name
  · rw [exec_register, exec_register, ha, hb]
    exact .ok rfl ⟨hrecoded, hl.lines, congrArg (_ ++ ·) hl.notes⟩
  · rw [exec_register, exec_register, ha, hb]
    exact .failed ⟨rfl, hl⟩

/-- **One instruction is lowered in the same way** for codes that read the
    same. -/
theorem coupling_recoded (loadRight : Bool) (i : Instruction) :
    Coupling (recodedFailures code code') id loadRight i Eq (fun _ => Recoded code code') where
  refl _ := rfl
  weaken := id
  write {_ l l' line line'} hl hline := by
    refine ⟨hl.allocation, ?_, hl.notes⟩
    show l'.lines ++ [line'] = l.lines ++ [line]
    rw [hl.lines, hline.eq fun _ _ => Eq.symm]
  refuse hl _ := ⟨rfl, hl⟩
  target _ name _ := relates_register_recoded hsame name
  source _ name _ _ := relates_register_recoded hsame name
  constant _ number _ :=
    (relates_register_recoded hsame (scratch number)).bind fun _ _ hr =>
      (relates_modify fun _ _ hl => ⟨hl.allocation.pin _, hl.lines, hl.notes⟩).bind fun _ _ _ =>
        relates_pure hr

/-- **A run of instructions is lowered in the same way** for codes that read the
    same. -/
theorem relates_lowerFrom_recoded (loadRight : Bool) :
    Relates (recodedFailures code code') (Recoded code code') (Recoded code code')
      (fun _ _ => True) (lowerFrom loadRight 0 code) (lowerFrom loadRight 0 code) := by
  have hrun := relates_lowerFrom (S := fun _ => Recoded code code')
    (R := fun _ _ _ => Recoded code code') (fun _ i _ _ _ => coupling_recoded hsame loadRight i)
    ?_ (fun _ _ _ _ hl => hl) (List.nil_append code).symm (List.forall_mem_nil _)
  · rw [Instruction.map_rename_id] at hrun
    exact hrun.mono (fun _ _ ⟨_, hl⟩ => hl) fun _ _ h => h
  · intro p i l l' hl
    rw [Instruction.rename_id]
    exact ⟨hl.allocation.advance _ _, hl.lines, hl.notes⟩

end Lowering

/-! ## Whole runs -/

/-- Two codes that are lowered by the same steps and read the same. -/
theorem recoded_lower (loadRight : Bool) {code code' : List Instruction}
    (h : List.Forall₂ Reordered code code') :
    (lower loadRight code').1 = (lower loadRight code).1 ∧
      Lowering.Recoded code code' (lower loadRight code).2 (lower loadRight code').2 := by
  have hrelated := Lowering.relates_lowerFrom_recoded (sameReads_of_reordered h) loadRight
    (.start code) (.start code') ⟨⟨rfl, rfl⟩, rfl, rfl⟩
  have hsame : lower loadRight code' =
      (Lowering.lowerFrom loadRight 0 code).exec (.start code') := by
    rw [lower, Lowering.lowerFrom_of_reordered h]
    rfl
  rw [hsame]
  change Related _ _ _ (lower loadRight code) _ at hrelated
  generalize lower loadRight code = first at hrelated ⊢
  generalize (Lowering.lowerFrom loadRight 0 code).exec (.start code') = second at hrelated ⊢
  cases hrelated with
  | ok _ hrecoded => exact ⟨rfl, hrecoded⟩
  | failed hboth =>
    obtain ⟨rfl, hrecoded⟩ := hboth
    exact ⟨rfl, hrecoded⟩
  | second hsecond => exact hsecond.elim

/-- **The operands of a sum may stand in either order.**  In any code let the
    operands be exchanged of some of the sums of a variable and a constant, as
    many as one likes.  The assembly text is the same, or the error with which
    lowering fails; and in both cases so are the lines written, and the
    variables that are in registers in the end, with their registers and in
    the order of their age. -/
theorem exchanging_operands_changes_nothing (loadRight : Bool) (code : List Instruction)
    (chosen : Finset Nat)
    (hchosen : ∀ k ∈ chosen, ∃ i, code[k]? = some i ∧ i.isMixedSum = true) :
    let code' := exchangeAt chosen code
    assemble loadRight code' = assemble loadRight code ∧
      (lower loadRight code').2.lines = (lower loadRight code).2.lines ∧
      (lower loadRight code').2.allocation.assigned =
        (lower loadRight code).2.allocation.assigned := by
  intro code'
  obtain ⟨hout, hrecoded⟩ := recoded_lower loadRight (forall₂_exchangeAt hchosen)
  refine ⟨?_, hrecoded.lines, ?_⟩
  · have hlisting : (lower loadRight code').2.listing = (lower loadRight code).2.listing := by
      rw [Lowering.listing, Lowering.texts, hrecoded.lines]
      rfl
    unfold assemble
    generalize lower loadRight code = first at hout hlisting ⊢
    generalize lower loadRight code' = second at hout hlisting ⊢
    obtain ⟨out, l⟩ := first
    obtain ⟨out', l'⟩ := second
    obtain rfl : out' = out := hout
    cases out' with
    | error e => rfl
    | ok => exact congrArg Except.ok hlisting
  · rw [hrecoded.allocation.right]

/-- Fifteen variables fill the registers, and two sums follow, both with their
    operands exchanged.  If the first variable is not read any more the first
    sum takes over its register; if all are read there is no register for the
    sum. -/
theorem exchanging_operands_changes_nothing_crowded :
    let names := ["a", "b", "c", "d", "e", "f", "g", "h", "i", "j", "k", "l", "m", "n", "o"]
    let sets : List Instruction := names.map fun x => ⟨.mov, [.imm 7], some x⟩
    let sums : List Instruction :=
      [⟨.add, [.imm 1, .var "b"], some "p"⟩, ⟨.add, [.var "p", .imm 2], some "b"⟩]
    let returns : List Instruction := names.map fun x => ⟨.ret, [.var x], none⟩
    exchangeAt {15, 16} (sets ++ sums) = sets ++
        [⟨.add, [.var "b", .imm 1], some "p"⟩, ⟨.add, [.imm 2, .var "p"], some "b"⟩] ∧
      (∃ text, assemble true (sets ++ sums) = .ok text ∧
        assemble true (exchangeAt {15, 16} (sets ++ sums)) = .ok text) ∧
      assemble true (exchangeAt {15, 16} (sets ++ sums ++ returns)) =
        .error (.exhausted ⟨"p", 15⟩) := by
  intro names sets sums returns
  have hchosen : ∀ tail : List Instruction, ∀ k ∈ ({15, 16} : Finset Nat),
      ∃ i, (sets ++ sums ++ tail)[k]? = some i ∧ i.isMixedSum = true := by
    intro tail k hk
    rw [Finset.mem_insert, Finset.mem_singleton] at hk
    rcases hk with rfl | rfl
    · exact ⟨_, rfl, rfl⟩
    · exact ⟨_, rfl, rfl⟩
  refine ⟨by decide, ?_, ?_⟩
  · have hok : (assemble true (sets ++ sums)).isOk = true := by decide +kernel
    have hsame := exchanging_operands_changes_nothing true _ _ (hchosen [])
    rw [List.append_nil] at hsame
    rcases htext : assemble true (sets ++ sums) with e | text
    · rw [htext] at hok
      cases hok
    · exact ⟨text, rfl, hsame.1.trans htext⟩
  · have hfails : assemble true (sets ++ sums ++ returns) = .error (.exhausted ⟨"p", 15⟩) := by
      decide +kernel
    exact (exchanging_operands_changes_nothing true _ _ (hchosen returns)).1.trans hfails

end Straightline
