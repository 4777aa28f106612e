/-
  Two runs of lowering side by side.

  The same instructions are lowered twice, for two codes that differ in what is
  read later on.  The two runs fail for the same reasons and give the same
  lines, but for the registers in them, unless the second run has no registers
  left.  If the codes cannot make them diverge, they do the same altogether.

  * `Assembly.Line.shape`: a line without its registers;
  * `Lowering.Abreast`: what the states of the two runs have in common;
  * `Lowering.relates_register`, `Lowering.coupling_abreast`: a request, and an
    instruction;
  * `Outlook.related_lower`: two whole runs.
-/
import Straightline.Proofs.Coupling
import Straightline.Proofs.Divergence

namespace Straightline

/-! ## Lines that differ in registers only -/

namespace Assembly

/-- A source with the result register in place of its register. -/
def Source.shape : Source → Source
  | register _ => register .result
  | literal value => literal value

/-- A line with the result register in place of all its registers. -/
def Line.shape : Line → Line
  | operate op _ _ rhs => operate op .result .result rhs.shape
  | addImmediate _ _ value => addImmediate .result .result value
  | loadImmediate _ value => loadImmediate .result value
  | move _ _ => move .result .result

theorem Line.Alike.shape_eq {V : Register → Register → Prop} {line line' : Line}
    (h : line.Alike V line') : line'.shape = line.shape := by
  cases h with
  | operate op _ _ hs => cases hs <;> rfl
  | addImmediate => rfl
  | loadImmediate => rfl
  | move => rfl

end Assembly

open Assembly (Line)
open Attempt (Failures Related Relates relates_modify relates_pure)

namespace Lowering

/-! ## Steps of the two runs -/

/-- The lines of two runs differ in registers only, and not at all unless the
    runs can diverge. -/
structure SameLines (diverge : Prop) (l l' : Lowering) : Prop where
  shapes : l'.lines.map Line.shape = l.lines.map Line.shape
  lines : l'.lines = l.lines ∨ diverge

/-- Both runs fail for the same reason, or they can diverge and the second one
    is out of registers. -/
def sameFailures (diverge : Prop) : Failures LowerError Lowering where
  both e e' l l' := e' = e ∧ SameLines diverge l l'
  second e := diverge ∧ ∃ x, e = .exhausted x

/-- Two runs side by side at index `p`. -/
structure Abreast (o : Outlook) (p : Nat) (pending : Option String) (l l' : Lowering) : Prop where
  allocations : l.allocation.Parallel o p pending l'.allocation
  lines : SameLines o.Contested l l'

/-- Registers that are the same, unless the runs can diverge. -/
def SameRegister (o : Outlook) (r r' : Register) : Prop :=
  r' = r ∨ o.Contested

variable {o : Outlook} {p : Nat} {pending : Option String}

theorem SameLines.write {l l' : Lowering} {line line' : Line} (h : SameLines o.Contested l l')
    (hline : line.Alike (SameRegister o) line') :
    SameLines o.Contested (l.write line) (l'.write line') := by
  constructor
  · show (l'.lines ++ [line']).map Line.shape = (l.lines ++ [line]).map Line.shape
    rw [List.map_append, List.map_append, h.shapes, List.map_singleton, List.map_singleton,
      hline.shape_eq]
  · by_cases hcontested : o.Contested
    · exact .inr hcontested
    · refine .inl ?_
      show l'.lines ++ [line'] = l.lines ++ [line]
      rw [h.lines.resolve_right hcontested, hline.eq fun r r' hr => hr.resolve_right hcontested]

section

variable {before rest : List Instruction} {i : Instruction} {name : String}
  (hcode : o.code = before ++ i :: rest) (hbefore : Passed before)
include hcode hbefore

theorem mem_takenUp : i ∈ takenUp o.code := by
  rw [hcode]
  clear hcode
  induction before with
  | nil => simp [takenUp]
  | cons j before ih =>
    obtain ⟨⟨hj, hrefusal⟩, hbefore⟩ := List.forall_mem_cons.1 hbefore
    have hnext : ¬ (j.opcode = .ret ∨ j.refusal?.isSome = true) := by simp [hj, hrefusal]
    rw [List.cons_append, takenUp, if_neg hnext]
    exact List.mem_cons_of_mem j (ih hbefore)

theorem mem_askedBy {r : Request} (hr : r ∈ i.requests o.loadRight) :
    r.name ∈ askedBy o.loadRight o.code :=
  List.mem_toFinset.2
    (List.mem_flatMap.2 ⟨i, mem_takenUp hcode hbefore, List.mem_map_of_mem hr⟩)

theorem mem_drop_of_mem_dropWhile {j : Instruction}
    (hj : j ∈ o.code.dropWhile (·.opcode ≠ .ret)) : j ∈ o.code.drop before.length := by
  have hpass : ∀ k ∈ before, decide (k.opcode ≠ .ret) = true := fun k hk =>
    decide_eq_true (hbefore k hk).1
  rw [hcode, List.dropWhile_append_of_pos hpass] at hj
  rw [hcode, List.drop_left]
  exact (List.dropWhile_sublist _).mem hj

/-- **Asking for a register.** -/
theorem relates_register (hasked : name ∈ askedBy o.loadRight o.code)
    (hname : pending = none ∨ pending = some name ∨ ReadsFrom o.code before.length name) :
    Relates (sameFailures o.Contested) (Abreast o before.length pending)
      (fun l l' => Abreast o before.length (pending.filter (· ≠ name)) l l' ∧
        name ∈ l'.allocation.residents)
      (SameRegister o) (register name) (register name) := by
  intro l l' ⟨hparallel, hlines⟩
  have hp : before.length ≤ o.code.length := by simp [hcode]
  have hreturn : ∀ j ∈ o.code.dropWhile (·.opcode ≠ .ret), j ∈ o.code.drop before.length :=
    fun j => mem_drop_of_mem_dropWhile hcode hbefore
  rw [exec_register, exec_register]
  rcases ha : l.allocation.obtain name with e | ⟨granted, a⟩
  · obtain ⟨e', hb, rfl | hcontested⟩ := hparallel.error_of_error hp hreturn hasked hname ha
    · rw [hb]
      exact .failed ⟨rfl, hlines⟩
    · rw [hb]
      exact .second ⟨hcontested, _, rfl⟩
  · rcases hb : l'.allocation.obtain name with e | ⟨granted', b⟩
    · exact .second ⟨hparallel.contested_of_error hp hreturn hasked ha hb, _, rfl⟩
    · have hapart := hparallel.apart_of_obtain hp hreturn hasked ha hb
      refine .ok (hapart.imp (fun h => by rw [h.1]) And.left)
        ⟨⟨?_, hlines.shapes, hlines.lines⟩, ?_⟩
      · exact hparallel.of_obtain hp hreturn hasked ha hb
      · exact Allocation.name_mem_residents_of_obtain hparallel.right_valid hb

end

/-- Two runs side by side in the course of an instruction.  Until its result has
    a register, it is pending, or has been asked for as an operand. -/
def AbreastAt (o : Outlook) (p : Nat) (i : Instruction) (settled : Bool) (l l' : Lowering) : Prop :=
  ∃ pending, (pending = none ∨ settled = false ∧ pending = i.result) ∧ Abreast o p pending l l'

/-- **One instruction.** -/
theorem coupling_abreast {before rest : List Instruction} {i : Instruction}
    (hcode : o.code = before ++ i :: rest) (hbefore : Passed before) :
    Coupling (sameFailures o.Contested) id o.loadRight i (SameRegister o)
      (AbreastAt o before.length i) where
  refl r := .inl rfl
  weaken := by
    rintro l l' ⟨pending, hpending, habreast⟩
    exact ⟨pending, hpending.imp_right fun h => ⟨rfl, h.2⟩, habreast⟩
  write := by
    rintro settled l l' line line' ⟨pending, hpending, habreast⟩ hline
    exact ⟨pending, hpending, habreast.allocations, habreast.lines.write hline⟩
  refuse := by
    rintro settled l l' e ⟨pending, hpending, habreast⟩ _
    exact ⟨rfl, habreast.lines⟩
  target hfit name hname := by
    have hasked := mem_askedBy hcode hbefore
      (show ⟨name, false⟩ ∈ _ by simp [Instruction.requests_of_misfit?_eq_none hfit, hname])
    rintro l l' ⟨pending, hpending, habreast⟩
    have hname : pending = none ∨ pending = some name := by
      rw [← Instruction.result_of_target? hname]
      exact hpending.imp_right And.right
    have hfilter : pending.filter (· ≠ name) = none := by
      rcases hname with rfl | rfl <;> simp [Option.filter]
    refine ((relates_register hcode hbefore hasked (hname.imp_right .inl)).mono (fun l l' h => ?_)
      fun _ _ hr => hr) l l' habreast
    exact ⟨_, .inl hfilter, h.1⟩
  source hfit name hname settled := by
    have hreads : i.reads name = true := Instruction.reads_iff.2 hname
    have hasked := mem_askedBy hcode hbefore (show ⟨name, false⟩ ∈ _ by
      simp [Instruction.requests_of_misfit?_eq_none hfit, Instruction.mem_sources.2 hreads])
    have hread : ReadsFrom o.code before.length name := ⟨i, by simp [hcode], hreads⟩
    rintro l l' ⟨pending, hpending, habreast⟩
    refine ((relates_register hcode hbefore hasked (.inr (.inr hread))).mono (fun l l' h => ?_)
      fun _ _ hr => hr) l l' habreast
    refine ⟨_, ?_, h.1⟩
    by_cases heq : pending = some name
    · exact .inl (by simp [heq, Option.filter])
    · have hfilter : pending.filter (· ≠ name) = pending := by
        cases pending with
        | none => rfl
        | some y =>
          have hne : y ≠ name := fun hy => heq (congrArg some hy)
          simp [Option.filter, hne]
      rw [hfilter]
      exact hpending
  constant hfit number hnumber := by
    have hasked := mem_askedBy hcode hbefore (show ⟨scratch number, true⟩ ∈ _ by
      simp [Instruction.requests_of_misfit?_eq_none hfit, hnumber])
    rintro l l' ⟨pending, rfl | ⟨hsettled, -⟩, habreast⟩
    · refine ((relates_register hcode hbefore hasked (.inl rfl)).bind fun r r' hr =>
        (relates_modify fun l l' h => ?_).bind fun _ _ _ => relates_pure hr) l l' habreast
      obtain ⟨⟨hparallel, hlines⟩, hmem⟩ := h
      exact ⟨none, .inl rfl, hparallel.pin rfl hmem, hlines.shapes, hlines.lines⟩
    · cases hsettled

/-! ## Whole runs -/

/-- Two runs side by side at an index up to `p`. -/
def AbreastUpTo (o : Outlook) (p : Nat) (l l' : Lowering) : Prop :=
  ∃ q ≤ p, ∃ pending, Abreast o q pending l l'

end Lowering

open Lowering

namespace Outlook

variable (o : Outlook)

theorem abreast_start :
    Abreast o 0 none (start o.code) (start o.code') where
  allocations :=
    { left_code := rfl
      right_code := rfl
      left_position := rfl
      right_position := rfl
      pinned := rfl
      pinned_of_pending := nofun
      left_valid := ⟨List.nodup_nil, List.nodup_nil⟩
      right_valid := ⟨List.nodup_nil, List.nodup_nil⟩
      asked := Finset.empty_subset _
      kept := fun x hx => absurd hx (Finset.notMem_empty x)
      apart := .inl rfl }
  lines := ⟨rfl, .inl rfl⟩

variable (hsame : lowerFrom o.loadRight 0 o.code' = lowerFrom o.loadRight 0 o.code)
include hsame

/-- **Two whole runs**, if the same instructions are lowered in both. -/
theorem related_lower :
    Related (sameFailures o.Contested) (fun l l' => SameLines o.Contested l l') (fun _ _ => True)
      (Straightline.lower o.loadRight o.code) (Straightline.lower o.loadRight o.code') := by
  have hrun := relates_lowerFrom (S := AbreastUpTo o) (R := AbreastAt o)
    (fun before i rest => coupling_abreast) ?_ ?_ (List.nil_append o.code).symm
    (List.forall_mem_nil _)
  · rw [Instruction.map_rename_id] at hrun
    rw [Straightline.lower, Straightline.lower, hsame]
    refine (hrun.mono (fun l l' h => ?_) fun _ _ h => h) _ _ ⟨0, le_rfl, none, o.abreast_start⟩
    obtain ⟨p, q, -, pending, habreast⟩ := h
    exact habreast.lines
  · rintro p i l l' ⟨q, hq, pending, hparallel, hlines⟩
    rw [Instruction.rename_id]
    exact ⟨i.result, .inr ⟨rfl, rfl⟩, hparallel.advance hq i.result, hlines.shapes, hlines.lines⟩
  · rintro p i l l' ⟨pending, -, habreast⟩
    exact ⟨p, Nat.le_succ p, pending, habreast⟩

theorem assemble_eq_or_contested :
    assemble o.loadRight o.code' = assemble o.loadRight o.code ∨ o.Contested := by
  have hrelated := o.related_lower hsame
  unfold assemble
  generalize Straightline.lower o.loadRight o.code = first at hrelated ⊢
  generalize Straightline.lower o.loadRight o.code' = second at hrelated ⊢
  cases hrelated with
  | ok _ hlines =>
    refine hlines.lines.imp_left fun heq => ?_
    simp only [listing, texts, heq]
  | failed hboth =>
    obtain ⟨rfl, -⟩ := hboth
    exact .inl rfl
  | second hsecond => exact .inr hsecond.1

/-- Without regard to registers, the second run does the same as the first one,
    or it runs out of registers. -/
theorem exhausted_or_shapes_eq :
    (∃ e, (Straightline.lower o.loadRight o.code').1 = .error (.exhausted e)) ∨
      ((Straightline.lower o.loadRight o.code').1 = (Straightline.lower o.loadRight o.code).1 ∧
        (Straightline.lower o.loadRight o.code').2.lines.map Line.shape =
          (Straightline.lower o.loadRight o.code).2.lines.map Line.shape) := by
  have hrelated := o.related_lower hsame
  generalize Straightline.lower o.loadRight o.code = first at hrelated ⊢
  generalize Straightline.lower o.loadRight o.code' = second at hrelated ⊢
  cases hrelated with
  | ok _ hlines => exact .inr ⟨rfl, hlines.shapes⟩
  | failed hboth =>
    obtain ⟨rfl, hlines⟩ := hboth
    exact .inr ⟨rfl, hlines.shapes⟩
  | second hsecond =>
    obtain ⟨-, e, rfl⟩ := hsecond
    exact .inl ⟨e, rfl⟩

end Outlook

end Straightline
