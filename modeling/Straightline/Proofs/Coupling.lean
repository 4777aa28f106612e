/-
  Two runs of lowering, coupled.

  Lowering does little with its state: it asks for registers, pins scratch
  variables, writes lines and gives up.  So a relation between the states of
  two runs that is respected by each of these is respected by all of lowering.
  The second run may be one of renamed instructions, and for another code; what
  counts as related states, registers and failures is left open.

  * `Attempt.Relates`: two steps that lead from related states to related
    outcomes, with rules for steps one after the other;
  * `Instruction.rename`: an instruction with its variables renamed;
  * `Assembly.Line.Alike`: lines that are the same but for related registers;
  * `Lowering.Coupling`: what has to be shown of a relation for an instruction;
  * `Lowering.Coupling.relates_lower`, `Lowering.relates_lowerFrom`: what
    follows for this instruction, and for a run of instructions.
-/
import Straightline.Proofs.Simulation
import Straightline.Proofs.Requests

namespace Straightline

/-! ## Pairs of steps -/

namespace Attempt

variable {ε σ α β : Type}

/-- What counts as related failures: those of both runs with the states reached,
    and those of the second run alone. -/
structure Failures (ε σ : Type) where
  both : ε → ε → σ → σ → Prop
  second : ε → Prop

variable {F : Failures ε σ} {R R' R'' : σ → σ → Prop} {Q Q' : α → α → Prop} {P : β → β → Prop}

/-- Two outcomes go together: both steps succeed, both fail, or the second one
    fails in a way for which the first one does not matter. -/
inductive Related (F : Failures ε σ) (R : σ → σ → Prop) (Q : α → α → Prop) :
    Except ε α × σ → Except ε α × σ → Prop where
  | ok {out out' : α} {s s' : σ} : Q out out' → R s s' → Related F R Q (.ok out, s) (.ok out', s')
  | failed {e e' : ε} {s s' : σ} : F.both e e' s s' → Related F R Q (.error e, s) (.error e', s')
  | second {first : Except ε α × σ} {e : ε} {s' : σ} : F.second e →
      Related F R Q first (.error e, s')

/-- Two steps lead from states related by `R` to outcomes that go together, with
    states related by `R'` and values related by `Q`. -/
def Relates (F : Failures ε σ) (R R' : σ → σ → Prop) (Q : α → α → Prop)
    (m m' : Attempt ε σ α) : Prop :=
  ∀ s s', R s s' → Related F R' Q (m.exec s) (m'.exec s')

theorem Relates.bind {m m' : Attempt ε σ α} {k k' : α → Attempt ε σ β}
    (hm : Relates F R R' Q m m')
    (hk : ∀ out out', Q out out' → Relates F R' R'' P (k out) (k' out')) :
    Relates F R R'' P (m >>= k) (m' >>= k') := by
  intro s s' hs
  have hrelated := hm s s' hs
  rw [exec_bind, exec_bind]
  generalize m.exec s = first at hrelated ⊢
  generalize m'.exec s' = second at hrelated ⊢
  cases hrelated with
  | ok hout hstates => exact hk _ _ hout _ _ hstates
  | failed hboth => exact .failed hboth
  | second hsecond => exact .second hsecond

theorem Relates.mono {m m' : Attempt ε σ α} (hm : Relates F R R' Q m m')
    (hR : ∀ s s', R' s s' → R'' s s') (hQ : ∀ out out', Q out out' → Q' out out') :
    Relates F R R'' Q' m m' := by
  intro s s' hs
  have hrelated := hm s s' hs
  generalize m.exec s = first at hrelated ⊢
  generalize m'.exec s' = second at hrelated ⊢
  cases hrelated with
  | ok hout hstates => exact .ok (hQ _ _ hout) (hR _ _ hstates)
  | failed hboth => exact .failed hboth
  | second hsecond => exact .second hsecond

/-- What a success of the first step tells may be used behind it. -/
theorem Relates.and_of_ok {m m' : Attempt ε σ α} {fact : Prop} (hm : Relates F R R' Q m m')
    (hfact : ∀ s out t, m.exec s = (.ok out, t) → fact) :
    Relates F R R' (fun out out' => Q out out' ∧ fact) m m' := by
  intro s s' hs
  have hrelated := hm s s' hs
  have hfact := hfact s
  generalize m.exec s = first at hrelated hfact ⊢
  generalize m'.exec s' = second at hrelated ⊢
  cases hrelated with
  | ok hout hstates => exact .ok ⟨hout, hfact _ _ rfl⟩ hstates
  | failed hboth => exact .failed hboth
  | second hsecond => exact .second hsecond

theorem relates_pure {out out' : α} (h : Q out out') : Relates F R R Q (pure out) (pure out') :=
  fun _ _ hs => .ok h hs

theorem relates_throw {e e' : ε} (h : ∀ s s', R s s' → F.both e e' s s') :
    Relates F R R' Q (throw e) (throw e') :=
  fun s s' hs => .failed (h s s' hs)

theorem relates_modify {g g' : σ → σ} (h : ∀ s s', R s s' → R' (g s) (g' s')) :
    Relates F R R' (fun _ _ => True) (modify g) (modify g') :=
  fun s s' hs => .ok trivial (h s s' hs)

end Attempt

/-! ## Renamed instructions -/

/-- An operand with its variable renamed. -/
def Operand.rename (f : String → String) : Operand → Operand
  | .var name => .var (f name)
  | .imm value => .imm value

namespace Instruction

variable {loadRight : Bool} {i : Instruction} {e : LowerError}

/-- An instruction with its variables renamed. -/
def rename (f : String → String) (i : Instruction) : Instruction :=
  ⟨i.opcode, i.operands.map (Operand.rename f), i.result.map f⟩

theorem rename_id (i : Instruction) : i.rename id = i := by
  have hoperand : Operand.rename id = id := funext fun operand => by cases operand <;> rfl
  rw [rename, hoperand, List.map_id, Option.map_id]
  rfl

theorem map_rename_id (code : List Instruction) : code.map (·.rename id) = code := by
  simp [rename_id]

/-- Names have no part in whether an instruction fits. -/
theorem misfit?_rename (f : String → String) (i : Instruction) :
    (i.rename f).misfit? = i.misfit? := by
  obtain ⟨opcode, operands, result⟩ := i
  cases opcode <;> rcases operands with _ | ⟨x | a, _ | ⟨y | b, _ | ⟨c, rest⟩⟩⟩ <;>
    simp [misfit?, rename, Operand.rename]

theorem ne_exhausted_of_misfit? (h : i.misfit? = some e) (x : Exhausted) : e ≠ .exhausted x := by
  rintro rfl
  unfold misfit? at h
  grind

end Instruction

/-- An instruction that does not fit is refused at once. -/
theorem Lowering.lower_of_misfit? {loadRight : Bool} {i : Instruction} {e : LowerError}
    (h : i.misfit? = some e) : lower loadRight i = throw e := by
  obtain ⟨opcode, operands, result⟩ := i
  cases opcode <;> rcases operands with _ | ⟨x | a, _ | ⟨y | b, _ | ⟨c, rest⟩⟩⟩ <;>
    rcases result with _ | d <;> cases h <;> rfl

/-! ## Lines with related registers -/

namespace Assembly

variable {V : Register → Register → Prop}

/-- Sources that are the same but for related registers. -/
inductive Source.Alike (V : Register → Register → Prop) : Source → Source → Prop where
  | register {r r' : Register} : V r r' → Alike V (.register r) (.register r')
  | literal (value : Int) : Alike V (.literal value) (.literal value)

/-- Lines that are the same but for related registers. -/
inductive Line.Alike (V : Register → Register → Prop) : Line → Line → Prop where
  | operate (op : Operation) {d d' r r' : Register} {s s' : Source} : V d d' → V r r' →
      s.Alike V s' → Alike V (.operate op d r s) (.operate op d' r' s')
  | addImmediate {d d' r r' : Register} (value : Int) : V d d' → V r r' →
      Alike V (.addImmediate d r value) (.addImmediate d' r' value)
  | loadImmediate {d d' : Register} (value : Int) : V d d' →
      Alike V (.loadImmediate d value) (.loadImmediate d' value)
  | move {d d' r r' : Register} : V d d' → V r r' → Alike V (.move d r) (.move d' r')

theorem Line.Alike.isWritable_eq {line line' : Line} (h : line.Alike V line') :
    line'.isWritable = line.isWritable := by
  cases h with
  | operate op _ _ hs => cases hs <;> rfl
  | addImmediate => rfl
  | loadImmediate => rfl
  | move => rfl

/-- Lines are the same if their registers are. -/
theorem Line.Alike.eq {line line' : Line} (h : line.Alike V line')
    (hV : ∀ r r', V r r' → r' = r) : line' = line := by
  cases h with
  | operate op hd hr hs =>
    cases hs with
    | register hs => rw [hV _ _ hd, hV _ _ hr, hV _ _ hs]
    | literal value => rw [hV _ _ hd, hV _ _ hr]
  | addImmediate value hd hr => rw [hV _ _ hd, hV _ _ hr]
  | loadImmediate value hd => rw [hV _ _ hd]
  | move hd hr => rw [hV _ _ hd, hV _ _ hr]

end Assembly

open Assembly (Line Operation Source)
open Attempt (Failures Relates relates_pure relates_throw relates_modify)

namespace Lowering

/-! ## One instruction -/

variable {F : Failures LowerError Lowering} {f : String → String} {loadRight : Bool}
  {V : Register → Register → Prop}

/-- Relations between the states of two runs, the second one with renamed
    variables, that are respected by whatever is done for an instruction.
    There is one relation up to where the result has its register, `R false`,
    and one from there on, `R true`. -/
structure Coupling (F : Failures LowerError Lowering) (f : String → String) (loadRight : Bool)
    (i : Instruction) (V : Register → Register → Prop) (R : Bool → Lowering → Lowering → Prop) :
    Prop where
  refl : ∀ r, V r r
  weaken : ∀ {l l'}, R true l l' → R false l l'
  write : ∀ {settled l l' line line'}, R settled l l' → Line.Alike V line line' →
    R settled (l.write line) (l'.write line')
  refuse : ∀ {settled l l' e}, R settled l l' → (∀ x, e ≠ .exhausted x) → F.both e e l l'
  target : i.misfit? = none → ∀ name, i.target? = some name →
    Relates F (R false) (R true) V (register name) (register (f name))
  source : i.misfit? = none → ∀ name, .var name ∈ i.operands → ∀ {settled},
    Relates F (R settled) (R settled) V (register name) (register (f name))
  constant : i.misfit? = none → ∀ number, scratch number ∈ i.loaded loadRight →
    Relates F (R true) (R true) V (scratchRegister number) (scratchRegister number)

namespace Coupling

variable {i : Instruction} {R : Bool → Lowering → Lowering → Prop} {settled : Bool}
  (h : Coupling F f loadRight i V R)
include h

theorem relates_requireWritable (value : Int) :
    Relates F (R settled) (R settled) (fun _ _ => Text.isWritable value = true)
      (requireWritable value) (requireWritable value) := by
  unfold requireWritable
  split
  · next hwritable => exact relates_pure hwritable
  · exact relates_throw fun l l' hl => h.refuse hl nofun

theorem relates_emit {line line' : Line} (hline : line.Alike V line') :
    Relates F (R settled) (R settled) (fun _ _ => line.isWritable = true)
      (emit line) (emit line') := by
  unfold emit
  rw [hline.isWritable_eq]
  split
  · next hwritable =>
    exact (relates_modify fun l l' hl => h.write hl hline).mono (fun _ _ hl => hl)
      fun _ _ _ => hwritable
  · exact relates_throw fun l l' hl => h.refuse hl nofun

/-- The last line of an instruction. -/
theorem relates_emit_last {line line' : Line} (hline : line.Alike V line') :
    Relates F (R settled) (R false) (fun _ _ => True) (emit line) (emit line') := by
  refine (h.relates_emit hline).mono (fun l l' hl => ?_) fun _ _ _ => trivial
  cases settled with
  | false => exact hl
  | true => exact h.weaken hl

section

variable (hfit : i.misfit? = none)
include hfit

theorem relates_load {number : Nat} (hnumber : scratch number ∈ i.loaded loadRight) (value : Int) :
    Relates F (R true) (R true) (fun r r' => V r r' ∧ Text.isWritable value = true)
      (load number value) (load number value) :=
  (h.constant hfit number hnumber).bind fun _ _ hr =>
    (h.relates_emit (.loadImmediate value hr)).bind fun _ _ hwritable =>
      relates_pure ⟨hr, hwritable⟩

theorem relates_rightConstant (hright : loadRight = true → scratch 1 ∈ i.loaded loadRight)
    (value : Int) :
    Relates F (R true) (R true) (Source.Alike V) (rightConstant loadRight value)
      (rightConstant loadRight value) := by
  unfold rightConstant
  split
  · next hload =>
    exact (h.relates_load hfit (hright hload) value).bind fun _ _ hr =>
      relates_pure (.register hr.1)
  · exact relates_pure (.literal value)

end

end Coupling

section

variable {operands : List Operand} {result : Option String} {R : Bool → Lowering → Lowering → Prop}

theorem relates_lowerAdd (h : Coupling F f loadRight ⟨.add, operands, result⟩ V R)
    (hfit : Instruction.misfit? ⟨.add, operands, result⟩ = none) :
    Relates F (R false) (R false) (fun _ _ => True) (lowerAdd ⟨.add, operands, result⟩)
      (lowerAdd (Instruction.rename f ⟨.add, operands, result⟩)) := by
  rcases operands with _ | ⟨x | a, _ | ⟨y | b, _ | ⟨c, rest⟩⟩⟩ <;> rcases result with _ | d
  case cons.var.cons.var.nil.some =>
    exact (h.target hfit d rfl).bind fun _ _ hd => (h.source hfit x (by simp)).bind fun _ _ hr =>
      (h.source hfit y (by simp)).bind fun _ _ hs =>
        h.relates_emit_last (.operate .add hd hr (.register hs))
  case cons.var.cons.imm.nil.some =>
    exact (h.target hfit d rfl).bind fun _ _ hd => (h.source hfit x (by simp)).bind fun _ _ hr =>
      h.relates_emit_last (.addImmediate b hd hr)
  case cons.imm.cons.var.nil.some =>
    exact (h.target hfit d rfl).bind fun _ _ hd => (h.source hfit y (by simp)).bind fun _ _ hr =>
      h.relates_emit_last (.addImmediate a hd hr)
  all_goals cases hfit

theorem relates_lowerBinary {op : Operation} (hop : op ≠ .add)
    (h : Coupling F f loadRight ⟨op.opcode, operands, result⟩ V R)
    (hfit : Instruction.misfit? ⟨op.opcode, operands, result⟩ = none) :
    Relates F (R false) (R false) (fun _ _ => True)
      (lowerBinary loadRight op ⟨op.opcode, operands, result⟩)
      (lowerBinary loadRight op (Instruction.rename f ⟨op.opcode, operands, result⟩)) := by
  have hloaded : ∀ lhs rhs, operands = [lhs, rhs] → rhs.isWritable = true →
      (lhs.isImmediate = true →
        scratch 0 ∈ Instruction.loaded loadRight ⟨op.opcode, operands, result⟩) ∧
      (lhs.isWritable = true → rhs.isImmediate = true → loadRight = true →
        scratch 1 ∈ Instruction.loaded loadRight ⟨op.opcode, operands, result⟩) := by
    rintro lhs rhs rfl hrhs
    cases op with
    | add => exact absurd rfl hop
    | sub | mul => simp +contextual [Instruction.loaded, Operation.opcode, hrhs]
  rcases operands with _ | ⟨x | a, _ | ⟨y | b, _ | ⟨c, rest⟩⟩⟩ <;> rcases result with _ | d
  case cons.var.cons.var.nil.some =>
    exact (h.target hfit d (if_neg op.opcode_ne_ret)).bind fun _ _ hd =>
      (h.source hfit x (by simp)).bind fun _ _ hr => (h.source hfit y (by simp)).bind fun _ _ hs =>
        h.relates_emit_last (.operate op hd hr (.register hs))
  case cons.var.cons.imm.nil.some =>
    refine (h.target hfit d (if_neg op.opcode_ne_ret)).bind fun _ _ hd =>
      (h.source hfit x (by simp)).bind fun _ _ hr =>
      (h.relates_requireWritable b).bind fun _ _ hb => ?_
    have hright := (hloaded _ _ rfl hb).2 rfl rfl
    exact (h.relates_rightConstant hfit hright b).bind fun _ _ hs =>
      h.relates_emit_last (.operate op hd hr hs)
  case cons.imm.cons.var.nil.some =>
    have hleft := (hloaded _ _ rfl rfl).1 rfl
    exact (h.target hfit d (if_neg op.opcode_ne_ret)).bind fun _ _ hd =>
      (h.source hfit y (by simp)).bind fun _ _ hs =>
      (h.relates_load hfit hleft a).bind fun _ _ hr =>
        h.relates_emit_last (.operate op hd hr.1 (.register hs))
  case cons.imm.cons.imm.nil.some =>
    refine (h.target hfit d (if_neg op.opcode_ne_ret)).bind fun _ _ hd =>
      (h.relates_requireWritable b).bind fun _ _ hb => ?_
    have hleft := (hloaded _ _ rfl hb).1 rfl
    refine (h.relates_load hfit hleft a).bind fun _ _ hr => ?_
    have hright := (hloaded _ _ rfl hb).2 hr.2 rfl
    exact (h.relates_rightConstant hfit hright b).bind fun _ _ hs =>
      h.relates_emit_last (.operate op hd hr.1 hs)
  all_goals cases op <;> first | exact absurd rfl hop | cases hfit

theorem relates_lowerMove (h : Coupling F f loadRight ⟨.mov, operands, result⟩ V R)
    (hfit : Instruction.misfit? ⟨.mov, operands, result⟩ = none) :
    Relates F (R false) (R false) (fun _ _ => True) (lowerMove ⟨.mov, operands, result⟩)
      (lowerMove (Instruction.rename f ⟨.mov, operands, result⟩)) := by
  rcases operands with _ | ⟨x | a, _ | ⟨b, rest⟩⟩ <;> rcases result with _ | d
  case cons.var.nil.some =>
    exact (h.target hfit d rfl).bind fun _ _ hd => (h.source hfit x (by simp)).bind fun _ _ hr =>
      h.relates_emit_last (.move hd hr)
  case cons.imm.nil.some =>
    exact (h.target hfit d rfl).bind fun _ _ hd => h.relates_emit_last (.loadImmediate a hd)
  all_goals cases hfit

/-- A return never asks for a register for its result, if it has one. -/
theorem relates_lowerReturn (h : Coupling F f loadRight ⟨.ret, operands, result⟩ V R)
    (hfit : Instruction.misfit? ⟨.ret, operands, result⟩ = none) :
    Relates F (R false) (R false) (fun _ _ => True) (lowerReturn ⟨.ret, operands, result⟩)
      (lowerReturn (Instruction.rename f ⟨.ret, operands, result⟩)) := by
  rcases operands with _ | ⟨x | a, _ | ⟨b, rest⟩⟩
  case nil => exact relates_pure trivial
  case cons.var.nil =>
    exact (h.source hfit x (by simp)).bind fun _ _ hr => h.relates_emit_last (.move (h.refl _) hr)
  case cons.imm.nil => exact h.relates_emit_last (.loadImmediate a (h.refl _))
  all_goals cases hfit

end

/-- **One instruction.** -/
theorem Coupling.relates_lower {i : Instruction} {R : Bool → Lowering → Lowering → Prop}
    (h : Coupling F f loadRight i V R) :
    Relates F (R false) (R false) (fun _ _ => True) (lower loadRight i)
      (lower loadRight (i.rename f)) := by
  cases hfit : i.misfit? with
  | some e =>
    rw [lower_of_misfit? hfit, lower_of_misfit? ((i.misfit?_rename f).trans hfit)]
    exact relates_throw fun l l' hl => h.refuse hl (Instruction.ne_exhausted_of_misfit? hfit)
  | none =>
    obtain ⟨opcode, operands, result⟩ := i
    cases opcode with
    | add => exact relates_lowerAdd h hfit
    | sub => exact relates_lowerBinary (show Operation.sub ≠ .add from nofun) h hfit
    | mul => exact relates_lowerBinary (show Operation.mul ≠ .add from nofun) h hfit
    | mov => exact relates_lowerMove h hfit
    | ret => exact relates_lowerReturn h hfit
    | other name => cases hfit

/-! ## Runs of instructions -/

/-- An instruction that is lowered is not refused. -/
theorem refusal?_of_exec_lower {i : Instruction} {l l' : Lowering} {u : Unit}
    (h : (lower loadRight i).exec l = (.ok u, l')) : i.refusal? = none := by
  have hasks := asks_lower loadRight i l
  cases hrefusal : i.refusal? with
  | none => rfl
  | some e =>
    rw [hrefusal] at hasks
    split at hasks
    · obtain ⟨l₁, -, hexec⟩ := hasks
      cases h.symm.trans hexec
    · obtain ⟨l₁, hexec⟩ := hasks
      cases h.symm.trans hexec

/-- Instructions that are lowered and left behind. -/
def Passed (before : List Instruction) : Prop :=
  ∀ j ∈ before, j.opcode ≠ .ret ∧ j.refusal? = none

/-- **A run of instructions.**  `S p` relates the states of the two runs where
    the instruction with index `p` comes next. -/
theorem relates_lowerFrom {S : Nat → Lowering → Lowering → Prop}
    {R : Nat → Instruction → Bool → Lowering → Lowering → Prop}
    {code before rest : List Instruction}
    (hcoupling : ∀ before i rest, code = before ++ i :: rest → Passed before →
      Coupling F f loadRight i V (R before.length i))
    (hadvance : ∀ p i l l', S p l l' → R p i false (l.advance p i) (l'.advance p (i.rename f)))
    (hdone : ∀ p i l l', R p i false l l' → S (p + 1) l l')
    (hcode : code = before ++ rest) (hbefore : Passed before) :
    Relates F (S before.length) (fun l l' => ∃ p, S p l l') (fun _ _ => True)
      (lowerFrom loadRight before.length rest)
      (lowerFrom loadRight before.length (rest.map (·.rename f))) := by
  induction rest generalizing before with
  | nil => exact fun l l' hl => .ok trivial ⟨_, hl⟩
  | cons i rest ih =>
    have hlower := (hcoupling before i rest hcode hbefore).relates_lower.and_of_ok
      fun _ _ _ => refusal?_of_exec_lower
    refine (relates_modify (hadvance before.length i)).bind fun _ _ _ =>
      hlower.bind fun _ _ hlowered => ?_
    show Relates F _ _ _ (if i.opcode = .ret then _ else _) (if i.opcode = .ret then _ else _)
    split
    · exact fun l l' hl => .ok trivial ⟨_, hdone _ _ _ _ hl⟩
    · next hi =>
      have hpassed : Passed (before ++ [i]) := by
        intro j hj
        rcases List.mem_append.1 hj with hj | hj
        · exact hbefore j hj
        · rw [List.mem_singleton.1 hj]
          exact ⟨hi, hlowered.2⟩
      have hlength : (before ++ [i]).length = before.length + 1 := by simp
      have hrest := ih (by rw [hcode, List.append_cons before i rest]) hpassed
      rw [hlength] at hrest
      exact fun l l' hl => hrest l l' (hdone _ _ _ _ hl)

end Lowering

end Straightline
