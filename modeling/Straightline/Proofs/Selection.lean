/-
  The lines for an instruction.

  Lowering gives out registers and writes lines in turns.  When it is done
  with an instruction, everything the instruction works with is still in the
  register that the lines say; so the lines can be read off the instruction
  and the registers at its end.

  * `Lowering.Selects`: the lines that stand for an instruction, if the
    registers are given out in a certain way;
  * `Lowering.Extends`: what lowering a part of an instruction preserves;
  * `Lowering.Ready.lowers`: lowering an instruction adds the lines that stand
    for it.
-/
import Straightline.Lowering
import Straightline.Proofs.Execution
import Straightline.Proofs.Grants

namespace Straightline

open Assembly (Line Operation Source)

namespace Lowering

variable {loadRight : Bool} {i : Instruction} {l l' l'' : Lowering} {new new' : List Line}
  {x : String} {r : Register}

/-! ## Selection -/

/-- Lines and a register for a left operand; a constant is loaded first. -/
inductive SelectsLeft (a : Allocation) : Operand → List Line → Register → Prop where
  | held {x : String} {r : Register} : (x, r) ∈ a.assigned → SelectsLeft a (.var x) [] r
  | loaded {value : Int} {r : Register} : (scratch 0, r) ∈ a.assigned →
      SelectsLeft a (.imm value) [.loadImmediate r value] r

/-- Lines and a source for a right operand; a constant is loaded first, or
    stands for itself. -/
inductive SelectsRight (loadRight : Bool) (a : Allocation) :
    Operand → List Line → Source → Prop where
  | held {x : String} {r : Register} : (x, r) ∈ a.assigned →
      SelectsRight loadRight a (.var x) [] (.register r)
  | loaded {value : Int} {r : Register} : loadRight = true → (scratch 1, r) ∈ a.assigned →
      SelectsRight loadRight a (.imm value) [.loadImmediate r value] (.register r)
  | literal {value : Int} : loadRight = false →
      SelectsRight loadRight a (.imm value) [] (.literal value)

/-- The lines that stand for an instruction, if `a` tells the registers.  Two
    constants are never added. -/
inductive Selects (loadRight : Bool) (a : Allocation) : Instruction → List Line → Prop where
  | addImmediate {operands : List Operand} {d x : String} {value : Int} {r s : Register} :
      operands = [.imm value, .var x] ∨ operands = [.var x, .imm value] →
      (d, r) ∈ a.assigned → (x, s) ∈ a.assigned →
      Selects loadRight a ⟨.add, operands, some d⟩ [.addImmediate r s value]
  | operate {op : Operation} {lhs rhs : Operand} {d : String} {left right : List Line}
      {r s : Register} {source : Source} :
      (op = .add → lhs.isImmediate = false ∧ rhs.isImmediate = false) → (d, r) ∈ a.assigned →
      SelectsLeft a lhs left s → SelectsRight loadRight a rhs right source →
      Selects loadRight a ⟨op.opcode, [lhs, rhs], some d⟩
        (left ++ right ++ [.operate op r s source])
  | loadImmediate {d : String} {value : Int} {r : Register} : (d, r) ∈ a.assigned →
      Selects loadRight a ⟨.mov, [.imm value], some d⟩ [.loadImmediate r value]
  | move {d x : String} {r s : Register} : (d, r) ∈ a.assigned → (x, s) ∈ a.assigned →
      Selects loadRight a ⟨.mov, [.var x], some d⟩ [.move r s]
  | returnNothing {result : Option String} : Selects loadRight a ⟨.ret, [], result⟩ []
  | returnConstant {result : Option String} {value : Int} :
      Selects loadRight a ⟨.ret, [.imm value], result⟩ [.loadImmediate .result value]
  | returnVariable {result : Option String} {x : String} {r : Register} : (x, r) ∈ a.assigned →
      Selects loadRight a ⟨.ret, [.var x], result⟩ [.move .result r]

/-! ## Parts of an instruction -/

/-- The variables that get registers for an instruction. -/
def Touches (i : Instruction) (x : String) : Prop :=
  i.result = some x ∨ i.reads x = true ∨ x = scratch 0 ∨ x = scratch 1

/-- Whether an instruction can be lowered next: what it writes and reads is
    needed. -/
structure Ready (i : Instruction) (l : Lowering) : Prop where
  valid : l.allocation.Valid
  needed : ∀ x, i.result = some x ∨ i.reads x = true → l.allocation.isNeeded x = true

/-- A part of an instruction: registers are given out and some lines are
    added. -/
structure Extends (i : Instruction) (new : List Line) (l l' : Lowering) : Prop where
  later : l.allocation.Later (Touches i) l'.allocation
  lines : l'.lines = l.lines ++ new

/-- Whether a variable is in a register and keeps it to the end of the
    instruction. -/
structure Holds (l : Lowering) (x : String) (r : Register) : Prop where
  mem : (x, r) ∈ l.allocation.assigned
  needed : l.allocation.isNeeded x = true

theorem Extends.trans (h : Extends i new l l') (h' : Extends i new' l' l'') :
    Extends i (new ++ new') l l'' :=
  ⟨h.later.trans h'.later, by rw [h'.lines, h.lines, List.append_assoc]⟩

theorem Ready.mono (hl : Ready i l) (h : Extends i new l l') : Ready i l' :=
  ⟨h.later.valid hl.valid, fun x hx => h.later.isNeeded (hl.needed x hx)⟩

theorem Holds.mono (hx : Holds l x r) (h : Extends i new l l') : Holds l' x r :=
  ⟨h.later.kept hx.needed hx.mem, h.later.isNeeded hx.needed⟩

theorem extends_of_emit (i : Instruction) {line : Line} {u : Unit}
    (h : (emit line).exec l = (.ok u, l')) :
    Extends i [line] l l' := by
  rw [exec_emit] at h
  split at h
  · cases h
    exact ⟨.refl _, rfl⟩
  · cases h

theorem extends_of_register (hl : l.allocation.Valid) (hx : Touches i x)
    (h : (register x).exec l = (.ok r, l')) :
    Extends i [] l l' ∧ (x, r) ∈ l'.allocation.assigned := by
  rw [exec_register] at h
  rcases hobtain : l.allocation.obtain x with _ | ⟨grant, allocation⟩
  · simp [hobtain] at h
  · simp only [hobtain] at h
    cases h
    exact ⟨⟨Allocation.later_of_obtain hx hobtain, (List.append_nil _).symm⟩,
      Allocation.mem_of_obtain hl hobtain⟩

section

variable {α : Type} {out : α}

theorem Ready.register_bind (hl : Ready i l) (hx : i.result = some x ∨ i.reads x = true)
    {f : Register → Step α} (h : (register x >>= f).exec l = (.ok out, l')) :
    ∃ r l₁, Extends i [] l l₁ ∧ Ready i l₁ ∧ Holds l₁ x r ∧ (f r).exec l₁ = (.ok out, l') := by
  obtain ⟨r, l₁, hregister, h⟩ := Attempt.exec_bind_eq_ok h
  have htouches : Touches i x := hx.elim .inl fun h => .inr (.inl h)
  obtain ⟨e, hmem⟩ := extends_of_register hl.valid htouches hregister
  exact ⟨r, l₁, e, hl.mono e, ⟨hmem, e.later.isNeeded (hl.needed x hx)⟩, h⟩

theorem Ready.destination_bind (hl : Ready i l) {f : Register → Step α}
    (h : (destination i >>= f).exec l = (.ok out, l')) :
    ∃ d r l₁, i.result = some d ∧ Extends i [] l l₁ ∧ Ready i l₁ ∧ Holds l₁ d r ∧
      (f r).exec l₁ = (.ok out, l') := by
  rcases hresult : i.result with _ | d
  · simp [destination, hresult] at h
  · simp only [destination, hresult] at h
    obtain ⟨r, l₁, hregister⟩ := hl.register_bind (.inl hresult) h
    exact ⟨d, r, l₁, rfl, hregister⟩

theorem Ready.load_bind (hl : Ready i l) {number : Nat} (hnumber : number = 0 ∨ number = 1)
    {value : Int} {f : Register → Step α} (h : (load number value >>= f).exec l = (.ok out, l')) :
    ∃ r l₁, Extends i [.loadImmediate r value] l l₁ ∧ Ready i l₁ ∧ Holds l₁ (scratch number) r ∧
      (f r).exec l₁ = (.ok out, l') := by
  have htouches : Touches i (scratch number) := by
    rcases hnumber with rfl | rfl <;> simp [Touches]
  simp only [load, scratchRegister, bind_assoc, pure_bind] at h
  obtain ⟨r, l₁, hregister, h⟩ := Attempt.exec_bind_eq_ok h
  obtain ⟨e, hmem⟩ := extends_of_register hl.valid htouches hregister
  obtain ⟨_, l₂, hpin, h⟩ := Attempt.exec_bind_eq_ok h
  cases hpin
  obtain ⟨_, l₃, hemit, h⟩ := Attempt.exec_bind_eq_ok h
  have e' : Extends i [] l { l₁ with allocation := l₁.allocation.pin (scratch number) } :=
    ⟨e.later.trans (Allocation.later_of_pin _ (scratch number)), e.lines⟩
  have e'' := extends_of_emit i hemit
  -- The scratch variable is pinned as soon as it has its register.
  have hr : Holds { l₁ with allocation := l₁.allocation.pin (scratch number) } (scratch number) r :=
    ⟨hmem, Allocation.isNeeded_of_mem_pinned List.mem_cons_self⟩
  exact ⟨r, l₃, e'.trans e'', hl.mono (e'.trans e''), hr.mono e'', h⟩

theorem requireWritable_bind {value : Int} {f : Unit → Step α}
    (h : (requireWritable value >>= f).exec l = (.ok out, l')) : (f ()).exec l = (.ok out, l') := by
  obtain ⟨_, l₁, hwritable, h⟩ := Attempt.exec_bind_eq_ok h
  rw [exec_requireWritable] at hwritable
  split at hwritable
  · cases hwritable
    exact h
  · cases hwritable

theorem Ready.rightConstant_bind (hl : Ready i l) {value : Int} {f : Source → Step α}
    (h : (rightConstant loadRight value >>= f).exec l = (.ok out, l')) :
    ∃ source new l₁, Extends i new l l₁ ∧
      (∀ {new' l'}, Extends i new' l₁ l' →
        SelectsRight loadRight l'.allocation (.imm value) new source) ∧
      (f source).exec l₁ = (.ok out, l') := by
  cases loadRight with
  | false =>
    exact ⟨.literal value, [], l, ⟨.refl _, (List.append_nil _).symm⟩, fun _ => .literal rfl, h⟩
  | true =>
    simp only [rightConstant, ↓reduceIte, bind_map_left] at h
    obtain ⟨r, l₁, e, -, hr, h⟩ := hl.load_bind (.inr rfl) h
    exact ⟨.register r, _, l₁, e, fun e' => .loaded rfl (hr.mono e').mem, h⟩

end

/-! ## Whole instructions -/

/-- An instruction is lowered: the lines that stand for it are added. -/
def Lowers (loadRight : Bool) (i : Instruction) (l l' : Lowering) : Prop :=
  ∃ new, Extends i new l l' ∧ Selects loadRight l'.allocation i new

section

variable {operands : List Operand} {result : Option String} {u : Unit}

theorem Ready.operate_variables (op : Operation) {y : String}
    (hl : Ready ⟨op.opcode, [.var x, .var y], result⟩ l)
    (h : (do let dest ← destination ⟨op.opcode, [.var x, .var y], result⟩
             let r ← register x
             let s ← register y
             emit (.operate op dest r (.register s))).exec l = (.ok u, l')) :
    Lowers loadRight ⟨op.opcode, [.var x, .var y], result⟩ l l' := by
  obtain ⟨d, r, l₁, hd, e₁, hl₁, hr, h⟩ := hl.destination_bind h
  obtain ⟨s, l₂, e₂, hl₂, hs, h⟩ := hl₁.register_bind (.inr (by simp [Instruction.reads])) h
  obtain ⟨t, l₃, e₃, -, ht, h⟩ := hl₂.register_bind (.inr (by simp [Instruction.reads])) h
  have e₄ := extends_of_emit ⟨op.opcode, [.var x, .var y], result⟩ h
  cases hd
  exact ⟨_, e₁.trans (e₂.trans (e₃.trans e₄)),
    .operate (fun _ => ⟨rfl, rfl⟩) (hr.mono (e₂.trans (e₃.trans e₄))).mem
      (.held (hs.mono (e₃.trans e₄)).mem) (.held (ht.mono e₄).mem)⟩

theorem Ready.add_constant {value : Int} (hl : Ready ⟨.add, operands, result⟩ l)
    (hoperands : operands = [.imm value, .var x] ∨ operands = [.var x, .imm value])
    (h : (do let dest ← destination ⟨.add, operands, result⟩
             let r ← register x
             emit (.addImmediate dest r value)).exec l = (.ok u, l')) :
    Lowers loadRight ⟨.add, operands, result⟩ l l' := by
  have hreads : Instruction.reads ⟨.add, operands, result⟩ x = true := by
    rcases hoperands with rfl | rfl <;> simp [Instruction.reads]
  obtain ⟨d, r, l₁, hd, e₁, hl₁, hr, h⟩ := hl.destination_bind h
  obtain ⟨s, l₂, e₂, -, hs, h⟩ := hl₁.register_bind (.inr hreads) h
  have e₃ := extends_of_emit ⟨.add, operands, result⟩ h
  cases hd
  exact ⟨_, e₁.trans (e₂.trans e₃),
    .addImmediate hoperands (hr.mono (e₂.trans e₃)).mem (hs.mono e₃).mem⟩

theorem Ready.lowers_of_lowerAdd (hl : Ready ⟨.add, operands, result⟩ l)
    (h : (lowerAdd ⟨.add, operands, result⟩).exec l = (.ok u, l')) :
    Lowers loadRight ⟨.add, operands, result⟩ l l' := by
  unfold lowerAdd at h
  split at h
  · cases h
  · next value x hoperands => exact hl.add_constant (.inl hoperands) h
  · next x value hoperands => exact hl.add_constant (.inr hoperands) h
  · next x y hoperands =>
    cases hoperands
    exact Ready.operate_variables .add hl h
  · cases h

theorem Ready.lowers_of_lowerBinary (op : Operation) (hop : op ≠ .add)
    (hl : Ready ⟨op.opcode, operands, result⟩ l)
    (h : (lowerBinary loadRight op ⟨op.opcode, operands, result⟩).exec l = (.ok u, l')) :
    Lowers loadRight ⟨op.opcode, operands, result⟩ l l' := by
  unfold lowerBinary at h
  split at h
  · next x y hoperands =>
    cases hoperands
    exact hl.operate_variables op h
  · next x value hoperands =>
    cases hoperands
    obtain ⟨d, r, l₁, hd, e₁, hl₁, hr, h⟩ := hl.destination_bind h
    obtain ⟨s, l₂, e₂, hl₂, hs, h⟩ := hl₁.register_bind (.inr (by simp [Instruction.reads])) h
    obtain ⟨source, loads, l₃, e₃, hsource, h⟩ := hl₂.rightConstant_bind (requireWritable_bind h)
    have e₄ := extends_of_emit ⟨op.opcode, [.var x, .imm value], result⟩ h
    cases hd
    exact ⟨_, e₁.trans (e₂.trans (e₃.trans e₄)),
      .operate (absurd · hop) (hr.mono (e₂.trans (e₃.trans e₄))).mem
        (.held (hs.mono (e₃.trans e₄)).mem) (hsource e₄)⟩
  · next value y hoperands =>
    cases hoperands
    obtain ⟨d, r, l₁, hd, e₁, hl₁, hr, h⟩ := hl.destination_bind h
    obtain ⟨t, l₂, e₂, hl₂, ht, h⟩ := hl₁.register_bind (.inr (by simp [Instruction.reads])) h
    obtain ⟨s, l₃, e₃, -, hs, h⟩ := hl₂.load_bind (.inl rfl) h
    have e₄ := extends_of_emit ⟨op.opcode, [.imm value, .var y], result⟩ h
    cases hd
    exact ⟨_, e₁.trans (e₂.trans (e₃.trans e₄)),
      .operate (absurd · hop) (hr.mono (e₂.trans (e₃.trans e₄))).mem
        (.loaded (hs.mono e₄).mem) (.held (ht.mono (e₃.trans e₄)).mem)⟩
  · next left right hoperands =>
    cases hoperands
    obtain ⟨d, r, l₁, hd, e₁, hl₁, hr, h⟩ := hl.destination_bind h
    obtain ⟨s, l₂, e₂, hl₂, hs, h⟩ := hl₁.load_bind (.inl rfl) (requireWritable_bind h)
    obtain ⟨source, loads, l₃, e₃, hsource, h⟩ := hl₂.rightConstant_bind h
    have e₄ := extends_of_emit ⟨op.opcode, [.imm left, .imm right], result⟩ h
    cases hd
    exact ⟨_, e₁.trans (e₂.trans (e₃.trans e₄)),
      .operate (absurd · hop) (hr.mono (e₂.trans (e₃.trans e₄))).mem
        (.loaded (hs.mono (e₃.trans e₄)).mem) (hsource e₄)⟩
  · cases h

theorem Ready.lowers_of_lowerMove (hl : Ready ⟨.mov, operands, result⟩ l)
    (h : (lowerMove ⟨.mov, operands, result⟩).exec l = (.ok u, l')) :
    Lowers loadRight ⟨.mov, operands, result⟩ l l' := by
  unfold lowerMove at h
  split at h
  · next value hoperands =>
    cases hoperands
    obtain ⟨d, r, l₁, hd, e₁, -, hr, h⟩ := hl.destination_bind h
    have e₂ := extends_of_emit ⟨.mov, [.imm value], result⟩ h
    cases hd
    exact ⟨_, e₁.trans e₂, .loadImmediate (hr.mono e₂).mem⟩
  · next x hoperands =>
    cases hoperands
    obtain ⟨d, r, l₁, hd, e₁, hl₁, hr, h⟩ := hl.destination_bind h
    obtain ⟨s, l₂, e₂, -, hs, h⟩ := hl₁.register_bind (.inr (by simp [Instruction.reads])) h
    have e₃ := extends_of_emit ⟨.mov, [.var x], result⟩ h
    cases hd
    exact ⟨_, e₁.trans (e₂.trans e₃), .move (hr.mono (e₂.trans e₃)).mem (hs.mono e₃).mem⟩
  · cases h

theorem Ready.lowers_of_lowerReturn (hl : Ready ⟨.ret, operands, result⟩ l)
    (h : (lowerReturn ⟨.ret, operands, result⟩).exec l = (.ok u, l')) :
    Lowers loadRight ⟨.ret, operands, result⟩ l l' := by
  unfold lowerReturn at h
  split at h
  · next hoperands =>
    cases hoperands
    cases h
    exact ⟨[], ⟨.refl _, (List.append_nil _).symm⟩, .returnNothing⟩
  · next value hoperands =>
    cases hoperands
    exact ⟨_, extends_of_emit _ h, .returnConstant⟩
  · next x hoperands =>
    cases hoperands
    obtain ⟨r, l₁, e₁, -, hr, h⟩ := hl.register_bind (.inr (by simp [Instruction.reads])) h
    have e₂ := extends_of_emit ⟨.ret, [.var x], result⟩ h
    exact ⟨_, e₁.trans e₂, .returnVariable (hr.mono e₂).mem⟩
  · cases h

end

/-- **Lowering an instruction adds the lines that stand for it**, given the
    registers at its end. -/
theorem Ready.lowers {u : Unit} (hl : Ready i l) (h : (lower loadRight i).exec l = (.ok u, l')) :
    Lowers loadRight i l l' := by
  obtain ⟨opcode, operands, result⟩ := i
  cases opcode with
  | add => exact hl.lowers_of_lowerAdd h
  | sub => exact hl.lowers_of_lowerBinary .sub (by decide) h
  | mul => exact hl.lowers_of_lowerBinary .mul (by decide) h
  | mov => exact hl.lowers_of_lowerMove h
  | ret => exact hl.lowers_of_lowerReturn h
  | other name => cases h

end Lowering

end Straightline
