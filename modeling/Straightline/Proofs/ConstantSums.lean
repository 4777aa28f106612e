/-
  Sums of two constants.

  The target adds a constant to a register, but it has no line that adds two
  constants.  What the front end emits is lowered, if registers do not run
  out, unless there is such a sum in one of the statements up to the first
  return.  In the source its constants may be in parentheses; the parentheses
  leave no trace in the instructions.

  * `Tree.addsConstants`: whether there is such a sum in a tree, and
    `Tree.reachedStatements`: where it is looked for;
  * `Expr.addsConstants`, `Instruction.addsConstants`: the same for
    expressions and instructions;
  * `Emitter.IsWritable`, `Emitter.keeps_forM_handle`: the emitter never gets
    a constant that is too long to be written;
  * `Lowering.Verdict`: what lowering the instructions comes to.
-/
import Mathlib.Data.List.Induction
import Straightline.Proofs.Correctness
import Straightline.Proofs.Pressure

namespace Straightline

/-! ## Trees -/

namespace Tree

/-- Whether a tree is an integer constant, possibly in parentheses. -/
def isConstant : {x : Symbol} → Tree x → Bool
  | _, .node .factorConstant _ => true
  | _, .node .expressionTerm (.cons t .nil) | _, .node .termFactor (.cons t .nil)
  | _, .node .parentheses (.cons _ (.cons t (.cons _ .nil))) => t.isConstant
  | _, _ => false

/-- Whether a tree is a return. -/
def isReturn : {x : Symbol} → Tree x → Bool
  | _, .node .returnValue _ => true
  | _, _ => false

/-- The statements of a program up to and including the first return. -/
def reachedStatements : {x : Symbol} → Tree x → List (Tree (.nonterminal .statement))
  | _, .node .program (.cons statements .nil) => statements.reachedStatements
  | _, .node .statementsMore (.cons s (.cons _ (.cons others .nil))) =>
    s :: if s.isReturn then [] else others.reachedStatements
  | _, .node .statementsLast (.cons s _) => [s]
  | _, _ => []

end Tree

/-- Whether a production makes a sum of two constants. -/
def Production.isConstantSum : (p : Production) → Forest p.body → Bool
  | .add, .cons lhs (.cons _ (.cons rhs .nil)) => lhs.isConstant && rhs.isConstant
  | _, _ => false

mutual

/-- Whether there is a sum of two constants in a tree. -/
def Tree.addsConstants {x : Symbol} : Tree x → Bool
  | .leaf _ => false
  | .node p children => p.isConstantSum children || children.addsConstants

@[inherit_doc Tree.addsConstants]
def Forest.addsConstants {xs : List Symbol} : Forest xs → Bool
  | .nil => false
  | .cons tree others => tree.addsConstants || others.addsConstants

end

/-! ## Phrases -/

/-- Whether an expression is a constant. -/
def Expr.isConstant : Expr → Bool
  | .constant _ => true
  | _ => false

/-- Whether there is a sum of two constants in an expression. -/
def Expr.addsConstants : Expr → Bool
  | .name _ | .constant _ => false
  | .operation op lhs rhs =>
    op = .add && lhs.isConstant && rhs.isConstant || (lhs.addsConstants || rhs.addsConstants)

/-- Whether there is a sum of two constants in a statement. -/
def Statement.addsConstants : Statement → Bool
  | .declare _ => false
  | .assign _ e | .ret e => e.addsConstants

/-- Whether a statement is a return. -/
def Statement.isReturn : Statement → Bool
  | .ret _ => true
  | _ => false

/-- The statements of a program up to and including the first return. -/
def Program.reached : Program → Program
  | [] => []
  | s :: rest => s :: if s.isReturn then [] else reached rest

@[inherit_doc Expr.isConstant]
def Symbol.isConstant : (s : Symbol) → s.Phrase → Bool
  | .nonterminal .expression, e | .nonterminal .term, e | .nonterminal .factor, e =>
    Expr.isConstant e
  | _, _ => false

@[inherit_doc Statement.isReturn]
def Symbol.isReturn : (s : Symbol) → s.Phrase → Bool
  | .nonterminal .statement, s => Statement.isReturn s
  | _, _ => false

@[inherit_doc Expr.addsConstants]
def Symbol.addsConstants : (s : Symbol) → s.Phrase → Bool
  | .nonterminal .expression, e | .nonterminal .term, e | .nonterminal .factor, e =>
    Expr.addsConstants e
  | .nonterminal .statement, s => Statement.addsConstants s
  | .nonterminal .statements, p | .nonterminal .program, p | .nonterminal .goal, p =>
    List.any p Statement.addsConstants
  | .terminal _, _ | .nonterminal .typeName, _ => false

@[inherit_doc Program.reached]
def Symbol.reached : (s : Symbol) → s.Phrase → Program
  | .nonterminal .statements, p | .nonterminal .program, p => Program.reached p
  | _, _ => []

namespace Tree

theorem isConstant_eq : ∀ {x : Symbol} (t : Tree x), t.isConstant = x.isConstant t.phrase
  | _, .node .expressionTerm (.cons t .nil) | _, .node .termFactor (.cons t .nil)
  | _, .node .parentheses (.cons _ (.cons t (.cons _ .nil))) => t.isConstant_eq
  | _, .node .add (.cons _ (.cons _ (.cons _ .nil)))
  | _, .node .sub (.cons _ (.cons _ (.cons _ .nil)))
  | _, .node .mul (.cons _ (.cons _ (.cons _ .nil)))
  | _, .node .factorConstant (.cons _ .nil) | _, .node .factorName (.cons _ .nil)
  | _, .leaf _ | _, .node .program _ | _, .node .statementsMore _ | _, .node .statementsLast _
  | _, .node .declaration _ | _, .node .intType _ | _, .node .assignment _
  | _, .node .returnValue _ => rfl

theorem isReturn_eq : ∀ {x : Symbol} (t : Tree x), t.isReturn = x.isReturn t.phrase
  | _, .node .returnValue (.cons _ (.cons _ .nil))
  | _, .node .declaration (.cons _ (.cons _ .nil))
  | _, .node .assignment (.cons _ (.cons _ (.cons _ .nil)))
  | _, .leaf _ | _, .node .program _ | _, .node .statementsMore _ | _, .node .statementsLast _
  | _, .node .intType _ | _, .node .add _ | _, .node .sub _ | _, .node .expressionTerm _
  | _, .node .mul _ | _, .node .termFactor _ | _, .node .parentheses _ | _, .node .factorName _
  | _, .node .factorConstant _ => rfl

theorem map_phrase_reachedStatements : ∀ {x : Symbol} (t : Tree x),
    t.reachedStatements.map Tree.phrase = x.reached t.phrase
  | _, .node .program (.cons statements .nil) => statements.map_phrase_reachedStatements
  | _, .node .statementsMore (.cons s (.cons _ (.cons others .nil))) => by
    have hothers := others.map_phrase_reachedStatements
    have hreturn := s.isReturn_eq
    show List.map Tree.phrase (s :: if s.isReturn then [] else others.reachedStatements) =
      (s.phrase :: if Symbol.isReturn _ s.phrase then [] else Symbol.reached _ others.phrase)
    rw [List.map_cons, hreturn, ← hothers]
    split <;> rfl
  | _, .node .statementsLast (.cons s (.cons _ .nil)) => by
    show [s.phrase] = s.phrase :: if Symbol.isReturn _ s.phrase then [] else []
    rw [ite_self]
  | _, .leaf _ | _, .node .declaration _ | _, .node .intType _ | _, .node .assignment _
  | _, .node .returnValue _ | _, .node .add _ | _, .node .sub _ | _, .node .expressionTerm _
  | _, .node .mul _ | _, .node .termFactor _ | _, .node .parentheses _ | _, .node .factorName _
  | _, .node .factorConstant _ => rfl

end Tree

@[inherit_doc Expr.addsConstants]
def Phrases.addsConstants : (xs : List Symbol) → Phrases xs → Bool
  | [], _ => false
  | s :: xs, (phrase, others) => s.addsConstants phrase || Phrases.addsConstants xs others

theorem Production.addsConstants_build : ∀ (p : Production) (children : Forest p.body),
    (p.isConstantSum children || Phrases.addsConstants p.body children.phrases) =
      Symbol.addsConstants (.nonterminal p.head) (p.build children.phrases)
  | .add, .cons lhs (.cons _ (.cons rhs .nil)) =>
    congrArg₂ (· || ·) (congrArg₂ (· && ·) lhs.isConstant_eq rhs.isConstant_eq)
      (congrArg (_ || ·) (Bool.or_false _))
  | .sub, .cons lhs (.cons _ (.cons _ .nil)) | .mul, .cons lhs (.cons _ (.cons _ .nil)) =>
    congrArg (Expr.addsConstants lhs.phrase || ·) (Bool.or_false _)
  | .statementsMore, .cons s (.cons _ (.cons _ .nil)) =>
    congrArg (Statement.addsConstants s.phrase || ·) (Bool.or_false _)
  | .program, .cons _ .nil | .expressionTerm, .cons _ .nil | .termFactor, .cons _ .nil
  | .parentheses, .cons _ (.cons _ (.cons _ .nil)) | .assignment, .cons _ (.cons _ (.cons _ .nil))
  | .returnValue, .cons _ (.cons _ .nil) => Bool.or_false _
  | .statementsLast, .cons _ (.cons _ .nil) | .declaration, .cons _ (.cons _ .nil)
  | .intType, .cons _ .nil | .factorName, .cons _ .nil | .factorConstant, .cons _ .nil => rfl

mutual

/-- There is a sum of constants in a tree if there is one in what it stands
    for. -/
theorem Tree.addsConstants_eq {x : Symbol} : ∀ t : Tree x,
    t.addsConstants = x.addsConstants t.phrase
  | .leaf _ => rfl
  | .node p children =>
    (congrArg (_ || ·) children.addsConstants_eq).trans (p.addsConstants_build children)

@[inherit_doc Tree.addsConstants_eq]
theorem Forest.addsConstants_eq {xs : List Symbol} : ∀ f : Forest xs,
    f.addsConstants = Phrases.addsConstants xs f.phrases
  | .nil => rfl
  | .cons tree others => congrArg₂ (· || ·) tree.addsConstants_eq others.addsConstants_eq

end

/-- The statements up to the first return add constants in a tree if they do
    in the program. -/
theorem ProgramTree.any_reachedStatements (tree : ProgramTree) :
    tree.reachedStatements.any Tree.addsConstants =
      (Program.reached tree.program).any Statement.addsConstants := by
  have hphrases : tree.reachedStatements.map Tree.phrase = Program.reached tree.program :=
    tree.map_phrase_reachedStatements
  have hany : tree.reachedStatements.any Tree.addsConstants =
      (tree.reachedStatements.map Tree.phrase).any (Symbol.addsConstants _) := by
    rw [List.any_map]
    exact congrArg _ (funext fun s => s.addsConstants_eq)
  exact hany.trans (congrArg (List.any · Statement.addsConstants) hphrases)

/-! ## Instructions -/

/-- Whether an instruction is an addition of two constants. -/
def Instruction.addsConstants (i : Instruction) : Bool :=
  match i.opcode, i.operands with
  | .add, [lhs, rhs] => lhs.isImmediate && rhs.isImmediate
  | _, _ => false

/-- Whether only registers can be missing for an instruction, or it is an
    addition of two constants. -/
def Instruction.IsEmitted (i : Instruction) : Prop :=
  i.isWellFormed = true ∨ i.addsConstants = true

theorem Instruction.addsConstants_of_isWellFormed {i : Instruction} (h : i.isWellFormed = true) :
    i.addsConstants = false := by
  unfold isWellFormed at h
  split at h
  · next lhs rhs result hopcode hoperands hresult =>
    simpa only [addsConstants, hopcode, hoperands, Bool.not_eq_true'] using h
  all_goals simp_all [addsConstants]

theorem Instruction.isEmitted_operation (op : Assembly.Operation) (lhs rhs : Operand)
    (result : String) : IsEmitted ⟨op.opcode, [lhs, rhs], some result⟩ := by
  cases op with
  | add =>
    cases h : lhs.isImmediate && rhs.isImmediate with
    | false => exact .inl (congrArg (!·) h)
    | true => exact .inr h
  | sub => exact .inl rfl
  | mul => exact .inl rfl

theorem Instruction.addsConstants_operation (op : Assembly.Operation) (lhs rhs : Operand)
    (result : Option String) : addsConstants ⟨op.opcode, [lhs, rhs], result⟩ =
      (op = .add && lhs.isImmediate && rhs.isImmediate) := by
  cases op <;> rfl

namespace Expr

theorem isImmediate_operand_translate (e : Expr) (n : Nat) :
    (e.translate n).operand.isImmediate = e.isConstant := by
  cases e <;> rfl

theorem isEmitted_translate {e : Expr} {n : Nat} {i : Instruction}
    (hi : i ∈ (e.translate n).instructions) : i.IsEmitted := by
  induction e generalizing n with
  | name x => cases hi
  | constant value => cases hi
  | operation op lhs rhs ihl ihr =>
    simp only [translate, List.mem_append, List.mem_singleton] at hi
    rcases hi with (hi | hi) | rfl
    · exact ihl hi
    · exact ihr hi
    · exact Instruction.isEmitted_operation op _ _ _

theorem any_addsConstants_translate (e : Expr) (n : Nat) :
    (e.translate n).instructions.any Instruction.addsConstants = e.addsConstants := by
  induction e generalizing n with
  | name x => rfl
  | constant value => rfl
  | operation op lhs rhs ihl ihr =>
    simp only [translate, addsConstants, List.any_append, List.any_cons, List.any_nil,
      Bool.or_false, ihl, ihr, Instruction.addsConstants_operation, isImmediate_operand_translate]
    exact Bool.or_comm _ _

end Expr

theorem reached_append {pre : List Instruction} (hpre : NoReturn pre) (rest : List Instruction) :
    reached (pre ++ rest) = pre ++ reached rest := by
  induction pre with
  | nil => rfl
  | cons i pre ih =>
    obtain ⟨hi, hpre⟩ := List.forall_mem_cons.1 hpre
    rw [List.cons_append, reached, if_neg hi, ih hpre, List.cons_append]

namespace Program

theorem isEmitted_translate {p : Program} {n : Nat} {i : Instruction}
    (hi : i ∈ (translate n p).1) : i.IsEmitted := by
  induction p generalizing n with
  | nil => cases hi
  | cons s rest ih =>
    rcases List.mem_append.1 hi with hi | hi
    · cases s with
      | declare x => cases hi
      | assign x e =>
        rcases List.mem_append.1 hi with hi | hi
        · exact Expr.isEmitted_translate hi
        · cases List.mem_singleton.1 hi
          exact .inl rfl
      | ret e =>
        rcases List.mem_append.1 hi with hi | hi
        · exact Expr.isEmitted_translate hi
        · cases List.mem_singleton.1 hi
          exact .inl rfl
    · exact ih hi

/-- The instructions that are reached add constants if the statements do. -/
theorem any_reached_translate (p : Program) (n : Nat) :
    (Straightline.reached (translate n p).1).any Instruction.addsConstants =
      (reached p).any Statement.addsConstants := by
  induction p generalizing n with
  | nil => rfl
  | cons s rest ih =>
    cases s with
    | declare x => exact ih n
    | assign x e =>
      simp only [translate, Statement.translate, List.append_assoc, List.singleton_append,
        reached_append (e.noReturn_translate n), List.any_append, e.any_addsConstants_translate]
      exact congrArg (_ || ·) (ih _)
    | ret e =>
      simp only [translate, Statement.translate, List.append_assoc, List.singleton_append,
        reached_append (e.noReturn_translate n), List.any_append, e.any_addsConstants_translate]
      rfl

end Program

/-! ## Constants are short -/

namespace Text

theorem decimalValue_lt {digits : List Char} (h : digits.all Char.isDigit = true) :
    decimalValue digits < 10 ^ digits.length := by
  induction digits using List.reverseRecOn with
  | nil => decide
  | append_singleton digits c ih =>
    rw [List.all_append, Bool.and_eq_true, List.all_cons, List.all_nil, Bool.and_true,
      Char.isDigit_iff_toNat] at h
    have hlast : decimalValue (digits ++ [c]) =
        10 * decimalValue digits + (c.toNat - '0'.toNat) := by
      simp [decimalValue]
    have hzero : '0'.toNat = 48 := rfl
    have hnine : '9'.toNat = 57 := rfl
    have hrest := ih h.1
    rw [hzero, hnine] at h
    rw [hlast, hzero, List.length_append, List.length_singleton, Nat.pow_succ]
    omega

/-- A constant that is not too long to be read is not too long to be written. -/
theorem isWritable_of_readDecimal {text : String} {value : Nat}
    (h : readDecimal text = .ok value) : isWritable value = true := by
  simp only [readDecimal] at h
  split at h
  · cases h
  · next hdecimal =>
    split at h
    · cases h
    · next hlength =>
      cases h
      rw [isWritable_iff, Int.natAbs_natCast]
      have hdigits : text.toList.all Char.isDigit = true := by
        simp only [isDecimal, Bool.not_eq_true', Bool.and_eq_false_iff, not_or,
          Bool.not_eq_false] at hdecimal
        exact hdecimal.2
      exact Nat.lt_of_lt_of_le (decimalValue_lt hdigits)
        (Nat.pow_le_pow_right (by decide) (Nat.le_of_not_lt hlength))

end Text

namespace Emitter

variable {α β : Type} {P : α → Prop} {P' : β → Prop}

/-- No constant in the instructions and slots is too long to be written. -/
structure IsWritable (e : Emitter) : Prop where
  instructions : ∀ i ∈ e.instructions, i.isWritable = true
  slots : ∀ operand, some operand ∈ e.stack → operand.isWritable = true

/-- A step that succeeds keeps all constants short, and what it gives has some
    property. -/
def Keeps (m : Step α) (P : α → Prop) : Prop :=
  ∀ ⦃e out e'⦄, e.IsWritable → m.exec e = (.ok out, e') → e'.IsWritable ∧ P out

theorem Keeps.bind {m : Step α} {f : α → Step β} (hm : Keeps m P)
    (hf : ∀ out, P out → Keeps (f out) P') : Keeps (m >>= f) P' := by
  intro e out e' he h
  obtain ⟨out₁, e₁, hfirst, hsecond⟩ := Attempt.exec_bind_eq_ok h
  obtain ⟨he₁, hout⟩ := hm he hfirst
  exact hf out₁ hout he₁ hsecond

theorem keeps_throw (e : EmitError) : Keeps (throw e : Step α) P := by
  intro _ _ _ _ h
  cases h

theorem keeps_pure {out : α} (h : P out) : Keeps (pure out) P := by
  intro _ _ _ he hexec
  cases hexec
  exact ⟨he, h⟩

theorem keeps_push {slot : Option Operand}
    (h : ∀ operand, slot = some operand → operand.isWritable = true) :
    Keeps (push slot) fun _ => True := by
  intro e _ e' he hexec
  cases hexec
  refine ⟨⟨he.instructions, fun operand hmem => ?_⟩, trivial⟩
  rcases List.mem_cons.1 hmem with heq | hmem
  · exact h operand heq.symm
  · exact he.slots operand hmem

theorem keeps_emit {i : Instruction} (h : i.isWritable = true) : Keeps (emit i) fun _ => True := by
  intro e _ e' he hexec
  cases hexec
  refine ⟨⟨fun j hj => ?_, he.slots⟩, trivial⟩
  rcases List.mem_append.1 hj with hj | hj
  · exact he.instructions j hj
  · rwa [List.mem_singleton.1 hj]

theorem keeps_newTemporary : Keeps newTemporary fun _ => True := by
  intro e _ e' he hexec
  cases hexec
  exact ⟨⟨he.instructions, he.slots⟩, trivial⟩

theorem keeps_pop :
    Keeps pop fun slot => ∀ operand, slot = some operand → operand.isWritable = true := by
  rintro ⟨code, n, _ | ⟨slot, rest⟩⟩ out e' he hexec
  · cases hexec
  · cases hexec
    exact ⟨⟨he.instructions, fun operand hmem => he.slots operand (List.mem_cons_of_mem _ hmem)⟩,
      fun operand heq => he.slots operand (by simp [heq])⟩

theorem keeps_popOperand : Keeps popOperand fun operand => operand.isWritable = true := by
  refine keeps_pop.bind fun slot hslot => ?_
  cases slot with
  | none => exact keeps_throw _
  | some operand => exact keeps_pure (hslot operand rfl)

theorem keeps_popVariable : Keeps popVariable fun _ => True := by
  refine keeps_pop.bind fun slot _ => ?_
  rcases slot with _ | (name | value)
  · exact keeps_throw _
  · exact keeps_pure trivial
  · exact keeps_throw _

theorem keeps_popMany (n : Nat) : Keeps (popMany n) fun _ => True := by
  induction n with
  | zero => exact keeps_pure trivial
  | succ n ih => exact keeps_pop.bind fun _ _ => ih

theorem keeps_arithmetic (opcode : Opcode) : Keeps (arithmetic opcode) fun _ => True :=
  keeps_popOperand.bind fun rhs hrhs => keeps_pop.bind fun _ _ =>
    keeps_popOperand.bind fun lhs hlhs => keeps_newTemporary.bind fun _ _ =>
      (keeps_emit (by simp [Instruction.isWritable, hlhs, hrhs])).bind fun _ _ =>
        keeps_push (by simp [Operand.isWritable])

theorem keeps_shift (token : Token) : Keeps (shift token) fun _ => True := by
  unfold shift
  split
  · next slot hslot =>
    refine keeps_push fun operand hoperand => ?_
    subst hoperand
    unfold slotFor at hslot
    split at hslot
    · cases hslot
      rfl
    · split at hslot
      · next value hvalue =>
        cases hslot
        exact Text.isWritable_of_readDecimal hvalue
      · cases hslot
    · cases hslot
    · cases hslot
  · exact keeps_throw _

theorem keeps_reduceBy (p : Production) : Keeps (reduceBy p) fun _ => True := by
  cases p
  case assignment =>
    exact keeps_popOperand.bind fun value hvalue => keeps_pop.bind fun _ _ =>
      keeps_popVariable.bind fun _ _ =>
        (keeps_emit (by simp [Instruction.isWritable, hvalue])).bind fun _ _ => keeps_push nofun
  case returnValue =>
    exact keeps_popOperand.bind fun value hvalue => keeps_pop.bind fun _ _ =>
      (keeps_emit (by simp [Instruction.isWritable, hvalue])).bind fun _ _ => keeps_push nofun
  case add | sub | mul => exact keeps_arithmetic _
  case parentheses =>
    exact keeps_pop.bind fun _ _ => keeps_popOperand.bind fun value hvalue =>
      keeps_pop.bind fun _ _ => keeps_push (by simp [hvalue])
  case expressionTerm | termFactor | factorName | factorConstant =>
    exact keeps_popOperand.bind fun value hvalue => keeps_push (by simp [hvalue])
  all_goals exact (keeps_popMany _).bind fun _ _ => keeps_push nofun

/-- **Constants stay short** over any actions. -/
theorem keeps_forM_handle (events : List Event) :
    Keeps (forM events handle) fun _ => True := by
  induction events with
  | nil => exact keeps_pure trivial
  | cons event events ih =>
    rw [List.forM_cons]
    have hevent : Keeps (handle event) fun _ => True := by
      cases event with
      | shift token => exact keeps_shift token
      | reduce p => exact keeps_reduceBy p
      | accept => exact keeps_pure trivial
    exact hevent.bind fun _ _ => ih

end Emitter

/-! ## Lowering -/

namespace Lowering

variable {loadRight : Bool} {i : Instruction} {code : List Instruction}

theorem exec_lower_of_addsConstants (h : i.addsConstants = true) (l : Lowering) :
    (lower loadRight i).exec l = (.error .bothImmediate, l) := by
  rcases i with ⟨opcode, operands, result⟩
  unfold Instruction.addsConstants at h
  split at h
  · next lhs rhs hopcode hoperands =>
    cases hopcode
    cases hoperands
    cases lhs <;> cases rhs <;> first | rfl | cases h
  · cases h

/-- What lowering some code comes to: its end, which is only reached if no
    constants are added, a lack of registers, or an addition of constants. -/
inductive Verdict (code : List Instruction) : Except LowerError Unit → Prop where
  | lowered : (reached code).any Instruction.addsConstants = false → Verdict code (.ok ())
  | exhausted (e : Exhausted) : Verdict code (.error (.exhausted e))
  | refused : (reached code).any Instruction.addsConstants = true →
      Verdict code (.error .bothImmediate)

theorem Verdict.cons {out : Except LowerError Unit} (hreturn : i.opcode ≠ .ret)
    (hi : i.addsConstants = false) (h : Verdict code out) : Verdict (i :: code) out := by
  have hreached : (reached (i :: code)).any Instruction.addsConstants =
      (reached code).any Instruction.addsConstants := by
    rw [reached, if_neg hreturn, List.any_cons, hi, Bool.false_or]
  cases h with
  | lowered h => exact .lowered (hreached.trans h)
  | exhausted e => exact .exhausted e
  | refused h => exact .refused (hreached.trans h)

/-- **Lowering what the front end emits** can only fail for want of a register
    or at an addition of constants. -/
theorem verdict_lowerFrom (hcode : ∀ i ∈ code, i.IsEmitted ∧ i.isWritable = true)
    (position : Nat) (l : Lowering) :
    Verdict code ((lowerFrom loadRight position code).exec l).1 := by
  induction code generalizing position l with
  | nil => exact .lowered rfl
  | cons i rest ih =>
    obtain ⟨⟨hi, hwritable⟩, hrest⟩ := List.forall_mem_cons.1 hcode
    rw [lowerFrom, Attempt.exec_bind, Attempt.exec_modify]
    dsimp only
    rw [Attempt.exec_bind]
    rcases hi with hi | hi
    · have hnot := Instruction.addsConstants_of_isWellFormed hi
      have hasks := asks_lower loadRight i
        { l with allocation := l.allocation.advance position i.result }
      rw [Instruction.refusal?_of_isWellFormed hi, if_pos hwritable] at hasks
      split at hasks
      · obtain ⟨l', -, out, hexec⟩ := hasks
        rw [hexec]
        dsimp only
        split
        · next hreturn =>
          refine .lowered ?_
          rw [reached, if_pos hreturn, List.any_cons, hnot]
          rfl
        · next hreturn => exact (ih hrest _ _).cons hreturn hnot
      · obtain ⟨l', hexec⟩ := hasks
        rw [hexec]
        exact .exhausted _
    · rw [exec_lower_of_addsConstants hi]
      refine .refused ?_
      rw [reached, List.any_cons, hi, Bool.true_or]

end Lowering

/-! ## Source texts -/

/-- What the front end emits is the translation of the only tree, and has no
    constant that is too long. -/
theorem FrontEnd.exists_only_tree {source : String} {tokens : List Token} {symbols : Symbols}
    {f : FrontEnd} (hscan : scanText source = .ok (tokens, symbols))
    (hrun : run tokens symbols = (.ok (), f)) :
    ∃ tree : ProgramTree, (∀ tree' : ProgramTree, tree'.tokens = beforeEnd tokens ↔ tree' = tree) ∧
      f.emitter.instructions = (Program.translate 0 tree.program).1 ∧
      ∀ i ∈ f.emitter.instructions, i.isWritable = true := by
  obtain ⟨⟨body, last, rfl, hlast, hlexical⟩, -⟩ := scanText_tokens hscan
  have hbody : ∀ t ∈ body, t.kind ≠ .endMark := fun t ht => (hlexical t ht).kind_ne_endMark
  obtain ⟨tree, rfl, -, hemit⟩ := run_eq_ok hbody hlast hrun
  have hbefore : beforeEnd (tree.tokens ++ [last]) = tree.tokens :=
    beforeEnd_of_tree tree (show ([last].headD last).kind = .endMark from hlast)
  refine ⟨tree, fun tree' => ?_, ?_, ?_⟩
  · rw [hbefore]
    exact ⟨ProgramTree.eq_of_tokens, congrArg Tree.tokens⟩
  · rw [tree.exec_emitter hemit]
    rfl
  · have hstart : Emitter.IsWritable {} := ⟨by simp, by simp⟩
    exact (Emitter.keeps_forM_handle tree.events hstart hemit).1.instructions

/-- **Only constant sums and a lack of registers keep a program from being
    lowered.**  If the front end accepts a text, its tokens have exactly one
    tree.  Lowering the instructions gives a listing, or it runs out of
    registers, or it meets an addition of two constants.

    * The last can only happen if there is a sum of two constants, which may be
      in parentheses, in one of the statements up to the first return;
    * if there is such a sum there is no listing;
    * the number of every register that a line can have stands for it. -/
theorem lowering_refuses_only_constant_sums (loadRight : Bool) (source : String)
    (tokens : List Token) (symbols : Symbols) (f : FrontEnd)
    (hscan : scanText source = .ok (tokens, symbols))
    (hrun : FrontEnd.run tokens symbols = (.ok (), f)) :
    let outcome := assemble loadRight f.emitter.instructions
    ∃ tree : ProgramTree, (∀ tree' : ProgramTree, tree'.tokens = beforeEnd tokens ↔ tree' = tree) ∧
      ((∃ text, outcome = .ok text) ∨ (∃ e, outcome = .error (.exhausted e)) ∨
        outcome = .error .bothImmediate) ∧
      (outcome = .error .bothImmediate → ∃ s ∈ tree.reachedStatements, s.addsConstants = true) ∧
      ((∃ s ∈ tree.reachedStatements, s.addsConstants = true) → ∀ text, outcome ≠ .ok text) ∧
      ∀ r : Register, Register.ofNumber r.number = .ok r := by
  intro outcome
  obtain ⟨tree, honly, hcode, hwritable⟩ := FrontEnd.exists_only_tree hscan hrun
  have hsums : (∃ s ∈ tree.reachedStatements, s.addsConstants = true) ↔
      (reached f.emitter.instructions).any Instruction.addsConstants = true := by
    rw [hcode, Program.any_reached_translate, ← ProgramTree.any_reachedStatements,
      List.any_eq_true]
  have hverdict : Lowering.Verdict f.emitter.instructions
      (lower loadRight f.emitter.instructions).1 :=
    Lowering.verdict_lowerFrom
      (fun i hi => ⟨Program.isEmitted_translate (hcode ▸ hi), hwritable i hi⟩) 0 _
  have hregisters : ∀ r : Register, Register.ofNumber r.number = .ok r := by
    intro r
    rw [Register.ofNumber, r.ofNumber?_number]
  refine ⟨tree, honly, ?_⟩
  simp only [outcome, assemble, hsums]
  rcases hlower : lower loadRight f.emitter.instructions with ⟨out, l⟩
  rw [hlower] at hverdict
  cases hverdict with
  | lowered hnone =>
    refine ⟨.inl ⟨_, rfl⟩, ?_, ?_, hregisters⟩
    · intro h
      cases h
    · intro hsome
      rw [hnone] at hsome
      cases hsome
  | exhausted e =>
    refine ⟨.inr (.inl ⟨e, rfl⟩), ?_, ?_, hregisters⟩
    · intro h
      cases h
    · intro _ text h
      cases h
  | refused hsome =>
    refine ⟨.inr (.inr rfl), fun _ => hsome, ?_, hregisters⟩
    intro _ text h
    cases h

/-- The sum is in parentheses, and so are its constants.  The differences
    before it have a constant on each side too, and the sum behind the return
    does not matter. -/
theorem lowering_refuses_only_constant_sums_parentheses :
    let source := "int a; a = 7 - 2 - 3; return a * ((4) + ((5))); a = 1 + 1;"
    ∃ tokens symbols f, scanText source = .ok (tokens, symbols) ∧
      FrontEnd.run tokens symbols = (.ok (), f) ∧
      assemble true f.emitter.instructions = .error .bothImmediate ∧
      ∃ tree : ProgramTree, tree.tokens = beforeEnd tokens ∧
        ∃ s ∈ tree.reachedStatements, s.addsConstants = true := by
  intro source
  have hcompiled : (scanText source).toOption.map (fun found =>
      let run := FrontEnd.run found.1 found.2
      (run.1, assemble true run.2.emitter.instructions)) =
        some (.ok (), .error .bothImmediate) := by
    decide +kernel
  rcases hscan : scanText source with e | ⟨tokens, symbols⟩
  · rw [hscan] at hcompiled
    cases hcompiled
  rcases hrun : FrontEnd.run tokens symbols with ⟨out, f⟩
  simp only [hscan, hrun, Except.toOption, Option.map_some, Option.some.injEq, Prod.mk.injEq]
    at hcompiled
  obtain ⟨rfl, houtcome⟩ := hcompiled
  obtain ⟨tree, honly, -, hsums, -⟩ :=
    lowering_refuses_only_constant_sums true source tokens symbols f hscan hrun
  exact ⟨tokens, symbols, f, rfl, hrun, houtcome, tree, (honly tree).2 rfl, hsums houtcome⟩

end Straightline
