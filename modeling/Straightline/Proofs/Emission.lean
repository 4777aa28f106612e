/-
  The emitter follows the tree.

  Over the post-order of a tree the emitter adds the instructions for what the
  tree stands for, and puts one slot on its stack: the operand with the value
  of an expression, or a placeholder.

  * `Symbol.emitted`: the emitter behind a phrase;
  * `Emitter.exec_reduceBy`: a reduction, case by case;
  * `Tree.exec_emitter`: the actions of a whole tree.
-/
import Straightline.Emitter
import Straightline.Proofs.Translation

namespace Straightline

/-! ## Emissions -/

/-- The slot for a token of a given kind. -/
def Terminal.slot (kind : Terminal) (token : Token) : Option Operand :=
  match kind with
  | .identifier => some (.var token.value)
  | .constant => some (.imm (Text.decimalValue token.value.toList))
  | _ => none

/-- The emitter behind a phrase: the instructions for the phrase are added, and
    its slot is on the stack. -/
def Symbol.emitted (e : Emitter) : (s : Symbol) → s.Phrase → Emitter
  | .terminal kind, token => ⟨e.instructions, e.temporaries, kind.slot token :: e.stack⟩
  | .nonterminal .goal, p | .nonterminal .program, p | .nonterminal .statements, p =>
    let (code, n) := Program.translate e.temporaries p
    ⟨e.instructions ++ code, n, none :: e.stack⟩
  | .nonterminal .statement, s =>
    let (code, n) := Statement.translate e.temporaries s
    ⟨e.instructions ++ code, n, none :: e.stack⟩
  | .nonterminal .typeName, _ => ⟨e.instructions, e.temporaries, none :: e.stack⟩
  | .nonterminal .expression, x | .nonterminal .term, x | .nonterminal .factor, x =>
    let value := Expr.translate e.temporaries x
    ⟨e.instructions ++ value.instructions, value.temporaries, some value.operand :: e.stack⟩

/-- The emitter behind several phrases. -/
def Phrases.emitted (e : Emitter) : (xs : List Symbol) → Phrases xs → Emitter
  | [], _ => e
  | s :: xs, (phrase, others) => emitted (s.emitted e phrase) xs others

/-! ## Single actions -/

theorem Text.readDecimal_eq_ok {text : String} {value : Nat} (h : readDecimal text = .ok value) :
    value = decimalValue text.toList := by
  simp only [readDecimal] at h
  repeat' split at h
  all_goals cases h
  rfl

/-- Digits are read unless they are too many. -/
theorem Text.readDecimal_eq_error {text : String} {d : DecimalError}
    (htext : isDecimal text.toList = true) (h : readDecimal text = .error d) :
    d = .tooLong text.toList.length ∧ digitLimit < text.toList.length := by
  simp only [readDecimal, htext, Bool.not_true, Bool.false_eq_true, if_false] at h
  split at h
  · next hlength =>
    cases h
    exact ⟨rfl, hlength⟩
  · cases h

namespace Emitter

/-- A reduction puts the slot of the head in place of those of the body. -/
theorem exec_reduceBy (e : Emitter) : ∀ (p : Production) (phrases : Phrases p.body),
    (reduceBy p).exec (Phrases.emitted e p.body phrases) =
      (.ok (), Symbol.emitted e (.nonterminal p.head) (p.build phrases))
  | .program, (_, _) | .intType, (_, _) | .expressionTerm, (_, _) | .termFactor, (_, _)
  | .parentheses, (_, _, _, _) => rfl
  | .statementsMore, (_, _, _, _) | .assignment, (_, _, _, _) | .returnValue, (_, _, _) =>
    congrArg (fun code => (Except.ok (), Emitter.mk code _ _)) (List.append_assoc _ _ _)
  | .add, (_, _, _, _) | .sub, (_, _, _, _) | .mul, (_, _, _, _) =>
    congrArg (fun code => (Except.ok (), Emitter.mk code _ _))
      ((congrArg (· ++ _) (List.append_assoc _ _ _)).trans (List.append_assoc _ _ _))
  | .statementsLast, (_, _, _) =>
    congrArg (fun code => (Except.ok (), Emitter.mk (_ ++ code) _ _)) (List.append_nil _).symm
  | .declaration, (_, _, _) | .factorName, (_, _) | .factorConstant, (_, _) =>
    congrArg (fun code => (Except.ok (), Emitter.mk code _ _)) (List.append_nil _).symm

theorem slotFor_eq_ok {token : Token} {slot : Option Operand} (h : slotFor token = .ok slot) :
    slot = token.kind.slot token := by
  unfold slotFor at h
  rcases hkind : token.kind
  case constant =>
    rw [hkind] at h
    rcases hvalue : Text.readDecimal token.value with _ | value
    · simp [hvalue] at h
    · simp only [hvalue, Except.ok.injEq] at h
      rw [← h, Text.readDecimal_eq_ok hvalue, Terminal.slot]
  case endMark =>
    rw [hkind] at h
    cases h
  all_goals
    rw [hkind] at h
    cases h
    rfl

theorem exec_shift {token : Token} {e e' : Emitter} {u : Unit}
    (h : (shift token).exec e = (.ok u, e')) :
    e' = ⟨e.instructions, e.temporaries, token.kind.slot token :: e.stack⟩ := by
  unfold shift at h
  split at h
  · next slot hslot =>
    cases h
    rw [slotFor_eq_ok hslot]
  · cases h

end Emitter

/-! ## Trees -/

mutual

/-- **The emitter follows the tree**: it adds the instructions for the phrase
    and puts its slot on the stack. -/
theorem Tree.exec_emitter {s : Symbol} : ∀ (t : Tree s) {e e' : Emitter} {u : Unit},
    (forM t.events Emitter.handle).exec e = (.ok u, e') → e' = s.emitted e t.phrase
  | .leaf token, e, e', u, h => by
    obtain ⟨_, e₁, hshift, hdone⟩ := Attempt.exec_bind_eq_ok h
    cases hdone
    exact Emitter.exec_shift hshift
  | .node p children, e, e', u, h => by
    rw [Tree.events, List.forM_append] at h
    obtain ⟨_, e₁, hchildren, h⟩ := Attempt.exec_bind_eq_ok h
    cases children.exec_emitter hchildren
    obtain ⟨_, e₂, hreduce, hdone⟩ := Attempt.exec_bind_eq_ok h
    cases hdone
    cases hreduce.symm.trans (Emitter.exec_reduceBy e p children.phrases)
    rfl

@[inherit_doc Tree.exec_emitter]
theorem Forest.exec_emitter {xs : List Symbol} : ∀ (f : Forest xs) {e e' : Emitter} {u : Unit},
    (forM f.events Emitter.handle).exec e = (.ok u, e') → e' = Phrases.emitted e xs f.phrases
  | .nil, e, e', u, h => by
    cases h
    rfl
  | .cons tree others, e, e', u, h => by
    rw [Forest.events, List.forM_append] at h
    obtain ⟨_, e₁, htree, h⟩ := Attempt.exec_bind_eq_ok h
    cases tree.exec_emitter htree
    exact others.exec_emitter h

end

end Straightline
