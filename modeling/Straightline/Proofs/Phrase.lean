/-
  Programs and what they mean.

  The tree of a program says how its tokens group into expressions and
  statements.  Statements are run from left to right on the values of
  variables, up to the first return.

  * `Expr`, `Statement`: what the tree of a program stands for;
  * `Expr.value`, `Program.value`: the meaning of expressions and programs;
  * `Program.readsFirst`: whether a program reads a variable before it assigns
    it; no other variable's value at the start matters (`Program.value_congr`);
  * `Tree.phrase`: from trees to expressions, statements and programs.
-/
import Straightline.Text.Decimal
import Straightline.Proofs.Tree
import Straightline.Proofs.Execution

namespace Straightline

open Assembly (Operation)

/-! ## Expressions -/

/-- An expression. -/
inductive Expr where
  | name (x : String)
  | constant (value : Int)
  | operation (op : Operation) (lhs rhs : Expr)
  deriving DecidableEq, Repr

namespace Expr

/-- The value of an expression. -/
def value (env : Environment) : Expr → Int
  | name x => env x
  | constant value => value
  | operation op lhs rhs => op.apply (lhs.value env) (rhs.value env)

/-- Whether an expression reads a variable. -/
def reads (x : String) : Expr → Bool
  | name y => y = x
  | constant _ => false
  | operation _ lhs rhs => lhs.reads x || rhs.reads x

theorem value_congr {env env' : Environment} {e : Expr}
    (h : ∀ x, e.reads x = true → env x = env' x) : e.value env = e.value env' := by
  induction e with
  | name x => exact h x (by simp [reads])
  | constant value => rfl
  | operation op lhs rhs ihl ihr =>
    have hl := ihl fun x hx => h x (by simp [reads, hx])
    have hr := ihr fun x hx => h x (by simp [reads, hx])
    rw [value, value, hl, hr]

end Expr

/-! ## Programs -/

/-- A statement. -/
inductive Statement where
  | declare (x : String)
  | assign (x : String) (e : Expr)
  | ret (e : Expr)
  deriving DecidableEq, Repr

/-- Whether a statement assigns or reads a variable. -/
def Statement.uses (x : String) : Statement → Bool
  | .declare _ => false
  | .assign y e => y = x || e.reads x
  | .ret e => e.reads x

/-- A program: its statements in order. -/
abbrev Program := List Statement

namespace Program

/-- The value of the first return's expression. -/
def value : Program → Environment → Option Int
  | [], _ => none
  | .declare _ :: rest, env => value rest env
  | .assign x e :: rest, env => value rest (Function.update env x (e.value env))
  | .ret e :: _, env => some (e.value env)

/-- Whether a program assigns or reads a variable. -/
def uses (x : String) (p : Program) : Bool :=
  p.any (Statement.uses x)

/-- The names that a program declares. -/
def declared : Program → List String
  | [] => []
  | .declare x :: rest => x :: declared rest
  | _ :: rest => declared rest

/-- Whether a program reads a variable, up to the first return, before it
    assigns it. -/
def readsFirst (x : String) : Program → Bool
  | [] => false
  | .declare _ :: rest => readsFirst x rest
  | .assign y e :: rest => e.reads x || (y ≠ x && readsFirst x rest)
  | .ret e :: _ => e.reads x

/-- **Only what is read first matters** of the values at the start. -/
theorem value_congr {p : Program} {env env' : Environment}
    (h : ∀ x, readsFirst x p = true → env x = env' x) : value p env = value p env' := by
  induction p generalizing env env' with
  | nil => rfl
  | cons s rest ih =>
    cases s with
    | declare y => exact ih h
    | assign y e =>
      have he : e.value env = e.value env' :=
        Expr.value_congr fun x hx => h x (by simp [readsFirst, hx])
      rw [value, value, he]
      refine ih fun x hx => ?_
      by_cases hxy : x = y
      · rw [hxy, Function.update_self, Function.update_self]
      · rw [Function.update_of_ne hxy, Function.update_of_ne hxy]
        exact h x (by simp [readsFirst, hx, Ne.symm hxy])
    | ret e => exact congrArg some (Expr.value_congr h)

end Program

/-! ## Phrases -/

/-- What a symbol stands for. -/
def Symbol.Phrase : Symbol → Type
  | .terminal _ => Token
  | .nonterminal .goal | .nonterminal .program | .nonterminal .statements => Program
  | .nonterminal .statement => Statement
  | .nonterminal .typeName => Unit
  | .nonterminal .expression | .nonterminal .term | .nonterminal .factor => Expr

/-- What the symbols of a list stand for. -/
def Phrases : List Symbol → Type
  | [] => Unit
  | x :: xs => x.Phrase × Phrases xs

/-- What a production makes of the phrases of its body. -/
def Production.build : (p : Production) → Phrases p.body → Symbol.Phrase (.nonterminal p.head)
  | .program, (statements, _) => statements
  | .statementsMore, (statement, _, statements, _) => List.cons statement statements
  | .statementsLast, (statement, _, _) => List.cons statement []
  | .declaration, (_, name, _) => Statement.declare name.value
  | .intType, _ => ()
  | .assignment, (name, _, e, _) => Statement.assign name.value e
  | .returnValue, (_, e, _) => Statement.ret e
  | .add, (lhs, _, rhs, _) => Expr.operation .add lhs rhs
  | .sub, (lhs, _, rhs, _) => Expr.operation .sub lhs rhs
  | .expressionTerm, (e, _) => e
  | .mul, (lhs, _, rhs, _) => Expr.operation .mul lhs rhs
  | .termFactor, (e, _) => e
  | .parentheses, (_, e, _, _) => e
  | .factorName, (name, _) => Expr.name name.value
  | .factorConstant, (digits, _) => Expr.constant (Text.decimalValue digits.value.toList)

mutual

/-- What a tree stands for. -/
def Tree.phrase {x : Symbol} : Tree x → x.Phrase
  | .leaf token => token
  | .node p children => p.build children.phrases

/-- What the trees of a forest stand for. -/
def Forest.phrases {xs : List Symbol} : Forest xs → Phrases xs
  | .nil => ()
  | .cons tree others => (tree.phrase, others.phrases)

end

/-- The program that a tree stands for. -/
def ProgramTree.program (tree : ProgramTree) : Program :=
  tree.phrase

/-! ## Phrases and tokens -/

/-- Whether a variable is read or assigned in a phrase. -/
def Symbol.Uses (x : String) : (s : Symbol) → s.Phrase → Prop
  | .terminal kind, token => kind = .identifier ∧ Token.value token = x
  | .nonterminal .goal, p | .nonterminal .program, p | .nonterminal .statements, p =>
    Program.uses x p = true
  | .nonterminal .statement, s => Statement.uses x s = true
  | .nonterminal .typeName, _ => False
  | .nonterminal .expression, e | .nonterminal .term, e | .nonterminal .factor, e =>
    Expr.reads x e = true

@[inherit_doc Symbol.Uses]
def Phrases.Uses (x : String) : (xs : List Symbol) → Phrases xs → Prop
  | [], _ => False
  | s :: xs, (phrase, others) => s.Uses x phrase ∨ Phrases.Uses x xs others

theorem Production.uses_build {x : String} : ∀ (p : Production) (phrases : Phrases p.body),
    Symbol.Uses x (.nonterminal p.head) (p.build phrases) → Phrases.Uses x p.body phrases
  | .program, (_, _), h => .inl h
  | .statementsMore, (_, _, _, _), h => (Bool.or_eq_true_iff.1 h).imp_right fun h => .inr (.inl h)
  | .statementsLast, (_, _, _), h => (Bool.or_eq_true_iff.1 h).imp_right nofun
  | .assignment, (_, _, _, _), h =>
    (Bool.or_eq_true_iff.1 h).imp (fun h => ⟨rfl, of_decide_eq_true h⟩) fun h => .inr (.inl h)
  | .returnValue, (_, _, _), h => .inr (.inl h)
  | .add, (_, _, _, _), h | .sub, (_, _, _, _), h | .mul, (_, _, _, _), h =>
    (Bool.or_eq_true_iff.1 h).imp_right fun h => .inr (.inl h)
  | .expressionTerm, (_, _), h | .termFactor, (_, _), h => .inl h
  | .parentheses, (_, _, _, _), h => .inr (.inl h)
  | .factorName, (_, _), h => .inl ⟨rfl, of_decide_eq_true h⟩
  | .declaration, _, h | .intType, _, h | .factorConstant, _, h => by cases h

mutual

/-- A variable that is used has an identifier among the tokens. -/
theorem Tree.exists_identifier_of_uses {x : String} {s : Symbol} : ∀ t : Tree s,
    s.Uses x t.phrase → ∃ token ∈ t.tokens, token.kind = .identifier ∧ token.value = x
  | .leaf token, h => ⟨token, List.mem_singleton_self token, h⟩
  | .node p children, h => children.exists_identifier_of_uses (p.uses_build _ h)

@[inherit_doc Tree.exists_identifier_of_uses]
theorem Forest.exists_identifier_of_uses {x : String} {xs : List Symbol} : ∀ f : Forest xs,
    Phrases.Uses x xs f.phrases → ∃ token ∈ f.tokens, token.kind = .identifier ∧ token.value = x
  | .nil, h => nomatch h
  | .cons tree others, h => by
    rcases h with h | h
    · obtain ⟨token, hmem, htoken⟩ := tree.exists_identifier_of_uses h
      exact ⟨token, List.mem_append_left _ hmem, htoken⟩
    · obtain ⟨token, hmem, htoken⟩ := others.exists_identifier_of_uses h
      exact ⟨token, List.mem_append_right _ hmem, htoken⟩

end

/-- Whether a phrase returns. -/
def Symbol.Returns : (s : Symbol) → s.Phrase → Prop
  | .terminal kind, _ => kind = .returnWord
  | .nonterminal .goal, p | .nonterminal .program, p | .nonterminal .statements, p =>
    ∃ e, Statement.ret e ∈ show Program from p
  | .nonterminal .statement, s => ∃ e, s = Statement.ret e
  | .nonterminal .typeName, _ | .nonterminal .expression, _ | .nonterminal .term, _
  | .nonterminal .factor, _ => False

@[inherit_doc Symbol.Returns]
def Phrases.Returns : (xs : List Symbol) → Phrases xs → Prop
  | [], _ => False
  | s :: xs, (phrase, others) => s.Returns phrase ∨ Phrases.Returns xs others

theorem Production.returns_build : ∀ (p : Production) (phrases : Phrases p.body),
    Phrases.Returns p.body phrases → Symbol.Returns (.nonterminal p.head) (p.build phrases)
  | .program, (_, _), h => h.resolve_right id
  | .statementsMore, (_, _, _, _), h => by
    rcases h with ⟨e, rfl⟩ | h | ⟨e, he⟩ | h
    · exact ⟨e, List.mem_cons_self⟩
    · cases h
    · exact ⟨e, List.mem_cons_of_mem _ he⟩
    · cases h
  | .statementsLast, (_, _, _), h => by
    rcases h with ⟨e, rfl⟩ | h | h
    · exact ⟨e, List.mem_cons_self⟩
    · cases h
    · cases h
  | .returnValue, (_, e, _), _ => ⟨e, rfl⟩
  | .declaration, _, h => by rcases h with h | h | h <;> cases h
  | .intType, _, h => by rcases h with h | h <;> cases h
  | .assignment, _, h => by rcases h with h | h | h | h <;> cases h
  | .add, _, h | .sub, _, h | .mul, _, h | .parentheses, _, h => by
    rcases h with h | h | h | h <;> cases h
  | .expressionTerm, _, h | .termFactor, _, h | .factorName, _, h | .factorConstant, _, h => by
    rcases h with h | h <;> cases h

mutual

/-- Where the word `return` is among the tokens, the phrase returns. -/
theorem Tree.returns_of_mem {s : Symbol} {token : Token} (hkind : token.kind = .returnWord) :
    ∀ t : Tree s, token ∈ t.tokens → s.Returns t.phrase
  | .leaf token', h => by
    cases List.mem_singleton.1 h
    exact hkind
  | .node p children, h => p.returns_build _ (children.returns_of_mem hkind h)

@[inherit_doc Tree.returns_of_mem]
theorem Forest.returns_of_mem {xs : List Symbol} {token : Token} (hkind : token.kind = .returnWord) :
    ∀ f : Forest xs, token ∈ f.tokens → Phrases.Returns xs f.phrases
  | .nil, h => nomatch h
  | .cons tree others, h =>
    (List.mem_append.1 h).imp (tree.returns_of_mem hkind) (others.returns_of_mem hkind)

end

end Straightline
