/-
  The names in a text, in the order in which they are checked.

  Statements are checked from left to right.  A declaration is checked for its
  name, a return for the names in it from left to right, and an assignment for
  those on its right-hand side, from left to right, and then for its target.
  All this can be read off the tokens; that the reductions of a run meet the
  names in the same order is a fact about trees.

  * `Occurrence.ofTokens`: the names in some tokens, in this order;
  * `Occurrence.IsFaulty`: a name is declared again, or used undeclared;
  * `Occurrence.exists_firstFault`: if there are faults, there is a first one;
  * `Tree.occurrences`: the names in the post-order of a tree;
  * `ProgramTree.occurrences_eq`: for a program, this order is the other one.
-/
import Mathlib.Data.List.Induction
import Straightline.Declarations
import Straightline.Proofs.Phrase

namespace Straightline

/-- The identifiers among some tokens. -/
def identifiers (tokens : List Token) : List Token :=
  tokens.filter (·.kind = .identifier)

@[simp] theorem identifiers_nil : identifiers [] = [] :=
  rfl

theorem identifiers_cons (token : Token) (rest : List Token) : identifiers (token :: rest) =
    if token.kind = .identifier then token :: identifiers rest else identifiers rest := by
  simp [identifiers, List.filter_cons]

@[simp] theorem identifiers_append (front back : List Token) :
    identifiers (front ++ back) = identifiers front ++ identifiers back :=
  List.filter_append front back

/-- A name in a text: declared, or else in use. -/
inductive Occurrence where
  | declares (name : Token)
  | uses (name : Token)
  deriving DecidableEq, Repr

namespace Occurrence

/-- The token of the name. -/
def name : Occurrence → Token
  | declares name | uses name => name

/-- The names in a statement; the target of an assignment comes last. -/
def ofStatement : List Token → List Occurrence
  | [] => []
  | first :: rest =>
    match first.kind with
    | .intWord => (identifiers rest).map declares
    | .identifier => (identifiers rest).map uses ++ [uses first]
    | _ => (identifiers rest).map uses

/-- The names in some statements, each of which a semicolon ends. -/
def ofTokens (tokens : List Token) : List Occurrence :=
  (tokens.splitOnP (·.kind = .semicolon)).flatMap ofStatement

theorem exists_mem_ofStatement {tokens : List Token} {token : Token} :
    (∃ o ∈ ofStatement tokens, o.name = token) ↔ token ∈ identifiers tokens := by
  cases tokens with
  | nil => simp [ofStatement]
  | cons first rest =>
    rw [ofStatement]
    split
    · next hkind => simp [identifiers_cons, name, hkind]
    · next hkind => simp [identifiers_cons, name, hkind, or_comm, eq_comm]
    · next hname => simp [identifiers_cons, name, if_neg hname]

/-- What is no separator is in one of the parts. -/
theorem exists_mem_splitOnP {α : Type} {p : α → Bool} {a : α} (ha : p a = false) (xs : List α) :
    (∃ part ∈ xs.splitOnP p, a ∈ part) ↔ a ∈ xs := by
  induction xs with
  | nil => simp
  | cons x xs ih =>
    rw [List.splitOnP_cons_eq_if_modifyHead]
    split
    · next hx =>
      have hne : a ≠ x := by
        rintro rfl
        simp [hx] at ha
      simp [ih, hne]
    · obtain ⟨first, parts, hparts⟩ := List.exists_cons_of_ne_nil (List.splitOnP_ne_nil p xs)
      rw [hparts] at ih ⊢
      simp only [List.modifyHead_cons, List.mem_cons, exists_eq_or_imp] at ih ⊢
      rw [or_assoc, ih]

/-- Every identifier occurs, and nothing else does. -/
theorem exists_mem_ofTokens {tokens : List Token} {token : Token} :
    (∃ o ∈ ofTokens tokens, o.name = token) ↔ token ∈ identifiers tokens := by
  have hparts : (∃ o ∈ ofTokens tokens, o.name = token) ↔
      ∃ part ∈ tokens.splitOnP (·.kind = .semicolon), token ∈ identifiers part := by
    simp only [← exists_mem_ofStatement, ofTokens, List.mem_flatMap]
    grind
  rw [hparts]
  simp only [identifiers, List.mem_filter, decide_eq_true_eq, ← and_assoc, exists_and_right]
  refine and_congr_left fun hkind => ?_
  exact exists_mem_splitOnP (by simp [hkind]) tokens

theorem mem_map_value_identifiers {tokens : List Token} {x : String} :
    x ∈ (identifiers tokens).map Token.value ↔ ∃ o ∈ ofTokens tokens, o.name.value = x := by
  simp only [List.mem_map, ← exists_mem_ofTokens]
  constructor
  · rintro ⟨_, ⟨o, ho, rfl⟩, rfl⟩
    exact ⟨o, ho, rfl⟩
  · rintro ⟨o, ho, rfl⟩
    exact ⟨o.name, ⟨o, ho, rfl⟩, rfl⟩

theorem ofTokens_append {front : List Token} {semicolon : Token}
    (hfront : ∀ token ∈ front, token.kind ≠ .semicolon) (hkind : semicolon.kind = .semicolon)
    (rest : List Token) :
    ofTokens (front ++ semicolon :: rest) = ofStatement front ++ ofTokens rest := by
  rw [ofTokens, List.splitOnP_append_cons_of_forall_mem (by simpa using hfront) _ (by simp [hkind])]
  rfl

/-! ## Faults -/

/-- The names that are declared. -/
def declared (occurrences : List Occurrence) : List String :=
  occurrences.filterMap fun
    | declares name => some name.value
    | uses _ => none

theorem declared_append (front back : List Occurrence) :
    declared (front ++ back) = declared front ++ declared back :=
  List.filterMap_append

/-- A declaration is at fault if its name has been declared before, a use if
    it has not. -/
def IsFaulty (before : List Occurrence) : Occurrence → Prop
  | declares name => name.value ∈ declared before
  | uses name => name.value ∉ declared before

instance (before : List Occurrence) (o : Occurrence) : Decidable (o.IsFaulty before) :=
  match o with
  | declares _ => inferInstanceAs (Decidable (_ ∈ _))
  | uses _ => inferInstanceAs (Decidable (_ ∉ _))

/-- None is at fault after those before it. -/
def FaultFree (occurrences : List Occurrence) : Prop :=
  ∀ before o after, occurrences = before ++ o :: after → ¬ o.IsFaulty before

/-- This one is at fault, and none before it is. -/
def FirstFault (occurrences : List Occurrence) (o : Occurrence) : Prop :=
  ∃ before after, occurrences = before ++ o :: after ∧ o.IsFaulty before ∧ FaultFree before

theorem faultFree_nil : FaultFree [] := by
  intro before o after heq
  simp at heq

theorem faultFree_concat {occurrences : List Occurrence} {o : Occurrence} :
    FaultFree (occurrences ++ [o]) ↔ FaultFree occurrences ∧ ¬ o.IsFaulty occurrences := by
  constructor
  · intro h
    refine ⟨fun before o' after heq => ?_, h occurrences o [] rfl⟩
    exact h before o' (after ++ [o]) (by rw [heq, List.append_assoc, List.cons_append])
  · rintro ⟨hfree, ho⟩ before o' after heq
    rcases List.eq_nil_or_concat after with rfl | ⟨after', last, rfl⟩
    · obtain ⟨rfl, hlast⟩ := List.append_inj' heq rfl
      cases hlast
      exact ho
    · rw [List.concat_eq_append, ← List.cons_append, ← List.append_assoc] at heq
      exact hfree before o' after' (List.append_inj' heq rfl).1

theorem exists_firstFault {occurrences : List Occurrence} (h : ¬ FaultFree occurrences) :
    ∃ o, FirstFault occurrences o := by
  induction occurrences using List.reverseRecOn with
  | nil => exact absurd faultFree_nil h
  | append_singleton front last ih =>
    -- A fault further to the front comes before the last one.
    by_cases hfront : FaultFree front
    · have hlast : last.IsFaulty front := by
        by_contra hlast
        exact h (faultFree_concat.2 ⟨hfront, hlast⟩)
      exact ⟨last, front, [], rfl, hlast, hfront⟩
    · obtain ⟨o, before, after, rfl, ho, hbefore⟩ := ih hfront
      exact ⟨o, before, after ++ [last], by simp, ho, hbefore⟩

/-- Without faults, whatever is named is declared. -/
theorem FaultFree.mem_declared {occurrences : List Occurrence} (h : FaultFree occurrences)
    {o : Occurrence} (ho : o ∈ occurrences) : o.name.value ∈ declared occurrences := by
  obtain ⟨before, after, rfl⟩ := List.append_of_mem ho
  rw [declared_append, List.mem_append]
  cases o with
  | declares name => exact .inr List.mem_cons_self
  | uses name => exact .inl (not_not.1 (h before _ after rfl))

end Occurrence

/-! ## Trees -/

/-- The name that a reduction by a production checks. -/
def Production.occurrence? : (p : Production) → Phrases p.body → Option Occurrence
  | .declaration, (_, name, _) => some (.declares name)
  | .assignment, (name, _) | .factorName, (name, _) => some (.uses name)
  | _, _ => none

mutual

/-- The names that are checked in the post-order of a tree. -/
@[simp] def Tree.occurrences {x : Symbol} : Tree x → List Occurrence
  | .leaf _ => []
  | .node p children => children.occurrences ++ (p.occurrence? children.phrases).toList

@[simp, inherit_doc Tree.occurrences]
def Forest.occurrences {xs : List Symbol} : Forest xs → List Occurrence
  | .nil => []
  | .cons tree others => tree.occurrences ++ others.occurrences

end

/-! ## Trees and tokens -/

/-- A symbol that no semicolon is part of. -/
def Symbol.WithinStatement (x : Symbol) : Prop :=
  x ∉ [.terminal .semicolon, .nonterminal .goal, .nonterminal .program, .nonterminal .statements]

instance (x : Symbol) : Decidable x.WithinStatement :=
  inferInstanceAs (Decidable (_ ∉ _))

theorem Production.withinStatement_body {p : Production}
    (h : Symbol.WithinStatement (.nonterminal p.head)) : ∀ x ∈ p.body, x.WithinStatement := by
  cases p <;> revert h <;> decide

mutual

theorem Tree.kind_ne_semicolon {x : Symbol} : ∀ t : Tree x, x.WithinStatement →
    ∀ token ∈ t.tokens, token.kind ≠ .semicolon
  | .leaf token, hx, _, h => by
    rw [Tree.tokens, List.mem_singleton] at h
    rw [h]
    rintro hkind
    simp [Symbol.WithinStatement, hkind] at hx
  | .node p children, hx, token, h =>
    children.kind_ne_semicolon (Production.withinStatement_body hx) token h

theorem Forest.kind_ne_semicolon {xs : List Symbol} : ∀ f : Forest xs,
    (∀ x ∈ xs, x.WithinStatement) → ∀ token ∈ f.tokens, token.kind ≠ .semicolon
  | .nil, _, _, h => by cases h
  | .cons tree others, hxs, token, h => by
    rw [List.forall_mem_cons] at hxs
    rcases List.mem_append.1 h with h | h
    · exact tree.kind_ne_semicolon hxs.1 token h
    · exact others.kind_ne_semicolon hxs.2 token h

end

theorem Tree.terminal_cases {kind : Terminal} : ∀ t : Tree (.terminal kind),
    ∃ token : Token, token.kind = kind ∧ t.tokens = [token] ∧ t.phrase = token ∧
      t.occurrences = []
  | .leaf token => ⟨token, rfl, rfl, rfl, rfl⟩

theorem Tree.typeName_cases : ∀ {x : Symbol} (t : Tree x), x = .nonterminal .typeName →
    ∃ word : Token, word.kind = .intWord ∧ t.tokens = [word] ∧ t.occurrences = []
  | _, .node .intType (.cons word .nil), _ => by
    obtain ⟨token, hkind, htokens, -, hnone⟩ := word.terminal_cases
    refine ⟨token, hkind, ?_, ?_⟩
    · simp [Tree.tokens, Forest.tokens, htokens]
    · simp [Production.occurrence?, hnone]

/-- The names in an expression, from left to right. -/
theorem Tree.occurrences_expression : ∀ {x : Symbol} (t : Tree x),
    x = .nonterminal .expression ∨ x = .nonterminal .term ∨ x = .nonterminal .factor →
      t.occurrences = (identifiers t.tokens).map .uses
  | _, .node .add (.cons lhs (.cons sign (.cons rhs .nil))), _
  | _, .node .sub (.cons lhs (.cons sign (.cons rhs .nil))), _
  | _, .node .mul (.cons lhs (.cons sign (.cons rhs .nil))), _ => by
    obtain ⟨token, hkind, htokens, -, hnone⟩ := sign.terminal_cases
    have hlhs := lhs.occurrences_expression (by decide)
    have hrhs := rhs.occurrences_expression (by decide)
    simp [Production.occurrence?, Tree.tokens, Forest.tokens, identifiers_cons, hlhs, hrhs, hkind,
      htokens, hnone]
  | _, .node .expressionTerm (.cons t .nil), _ | _, .node .termFactor (.cons t .nil), _ => by
    have ht := t.occurrences_expression (by decide)
    simp [Production.occurrence?, Tree.tokens, Forest.tokens, ht]
  | _, .node .parentheses (.cons left (.cons t (.cons right .nil))), _ => by
    obtain ⟨token, hkind, htokens, -, hnone⟩ := left.terminal_cases
    obtain ⟨token', hkind', htokens', -, hnone'⟩ := right.terminal_cases
    have ht := t.occurrences_expression (by decide)
    simp [Production.occurrence?, Tree.tokens, Forest.tokens, identifiers_cons, ht, hkind, htokens,
      hnone, hkind', htokens', hnone']
  | _, .node .factorName (.cons name .nil), _ => by
    obtain ⟨token, hkind, htokens, hphrase, hnone⟩ := name.terminal_cases
    simp [Production.occurrence?, Tree.tokens, Forest.tokens, Forest.phrases, identifiers_cons,
      hkind, htokens, hphrase, hnone]
  | _, .node .factorConstant (.cons digits .nil), _ => by
    obtain ⟨token, hkind, htokens, -, hnone⟩ := digits.terminal_cases
    simp [Production.occurrence?, Tree.tokens, Forest.tokens, identifiers_cons, hkind, htokens,
      hnone]
  | _, .leaf _, h | _, .node .program _, h | _, .node .statementsMore _, h
  | _, .node .statementsLast _, h | _, .node .declaration _, h | _, .node .intType _, h
  | _, .node .assignment _, h | _, .node .returnValue _, h => by
    rcases h with h | h | h <;> cases h

open Occurrence in
theorem Tree.occurrences_statement : ∀ {x : Symbol} (t : Tree x), x = .nonterminal .statement →
    t.occurrences = ofStatement t.tokens
  | _, .node .declaration (.cons type (.cons name .nil)), _ => by
    obtain ⟨word, hword, hwords, hnone⟩ := type.typeName_cases rfl
    obtain ⟨token, hkind, htokens, hphrase, hnone'⟩ := name.terminal_cases
    simp [Production.occurrence?, Tree.tokens, Forest.tokens, Forest.phrases, ofStatement,
      identifiers_cons, hword, hwords, hnone, hkind, htokens, hphrase, hnone']
  | _, .node .assignment (.cons name (.cons sign (.cons e .nil))), _ => by
    obtain ⟨token, hkind, htokens, hphrase, hnone⟩ := name.terminal_cases
    obtain ⟨token', hkind', htokens', -, hnone'⟩ := sign.terminal_cases
    have he := e.occurrences_expression (.inl rfl)
    simp [Production.occurrence?, Tree.tokens, Forest.tokens, Forest.phrases, ofStatement,
      identifiers_cons, hkind, htokens, hphrase, hnone, hkind', htokens', hnone', he]
  | _, .node .returnValue (.cons word (.cons e .nil)), _ => by
    obtain ⟨token, hkind, htokens, -, hnone⟩ := word.terminal_cases
    have he := e.occurrences_expression (.inl rfl)
    simp [Production.occurrence?, Tree.tokens, Forest.tokens, ofStatement, hkind, htokens, hnone,
      he]

open Occurrence in
theorem Tree.ofTokens_statements : ∀ {x : Symbol} (t : Tree x), x = .nonterminal .statements →
    ∀ rest, ofTokens (t.tokens ++ rest) = t.occurrences ++ ofTokens rest
  | _, .node .statementsMore (.cons s (.cons semicolon (.cons others .nil))), _, rest => by
    obtain ⟨token, hkind, htokens, -, hnone⟩ := semicolon.terminal_cases
    have hs := s.occurrences_statement rfl
    have hothers := others.ofTokens_statements rfl rest
    have hsplit := ofTokens_append (s.kind_ne_semicolon (by decide)) hkind (others.tokens ++ rest)
    simp [Production.occurrence?, Tree.tokens, Forest.tokens, htokens, hnone, hs, hothers, hsplit]
  | _, .node .statementsLast (.cons s (.cons semicolon .nil)), _, rest => by
    obtain ⟨token, hkind, htokens, -, hnone⟩ := semicolon.terminal_cases
    have hs := s.occurrences_statement rfl
    have hsplit := ofTokens_append (s.kind_ne_semicolon (by decide)) hkind rest
    simp [Production.occurrence?, Tree.tokens, Forest.tokens, htokens, hnone, hs, hsplit]

/-- **The names in a program** are met in the order of its tokens. -/
theorem ProgramTree.occurrences_eq (tree : ProgramTree) {last : Token}
    (hlast : last.kind = .endMark) :
    tree.occurrences = Occurrence.ofTokens (tree.tokens ++ [last]) := by
  have hend : Occurrence.ofTokens [last] = [] := by
    simp [Occurrence.ofTokens, List.splitOnP_cons_eq_if_modifyHead, Occurrence.ofStatement, hlast]
  have hprogram : ∀ {x : Symbol} (t : Tree x), x = .nonterminal .program →
      Occurrence.ofTokens (t.tokens ++ [last]) = t.occurrences
    | _, .node .program (.cons statements .nil), _ => by
      have hstatements := statements.ofTokens_statements rfl [last]
      simp [Production.occurrence?, Tree.tokens, Forest.tokens, hstatements, hend]
  exact (hprogram tree rfl).symm

end Straightline
