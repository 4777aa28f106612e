/-
  Rightmost derivations.

  A rightmost derivation starts from the goal and always expands the last
  nonterminal of a form.  What stands before a nonterminal in the forms that
  it reaches is put together from the beginnings of bodies, one for each rule
  on the way from the goal down to that nonterminal.

  * `RightYields`, `RightDerives`: rewriting of the last nonterminal, by the
    rules;
  * `IsRightSentential`: the forms that the goal derives in this way;
  * `Symbol.exists_tree`: every symbol but the goal has a tree;
  * `Expects`: what can stand before a nonterminal, rule by rule, which is the
    same as before it in a form (`expects_iff`);
  * `IsRightSentential.derives_of_rightYields`: behind the goal come forms that
    the program symbol derives.
-/
import Straightline.Proofs.Lookahead

namespace Straightline

/-! ## Rewriting the last nonterminal -/

/-- One step of rightmost rewriting: a rule replaces its head, behind which
    there are only terminals, by its body. -/
def RightYields (before after : List Symbol) : Prop :=
  ∃ (r : Rule) (left : List Symbol) (right : List Terminal),
    before = left ++ .nonterminal r.head :: right.map .terminal ∧
      after = left ++ r.body ++ right.map .terminal

/-- Any number of steps of rightmost rewriting. -/
def RightDerives : List Symbol → List Symbol → Prop :=
  Relation.ReflTransGen RightYields

/-- Whether the goal derives a form by rightmost rewriting. -/
def IsRightSentential (form : List Symbol) : Prop :=
  RightDerives [.nonterminal .goal] form

theorem RightDerives.append_left {xs ys : List Symbol} (h : RightDerives xs ys)
    (front : List Symbol) : RightDerives (front ++ xs) (front ++ ys) := by
  refine Relation.ReflTransGen.lift (front ++ ·) ?_ _ _ h
  rintro _ _ ⟨r, left, right, rfl, rfl⟩
  exact ⟨r, front ++ left, right, by simp, by simp⟩

theorem RightDerives.append_right {xs ys : List Symbol} (h : RightDerives xs ys)
    (back : List Terminal) :
    RightDerives (xs ++ back.map .terminal) (ys ++ back.map .terminal) := by
  refine Relation.ReflTransGen.lift (· ++ back.map Symbol.terminal) ?_ _ _ h
  rintro _ _ ⟨r, left, right, rfl, rfl⟩
  exact ⟨r, left, right ++ back, by simp, by simp⟩

theorem symbolsOf_eq_map (tokens : List Token) :
    symbolsOf tokens = (tokens.map Token.kind).map .terminal := by
  rw [List.map_map]
  rfl

mutual

/-- A symbol derives the leaves of its trees, also by rightmost rewriting. -/
theorem Tree.rightDerives {x : Symbol} : ∀ t : Tree x, RightDerives [x] (symbolsOf t.tokens)
  | .leaf _ => .refl
  | .node p children =>
    .head ⟨.production p, [], [], rfl, by simp [Rule.body]⟩ children.rightDerives

@[inherit_doc Tree.rightDerives]
theorem Forest.rightDerives {xs : List Symbol} :
    ∀ f : Forest xs, RightDerives xs (symbolsOf f.tokens)
  | .nil => .refl
  | .cons (x := x) tree others => by
    -- The last nonterminal comes first, so the others go before the tree.
    have hothers := others.rightDerives.append_left [x]
    have htree := tree.rightDerives.append_right (others.tokens.map Token.kind)
    rw [← symbolsOf_eq_map, ← symbolsOf_append] at htree
    exact hothers.trans htree

end

/-! ## Trees for symbols -/

/-- A leaf of a given kind. -/
def Terminal.sample (kind : Terminal) : Tree (.terminal kind) :=
  .leaf ⟨kind, "", {}⟩

theorem Symbol.exists_tree {x : Symbol} (hx : x ≠ .nonterminal .goal) : Nonempty (Tree x) := by
  let factor : Tree (.nonterminal .factor) :=
    .node .factorConstant (.cons (Terminal.sample .constant) .nil)
  let term : Tree (.nonterminal .term) := .node .termFactor (.cons factor .nil)
  let expression : Tree (.nonterminal .expression) := .node .expressionTerm (.cons term .nil)
  let statement : Tree (.nonterminal .statement) :=
    .node .returnValue (.cons (Terminal.sample .returnWord) (.cons expression .nil))
  let statements : Tree (.nonterminal .statements) :=
    .node .statementsLast (.cons statement (.cons (Terminal.sample .semicolon) .nil))
  cases x with
  | terminal kind => exact ⟨kind.sample⟩
  | nonterminal n =>
    cases n with
    | goal => exact absurd rfl hx
    | program => exact ⟨.node .program (.cons statements .nil)⟩
    | statements => exact ⟨statements⟩
    | statement => exact ⟨statement⟩
    | typeName => exact ⟨.node .intType (.cons (Terminal.sample .intWord) .nil)⟩
    | expression => exact ⟨expression⟩
    | term => exact ⟨term⟩
    | factor => exact ⟨factor⟩

theorem Forest.exists_of_goal_notMem {xs : List Symbol} (h : .nonterminal .goal ∉ xs) :
    Nonempty (Forest xs) := by
  induction xs with
  | nil => exact ⟨.nil⟩
  | cons x xs ih =>
    rw [List.mem_cons, not_or] at h
    obtain ⟨tree⟩ := Symbol.exists_tree (Ne.symm h.1)
    obtain ⟨others⟩ := ih h.2
    exact ⟨.cons tree others⟩

theorem Rule.exists_forest_drop (r : Rule) (d : Nat) : Nonempty (Forest (r.body.drop d)) :=
  Forest.exists_of_goal_notMem fun h => r.goal_notMem_body (List.mem_of_mem_drop h)

/-! ## What is before a nonterminal -/

/-- What can stand before a nonterminal: nothing before the goal, and before a
    nonterminal of a body the beginning of that body, behind what can stand
    before the head. -/
inductive Expects : List Symbol → Nonterminal → Prop where
  | goal : Expects [] .goal
  | within {left : List Symbol} {r : Rule} {d : Nat} {n : Nonterminal} :
      Expects left r.head → r.body[d]? = some (.nonterminal n) →
      Expects (left ++ r.body.take d) n

/-- Every nonterminal of a form has before it what can stand there. -/
theorem IsRightSentential.expects {form : List Symbol} (h : IsRightSentential form) {k : Nat}
    {n : Nonterminal} (hk : form[k]? = some (.nonterminal n)) : Expects (form.take k) n := by
  induction h generalizing k n with
  | refl =>
    obtain ⟨hlt, hget⟩ := List.getElem?_eq_some_iff.1 hk
    obtain rfl : k = 0 := Nat.lt_one_iff.1 hlt
    cases hget
    exact .goal
  | tail _ hstep ih =>
    obtain ⟨r, left, right, rfl, rfl⟩ := hstep
    rw [List.append_assoc] at hk ⊢
    by_cases hleft : k < left.length
    · -- The nonterminal was there before the step.
      rw [List.getElem?_append_left hleft] at hk
      have hexpects := ih ((List.getElem?_append_left hleft).trans hk)
      rw [List.take_append_of_le_length (Nat.le_of_lt hleft)] at hexpects ⊢
      exact hexpects
    · obtain ⟨d, rfl⟩ := Nat.exists_eq_add_of_le (Nat.le_of_not_lt hleft)
      rw [List.getElem?_append_right (Nat.le_add_right _ _), Nat.add_sub_cancel_left] at hk
      have hhead : Expects left r.head := by
        simpa using ih (k := left.length) (n := r.head) (by simp)
      by_cases hbody : d < r.body.length
      · rw [List.getElem?_append_left hbody] at hk
        rw [List.take_length_add_append, List.take_append_of_le_length (Nat.le_of_lt hbody)]
        exact hhead.within hk
      · rw [List.getElem?_append_right (Nat.le_of_not_lt hbody)] at hk
        obtain ⟨kind, -, heq⟩ := List.mem_map.1 (List.mem_of_getElem? hk)
        cases heq

theorem Rule.body_eq_append {r : Rule} {d : Nat} {x : Symbol} (h : r.body[d]? = some x) :
    r.body = r.body.take d ++ x :: r.body.drop (d + 1) := by
  obtain ⟨hlt, rfl⟩ := List.getElem?_eq_some_iff.1 h
  rw [← List.drop_eq_getElem_cons hlt, List.take_append_drop]

theorem IsRightSentential.expand {left : List Symbol} {r : Rule} {right : List Terminal}
    (h : IsRightSentential (left ++ .nonterminal r.head :: right.map .terminal)) :
    IsRightSentential (left ++ r.body ++ right.map .terminal) :=
  Relation.ReflTransGen.tail h ⟨r, left, right, rfl, rfl⟩

/-- What can stand before a nonterminal does so in a form in which the
    nonterminal is the last one. -/
theorem Expects.exists_form {left : List Symbol} {n : Nonterminal} (h : Expects left n) :
    ∃ right : List Terminal,
      IsRightSentential (left ++ .nonterminal n :: right.map .terminal) := by
  induction h with
  | goal => exact ⟨[], .refl⟩
  | @within left r d n _ hd ih =>
    obtain ⟨right, hform⟩ := ih
    obtain ⟨f⟩ := r.exists_forest_drop (d + 1)
    refine ⟨f.tokens.map Token.kind ++ right, ?_⟩
    have hexpand := hform.expand
    rw [Rule.body_eq_append hd] at hexpand
    -- What the body has behind the nonterminal is derived to the end.
    have hrest :=
      (f.rightDerives.append_left (left ++ r.body.take d ++ [.nonterminal n])).append_right right
    rw [symbolsOf_eq_map] at hrest
    simp only [List.append_assoc, List.cons_append, List.nil_append,
      List.map_append] at hexpand hrest ⊢
    exact Relation.ReflTransGen.trans hexpand hrest

/-- **What can stand before a nonterminal**, rule by rule and in forms. -/
theorem expects_iff {left : List Symbol} {n : Nonterminal} :
    Expects left n ↔ ∃ right : List Terminal,
      IsRightSentential (left ++ .nonterminal n :: right.map .terminal) := by
  refine ⟨Expects.exists_form, ?_⟩
  rintro ⟨right, h⟩
  simpa using h.expects (k := left.length) (n := n) (by simp)

/-! ## Sentences -/

theorem Derives.goal_notMem {form : List Symbol} (h : Derives [.nonterminal .program] form) :
    .nonterminal .goal ∉ form := by
  induction h with
  | refl => simp
  | tail _ hstep ih =>
    obtain ⟨p, left, right, rfl, rfl⟩ := hstep
    simp only [List.mem_append, List.mem_cons, not_or] at ih ⊢
    exact ⟨⟨ih.1, Rule.goal_notMem_body (.production p)⟩, ih.2.2⟩

/-- **What comes behind a form** is derived by the program symbol. -/
theorem IsRightSentential.derives_of_rightYields {form form' : List Symbol}
    (h : IsRightSentential form) (hstep : RightYields form form') :
    Derives [.nonterminal .program] form' := by
  induction h generalizing form' with
  | refl =>
    obtain ⟨r, left, right, hform, rfl⟩ := hstep
    obtain ⟨rfl, hhead, rfl⟩ : left = [] ∧ r.head = .goal ∧ right = [] := by
      cases left <;> simp_all
    cases r with
    | goal => exact .refl
    | production p => cases p <;> cases hhead
  | tail _ hlast ih =>
    have hderives := ih hlast
    obtain ⟨r, left, right, rfl, rfl⟩ := hstep
    cases r with
    | goal => exact absurd hderives.goal_notMem (by simp [Rule.head])
    | production p => exact Relation.ReflTransGen.tail hderives ⟨p, left, _, rfl, rfl⟩

end Straightline
