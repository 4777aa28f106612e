/-
  Parse trees and derivations.

  A parse tree for a symbol is a token of that kind, or a production for that
  nonterminal with one tree for each symbol of its body.  Its leaves, read
  from left to right, are the tokens it stands for; its post-order is the
  sequence of actions in which a bottom-up run meets its nodes.

  * `Tree x` and `Forest xs`: trees for a symbol, and for the symbols of a
    list, one each; no other trees can be built;
  * `Tree.tokens`, `Tree.events`: leaves and post-order;
  * `Derives`: rewriting by the productions, and `IsSentence`: what the
    program symbol derives;
  * `isSentence_iff`: the sentences are the leaves of the trees;
  * `Tree.eq_of_events`: a tree can be told from its post-order;
  * `Tree.length_events_le`: a tree has few nodes for its leaves.
-/
import Mathlib.Logic.Relation
import Straightline.Parse

namespace Straightline

/-! ## Trees -/

mutual

/-- The parse trees for a symbol. -/
inductive Tree : Symbol → Type where
  | leaf (token : Token) : Tree (.terminal token.kind)
  | node (p : Production) (children : Forest p.body) : Tree (.nonterminal p.head)

/-- Parse trees for the symbols of a list, in order. -/
inductive Forest : List Symbol → Type where
  | nil : Forest []
  | cons {x : Symbol} {xs : List Symbol} (tree : Tree x) (others : Forest xs) : Forest (x :: xs)

end

/-- The parse trees of programs. -/
abbrev ProgramTree := Tree (.nonterminal .program)

mutual

/-- The leaves of a tree from left to right. -/
def Tree.tokens {x : Symbol} : Tree x → List Token
  | .leaf token => [token]
  | .node _ children => children.tokens

@[inherit_doc Tree.tokens]
def Forest.tokens {xs : List Symbol} : Forest xs → List Token
  | .nil => []
  | .cons tree others => tree.tokens ++ others.tokens

end

mutual

/-- The post-order of a tree: a shift for each leaf, and for each node a
    reduction after everything below it. -/
def Tree.events {x : Symbol} : Tree x → List Event
  | .leaf token => [.shift token]
  | .node p children => children.events ++ [.reduce p]

@[inherit_doc Tree.events]
def Forest.events {xs : List Symbol} : Forest xs → List Event
  | .nil => []
  | .cons tree others => tree.events ++ others.events

end

/-- The token that an action takes from the input. -/
def Event.token? : Event → Option Token
  | .shift token => some token
  | _ => none

mutual

theorem Tree.filterMap_events {x : Symbol} : ∀ t : Tree x, t.events.filterMap Event.token? = t.tokens
  | .leaf _ => rfl
  | .node _ children => by
    simp [Tree.events, Tree.tokens, Event.token?, children.filterMap_events]

theorem Forest.filterMap_events {xs : List Symbol} :
    ∀ f : Forest xs, f.events.filterMap Event.token? = f.tokens
  | .nil => rfl
  | .cons tree others => by
    simp [Forest.events, Forest.tokens, tree.filterMap_events, others.filterMap_events]

end

/-! ## Derivations -/

/-- One step of rewriting: a production replaces its head, somewhere, by its
    body. -/
def Yields (before after : List Symbol) : Prop :=
  ∃ (p : Production) (left right : List Symbol),
    before = left ++ .nonterminal p.head :: right ∧ after = left ++ p.body ++ right

/-- Any number of steps of rewriting. -/
def Derives : List Symbol → List Symbol → Prop :=
  Relation.ReflTransGen Yields

/-- Whether the program symbol derives a list of terminals. -/
def IsSentence (kinds : List Terminal) : Prop :=
  Derives [.nonterminal .program] (kinds.map .terminal)

theorem Yields.append_left {before after : List Symbol} (h : Yields before after)
    (front : List Symbol) : Yields (front ++ before) (front ++ after) := by
  obtain ⟨p, left, right, rfl, rfl⟩ := h
  exact ⟨p, front ++ left, right, by simp, by simp⟩

theorem Yields.append_right {before after : List Symbol} (h : Yields before after)
    (back : List Symbol) : Yields (before ++ back) (after ++ back) := by
  obtain ⟨p, left, right, rfl, rfl⟩ := h
  exact ⟨p, left, right ++ back, by simp, by simp⟩

theorem Derives.append {xs xs' ys ys' : List Symbol} (hx : Derives xs xs') (hy : Derives ys ys') :
    Derives (xs ++ ys) (xs' ++ ys') := by
  have hleft : Derives (xs ++ ys) (xs' ++ ys) :=
    Relation.ReflTransGen.lift (· ++ ys) (fun _ _ h => Yields.append_right h ys) _ _ hx
  have hright : Derives (xs' ++ ys) (xs' ++ ys') :=
    Relation.ReflTransGen.lift (xs' ++ ·) (fun _ _ h => Yields.append_left h xs') _ _ hy
  exact Relation.ReflTransGen.trans hleft hright

/-- The symbols of some tokens. -/
def symbolsOf (tokens : List Token) : List Symbol :=
  tokens.map fun token => .terminal token.kind

theorem symbolsOf_append (front back : List Token) :
    symbolsOf (front ++ back) = symbolsOf front ++ symbolsOf back :=
  List.map_append

mutual

/-- A symbol derives the leaves of its trees. -/
theorem Tree.derives {x : Symbol} : ∀ t : Tree x, Derives [x] (symbolsOf t.tokens)
  | .leaf _ => .refl
  | .node p children => .head ⟨p, [], [], rfl, by simp⟩ children.derives

@[inherit_doc Tree.derives]
theorem Forest.derives {xs : List Symbol} : ∀ f : Forest xs, Derives xs (symbolsOf f.tokens)
  | .nil => .refl
  | .cons tree others => by
    rw [Forest.tokens, symbolsOf_append]
    exact Derives.append tree.derives others.derives

end

/-! ## Trees for derivations -/

/-- Each token as a tree. -/
def Forest.leaves : (tokens : List Token) → Forest (symbolsOf tokens)
  | [] => .nil
  | token :: rest => .cons (.leaf token) (leaves rest)

theorem Forest.tokens_leaves : ∀ tokens : List Token, (leaves tokens).tokens = tokens
  | [] => rfl
  | token :: rest => congrArg (token :: ·) (tokens_leaves rest)

/-- Two forests side by side. -/
def Forest.append {xs ys : List Symbol} : Forest xs → Forest ys → Forest (xs ++ ys)
  | .nil, g => g
  | .cons tree others, g => .cons tree (others.append g)

theorem Forest.tokens_append {xs ys : List Symbol} :
    ∀ (f : Forest xs) (g : Forest ys), (f.append g).tokens = f.tokens ++ g.tokens
  | .nil, _ => rfl
  | .cons tree others, g => by
    simp only [Forest.append, Forest.tokens, others.tokens_append g, List.append_assoc]

theorem Forest.exists_split {ys : List Symbol} : ∀ (xs : List Symbol) (f : Forest (xs ++ ys)),
    ∃ (g : Forest xs) (h : Forest ys), f.tokens = g.tokens ++ h.tokens
  | [], f => ⟨.nil, f, rfl⟩
  | _ :: xs, .cons tree others => by
    obtain ⟨g, h, hsplit⟩ := exists_split xs others
    exact ⟨.cons tree g, h, by simp only [Forest.tokens, hsplit, List.append_assoc]⟩

/-- A step of rewriting is undone by putting a node over the body's trees. -/
theorem Yields.exists_forest {before after : List Symbol} (h : Yields before after)
    (f : Forest after) : ∃ g : Forest before, g.tokens = f.tokens := by
  obtain ⟨p, left, right, rfl, rfl⟩ := h
  obtain ⟨front, back, hf⟩ := Forest.exists_split (left ++ p.body) f
  obtain ⟨before, children, hfront⟩ := Forest.exists_split left front
  refine ⟨before.append (.cons (.node p children) back), ?_⟩
  rw [hf, hfront, Forest.tokens_append, Forest.tokens, Tree.tokens, List.append_assoc]

theorem Derives.exists_forest {xs : List Symbol} {tokens : List Token}
    (h : Derives xs (symbolsOf tokens)) : ∃ f : Forest xs, f.tokens = tokens := by
  induction h using Relation.ReflTransGen.head_induction_on with
  | refl => exact ⟨.leaves tokens, Forest.tokens_leaves tokens⟩
  | head hstep _ ih =>
    obtain ⟨f, hf⟩ := ih
    obtain ⟨g, hg⟩ := hstep.exists_forest f
    exact ⟨g, hg.trans hf⟩

/-- **The sentences are the leaves of the trees.** -/
theorem isSentence_iff (tokens : List Token) :
    IsSentence (tokens.map Token.kind) ↔ ∃ t : ProgramTree, t.tokens = tokens := by
  have hmap : (tokens.map Token.kind).map Symbol.terminal = symbolsOf tokens := by
    rw [List.map_map]; rfl
  rw [IsSentence, hmap]
  constructor
  · intro h
    obtain ⟨f, hf⟩ := h.exists_forest
    cases f with
    | cons tree others =>
      cases others
      exact ⟨tree, by rw [← hf, Forest.tokens, Forest.tokens, List.append_nil]⟩
  · rintro ⟨t, rfl⟩
    exact t.derives

/-! ## Trees from their post-order -/

mutual

/-- A post-order behind anything determines the tree and where it starts. -/
theorem Tree.eq_of_append_events {x x' : Symbol} : ∀ (t : Tree x) (t' : Tree x')
    (before before' : List Event), before ++ t.events = before' ++ t'.events →
      (⟨x, t⟩ : Sigma Tree) = ⟨x', t'⟩ ∧ before = before'
  | .leaf token, .leaf token', before, before', h => by
    obtain ⟨hbefore, hlast⟩ := List.append_inj' h rfl
    simp only [Tree.events, List.cons.injEq, Event.shift.injEq, and_true] at hlast
    exact ⟨by rw [hlast], hbefore⟩
  | .leaf _, .node p children, before, before', h => by
    rw [Tree.events, Tree.events, ← List.append_assoc] at h
    cases (List.append_inj' h rfl).2
  | .node p children, .leaf _, before, before', h => by
    rw [Tree.events, Tree.events, ← List.append_assoc] at h
    cases (List.append_inj' h rfl).2
  | .node p children, .node p' children', before, before', h => by
    rw [Tree.events, Tree.events, ← List.append_assoc, ← List.append_assoc] at h
    obtain ⟨hevents, hlast⟩ := List.append_inj' h rfl
    simp only [List.cons.injEq, Event.reduce.injEq, and_true] at hlast
    subst hlast
    obtain ⟨rfl, hbefore⟩ := children.eq_of_append_events children' _ _ hevents
    exact ⟨rfl, hbefore⟩

@[inherit_doc Tree.eq_of_append_events]
theorem Forest.eq_of_append_events {xs : List Symbol} : ∀ (f f' : Forest xs)
    (before before' : List Event), before ++ f.events = before' ++ f'.events →
      f = f' ∧ before = before'
  | .nil, .nil, before, before', h => ⟨rfl, by simpa [Forest.events] using h⟩
  | .cons tree others, .cons tree' others', before, before', h => by
    rw [Forest.events, Forest.events, ← List.append_assoc, ← List.append_assoc] at h
    obtain ⟨rfl, hevents⟩ := others.eq_of_append_events others' _ _ h
    obtain ⟨htree, hbefore⟩ := tree.eq_of_append_events tree' _ _ hevents
    cases htree
    exact ⟨rfl, hbefore⟩

end

/-- **A tree can be told from its post-order.** -/
theorem Tree.eq_of_events {x : Symbol} {t t' : Tree x} (h : t.events = t'.events) : t = t' := by
  obtain ⟨hsigma, -⟩ := t.eq_of_append_events t' [] [] (by simpa using h)
  cases hsigma
  rfl

/-! ## The size of trees -/

/-- How many actions fewer than five a leaf a tree for a symbol takes at
    least.  Along the productions for one nonterminal after the other it
    falls, so that it bounds the chains of nodes with a single child. -/
def Symbol.slack : Symbol → Nat
  | .terminal _ => 4
  | .nonterminal .goal => 0
  | .nonterminal .program => 0
  | .nonterminal .statements => 1
  | .nonterminal .statement => 4
  | .nonterminal .typeName => 3
  | .nonterminal .expression => 1
  | .nonterminal .term => 2
  | .nonterminal .factor => 3

@[inherit_doc Symbol.slack]
def slackOf : List Symbol → Nat
  | [] => 0
  | x :: xs => x.slack + slackOf xs

theorem Production.slack_head_lt (p : Production) :
    (Symbol.nonterminal p.head).slack < slackOf p.body := by
  cases p <;> decide

mutual

/-- **A tree has few nodes for its leaves**: there is no way to put node over
    node for long without adding a leaf. -/
theorem Tree.length_events_le {x : Symbol} :
    ∀ t : Tree x, t.events.length + x.slack ≤ 5 * t.tokens.length
  | .leaf _ => by simp [Tree.events, Tree.tokens, Symbol.slack]
  | .node p children => by
    have hchildren := children.length_events_le
    have hslack := p.slack_head_lt
    simp only [Tree.events, Tree.tokens, List.length_append, List.length_singleton]
    omega

@[inherit_doc Tree.length_events_le]
theorem Forest.length_events_le {xs : List Symbol} :
    ∀ f : Forest xs, f.events.length + slackOf xs ≤ 5 * f.tokens.length
  | .nil => Nat.le_refl 0
  | .cons tree others => by
    have htree := tree.length_events_le
    have hothers := others.length_events_le
    simp only [Forest.events, Forest.tokens, List.length_append, slackOf]
    omega

end

end Straightline
