/-
  What the lookahead sets contain.

  `first` and `follow` are computed by reachability.  Here they are opened
  once: what a rule puts at the start of its body, next to a nonterminal or at
  the end of its body, the sets contain.

  * `first_body_subset`: a nonterminal starts with what its bodies start with;
  * `Item.lookahead`: the terminals that an item allows behind the symbol
    after its dot, and `Item.lookahead_subset_follow`;
  * `Tree.tokens_eq_cons`: the leaves of a tree start as `first` says.
-/
import Straightline.Proofs.Tree

namespace Straightline

/-! ## First -/

theorem mem_first {x : Symbol} {t : Terminal} :
    t ∈ first x ↔ Reachable startsWith Symbol.all x (.terminal t) := by
  simp [first, mem_reach, Terminal.mem_all]

theorem mem_first_terminal (t : Terminal) : t ∈ first (.terminal t) :=
  mem_first.2 .refl

theorem Rule.goal_notMem_body (r : Rule) : Symbol.nonterminal .goal ∉ r.body := by
  cases r with
  | goal => decide
  | production p => cases p <;> decide

theorem Rule.mem_all_of_mem_body {r : Rule} {x : Symbol} (h : x ∈ r.body) : x ∈ Symbol.all := by
  rcases x.mem_all with rfl | hx
  · exact absurd h r.goal_notMem_body
  · exact hx

/-- A nonterminal starts with what its bodies start with. -/
theorem first_body_subset {r : Rule} {y : Symbol} (h : r.body.head? = some y) :
    first y ⊆ first (.nonterminal r.head) := by
  intro t ht
  have hy : y ∈ Symbol.all := Rule.mem_all_of_mem_body (List.mem_of_mem_head? h)
  have hstep : startsWith (.nonterminal r.head) y = true := by
    simp only [startsWith, List.any_eq_true]
    exact ⟨r, r.mem_all, by simp [h]⟩
  exact mem_first.2 ((Reachable.step .refl hy hstep).trans (mem_first.1 ht))

/-! ## Follow -/

theorem mem_follow {x : Nonterminal} {t : Terminal} :
    t ∈ follow x ↔
      ∃ y, Reachable ends (.goal :: Nonterminal.all) x y ∧ t ∈ followsDirectly y := by
  simp [follow, mem_reach, Terminal.mem_all]

theorem endMark_mem_follow_goal : Terminal.endMark ∈ follow .goal :=
  mem_follow.2 ⟨.goal, .refl, by simp [followsDirectly]⟩

/-- What stands next to a nonterminal in a body can follow it. -/
theorem first_subset_follow {r : Rule} {d : Nat} {x : Nonterminal} {y : Symbol}
    (hx : r.body[d]? = some (.nonterminal x)) (hy : r.body[d + 1]? = some y) :
    first y ⊆ follow x := by
  intro t ht
  have hpair : (Symbol.nonterminal x, y) ∈ neighbours := by
    refine List.mem_flatMap.2 ⟨r, r.mem_all, List.mem_of_getElem? (i := d) ?_⟩
    rw [List.getElem?_zip_eq_some, List.getElem?_tail]
    exact ⟨hx, hy⟩
  refine mem_follow.2 ⟨x, .refl, ?_⟩
  refine List.mem_append_right _ (List.mem_flatMap.2 ⟨_, List.mem_filter.2 ⟨hpair, ?_⟩, ht⟩)
  simp

/-- What follows the head can follow the nonterminal at the end of the body. -/
theorem follow_head_subset {r : Rule} {d : Nat} {x : Nonterminal}
    (hx : r.body[d]? = some (.nonterminal x)) (hend : r.body[d + 1]? = none) :
    follow r.head ⊆ follow x := by
  intro t ht
  obtain ⟨y, hy, hty⟩ := mem_follow.1 ht
  have hlength : r.body.length = d + 1 := by
    have hlt := (List.getElem?_eq_some_iff.1 hx).1
    have hle := List.getElem?_eq_none_iff.1 hend
    omega
  have hlast : r.body.getLast? = some (.nonterminal x) := by
    rw [List.getLast?_eq_getElem?, hlength]
    exact hx
  have hstep : ends x r.head = true := by
    simp only [ends, List.any_eq_true]
    exact ⟨r, r.mem_all, by simp [hlast]⟩
  have hmem : r.head ∈ Nonterminal.goal :: Nonterminal.all := by
    rcases r.head.mem_all with h | h
    · exact h ▸ List.mem_cons_self
    · exact List.mem_cons_of_mem _ h
  exact mem_follow.2 ⟨y, (Reachable.step .refl hmem hstep).trans hy, hty⟩

/-- The terminals that may stand behind the symbol after the dot: those that
    the next symbol of the body starts with, or else those that follow the
    head. -/
def Item.lookahead (i : Item) : List Terminal :=
  match i.rule.body[i.dot + 1]? with
  | some y => first y
  | none => follow i.rule.head

/-- **What an item allows behind a nonterminal can follow it.** -/
theorem Item.lookahead_subset_follow {i : Item} {x : Nonterminal}
    (h : i.next? = some (.nonterminal x)) : i.lookahead ⊆ follow x := by
  unfold Item.lookahead
  split
  · rename_i y hy
    exact first_subset_follow h hy
  · rename_i hend
    exact follow_head_subset h hend

/-! ## The first leaf -/

mutual

/-- The leaves of a tree start with a terminal that its symbol can start
    with. -/
theorem Tree.tokens_eq_cons {x : Symbol} :
    ∀ t : Tree x, ∃ token rest, t.tokens = token :: rest ∧ token.kind ∈ first x
  | .leaf token => ⟨token, [], rfl, mem_first_terminal _⟩
  | .node p children => by
    obtain ⟨y, hy⟩ : ∃ y, p.body.head? = some y := by cases p <;> exact ⟨_, rfl⟩
    obtain ⟨token, rest, htokens, hfirst⟩ := children.tokens_eq_cons hy
    exact ⟨token, rest, htokens, first_body_subset (r := .production p) hy hfirst⟩

@[inherit_doc Tree.tokens_eq_cons]
theorem Forest.tokens_eq_cons {xs : List Symbol} {y : Symbol} : ∀ f : Forest xs,
    xs.head? = some y → ∃ token rest, f.tokens = token :: rest ∧ token.kind ∈ first y
  | .cons tree others, hy => by
    obtain ⟨token, rest, htokens, hfirst⟩ := tree.tokens_eq_cons
    cases hy
    exact ⟨token, rest ++ others.tokens, by rw [Forest.tokens, htokens, List.cons_append], hfirst⟩

end

end Straightline
