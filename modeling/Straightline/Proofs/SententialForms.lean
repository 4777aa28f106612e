/-
  The lookahead sets and sentential forms.

  `first` and `follow` are computed from the bodies of the rules.  What they
  mean is about derivations of any length: a terminal is in the first set of a
  symbol if some form that the symbol derives starts with it, and in the
  follow set of a nonterminal if it stands behind it in some form that the
  goal, with an end mark behind it, derives.  The sets are neither too small
  nor too large.

  * `RuleYields`, `RuleDerives`: rewriting by all rules, the goal's included;
  * `mem_first_iff`: first sets are exact;
  * `Precedes`: which symbols may stand next to each other, as far as the sets
    tell; in the forms of the goal all neighbours are of this kind
    (`RuleDerives.isChain`);
  * `Follows`: a terminal stands behind a nonterminal in some form;
  * `mem_follow_iff`: follow sets are exact.
-/
import Mathlib.Data.List.Chain
import Straightline.Proofs.Rightmost

namespace Straightline

/-! ## Rewriting by all rules -/

/-- One step of rewriting: a rule replaces its head, somewhere, by its body. -/
def RuleYields (before after : List Symbol) : Prop :=
  ∃ (r : Rule) (left right : List Symbol),
    before = left ++ .nonterminal r.head :: right ∧ after = left ++ r.body ++ right

/-- Any number of steps of rewriting by the rules. -/
def RuleDerives : List Symbol → List Symbol → Prop :=
  Relation.ReflTransGen RuleYields

namespace RuleDerives

variable {xs ys : List Symbol}

/-- A derivation goes on in the same way between other symbols. -/
theorem within (h : RuleDerives xs ys) (left right : List Symbol) :
    RuleDerives (left ++ xs ++ right) (left ++ ys ++ right) := by
  refine Relation.ReflTransGen.lift (left ++ · ++ right) ?_ _ _ h
  rintro _ _ ⟨r, front, back, rfl, rfl⟩
  exact ⟨r, left ++ front, back ++ right, by simp, by simp⟩

theorem of_rightDerives (h : RightDerives xs ys) : RuleDerives xs ys := by
  refine Relation.ReflTransGen.mono ?_ _ _ h
  rintro _ _ ⟨r, left, right, rfl, rfl⟩
  exact ⟨r, left, right.map .terminal, rfl, rfl⟩

theorem expand {r : Rule} {left right : List Symbol}
    (h : RuleDerives xs (left ++ .nonterminal r.head :: right)) :
    RuleDerives xs (left ++ r.body ++ right) :=
  Relation.ReflTransGen.tail h ⟨r, left, right, rfl, rfl⟩

end RuleDerives

/-! ## First sets -/

theorem startsWith_iff {x y : Symbol} : startsWith x y = true ↔
    ∃ r : Rule, x = .nonterminal r.head ∧ r.body.head? = some y := by
  simp [startsWith, Rule.mem_all]

/-- A terminal starts with nothing but itself. -/
theorem eq_of_mem_first_terminal {a t : Terminal} (h : t ∈ first (.terminal a)) : t = a := by
  have key : ∀ {y}, Reachable startsWith Symbol.all (.terminal a) y → y = .terminal a := by
    intro y hy
    induction hy with
    | refl => rfl
    | step _ _ hstep ih =>
      obtain ⟨r, hr, -⟩ := startsWith_iff.1 hstep
      cases ih.symm.trans hr
  exact Symbol.terminal.inj (key (mem_first.1 h))

/-- What a symbol can start with, some form that it derives starts with. -/
theorem exists_derives_of_mem_first {x : Symbol} {t : Terminal} (h : t ∈ first x) :
    ∃ rest, RuleDerives [x] (.terminal t :: rest) := by
  have key : ∀ {y}, Reachable startsWith Symbol.all x y → ∃ rest, RuleDerives [x] (y :: rest) := by
    intro y hy
    induction hy with
    | refl => exact ⟨[], .refl⟩
    | @step y z _ _ hstep ih =>
      obtain ⟨rest, hrest⟩ := ih
      obtain ⟨r, rfl, hhead⟩ := startsWith_iff.1 hstep
      obtain ⟨tail, hbody⟩ := List.head?_eq_some_iff.1 hhead
      have hexpand : RuleDerives [x] ([] ++ r.body ++ rest) := RuleDerives.expand hrest
      rw [hbody] at hexpand
      exact ⟨tail ++ rest, hexpand⟩
  exact key (mem_first.1 h)

/-- What a form starts with, the first symbol of the form that it was derived
    from can start with: no body is empty, so the first symbol is only ever
    replaced by the beginning of one of its bodies. -/
theorem mem_first_of_derives {form : List Symbol} {t : Terminal} {rest : List Symbol}
    (h : RuleDerives form (.terminal t :: rest)) : ∃ x xs, form = x :: xs ∧ t ∈ first x := by
  induction h using Relation.ReflTransGen.head_induction_on with
  | refl => exact ⟨_, _, rfl, mem_first_terminal t⟩
  | head hstep _ ih =>
    obtain ⟨y, ys, hform, hfirst⟩ := ih
    obtain ⟨r, left, right, rfl, rfl⟩ := hstep
    cases left with
    | cons x left =>
      obtain ⟨rfl, -⟩ := List.cons.inj hform
      exact ⟨x, _, rfl, hfirst⟩
    | nil =>
      obtain ⟨z, tail, hbody⟩ := List.exists_cons_of_ne_nil r.body_ne_nil
      rw [hbody] at hform
      obtain ⟨rfl, -⟩ := List.cons.inj hform
      exact ⟨_, right, rfl, first_body_subset (by rw [hbody]; rfl) hfirst⟩

/-- **First sets are exact.** -/
theorem mem_first_iff {x : Symbol} {t : Terminal} :
    t ∈ first x ↔ ∃ rest, RuleDerives [x] (.terminal t :: rest) := by
  refine ⟨exists_derives_of_mem_first, ?_⟩
  rintro ⟨rest, h⟩
  obtain ⟨y, ys, hform, hfirst⟩ := mem_first_of_derives h
  obtain ⟨rfl, -⟩ := List.cons.inj hform
  exact hfirst

/-! ## Neighbours in forms -/

/-- Whether one symbol may stand right before another, as far as the sets tell:
    if it is a nonterminal, whatever the other one can start with can follow
    it. -/
def Precedes (x y : Symbol) : Prop :=
  ∀ n, x = .nonterminal n → first y ⊆ follow n

theorem Rule.isChain_body (r : Rule) : r.body.IsChain Precedes := by
  refine List.isChain_iff_getElem.2 fun d hd n hn => ?_
  refine first_subset_follow (d := d) ?_ (List.getElem?_eq_getElem hd)
  rw [List.getElem?_eq_getElem (Nat.lt_of_succ_lt hd), hn]

/-- What comes behind the head of a rule may come behind the last symbol of its
    body. -/
theorem Precedes.of_getLast? {r : Rule} {x y : Symbol} (h : Precedes (.nonterminal r.head) y)
    (hlast : r.body.getLast? = some x) : Precedes x y := by
  rintro n rfl
  have hpos : r.body.length ≠ 0 := fun h => r.body_ne_nil (List.length_eq_zero_iff.1 h)
  rw [List.getLast?_eq_getElem?] at hlast
  have hend : r.body[r.body.length - 1 + 1]? = none := List.getElem?_eq_none_iff.2 (by omega)
  exact fun t ht => follow_head_subset hlast hend (h _ rfl ht)

/-- What comes before the head of a rule may come before the first symbol of its
    body. -/
theorem Precedes.of_head? {r : Rule} {x y : Symbol} (h : Precedes x (.nonterminal r.head))
    (hhead : r.body.head? = some y) : Precedes x y :=
  fun n hn _ ht => h n hn (first_body_subset hhead ht)

/-- A step of rewriting keeps neighbours that may stand next to each other. -/
theorem RuleYields.isChain {form form' : List Symbol} (h : RuleYields form form')
    (hform : form.IsChain Precedes) : form'.IsChain Precedes := by
  obtain ⟨r, left, right, rfl, rfl⟩ := h
  obtain ⟨hleft, hhead, hbefore⟩ := List.isChain_append.1 hform
  obtain ⟨hbehind, hright⟩ := List.isChain_cons.1 hhead
  rw [List.append_assoc]
  refine hleft.append (r.isChain_body.append hright ?_) ?_
  · exact fun x hx y hy => (hbehind y hy).of_getLast? hx
  · intro x hx y hy
    obtain ⟨z, tail, hbody⟩ := List.exists_cons_of_ne_nil r.body_ne_nil
    rw [hbody, List.cons_append] at hy
    cases hy
    exact (hbefore x hx _ rfl).of_head? (by rw [hbody]; rfl)

/-- **Neighbours in the forms of the goal** are such that the sets allow
    them. -/
theorem RuleDerives.isChain {form : List Symbol}
    (h : RuleDerives [.nonterminal .goal, .terminal .endMark] form) : form.IsChain Precedes := by
  induction h with
  | refl =>
    refine List.isChain_cons_cons.2 ⟨?_, List.isChain_singleton _⟩
    intro n hn t ht
    cases hn
    rw [eq_of_mem_first_terminal ht]
    exact endMark_mem_follow_goal
  | tail _ hstep ih => exact hstep.isChain ih

/-! ## Follow sets -/

/-- A terminal stands right behind a nonterminal in some form that the goal,
    with an end mark behind it, derives. -/
def Follows (n : Nonterminal) (t : Terminal) : Prop :=
  ∃ left right : List Symbol, RuleDerives [.nonterminal .goal, .terminal .endMark]
    (left ++ .nonterminal n :: .terminal t :: right)

theorem ends_iff {n m : Nonterminal} : ends n m = true ↔
    ∃ r : Rule, r.head = m ∧ r.body.getLast? = some (.nonterminal n) := by
  simp [ends, Rule.mem_all]

theorem mem_neighbours {x y : Symbol} : (x, y) ∈ neighbours ↔
    ∃ (r : Rule) (d : Nat), r.body[d]? = some x ∧ r.body[d + 1]? = some y := by
  have hzip : ∀ (r : Rule) (d : Nat), (r.body.zip r.body.tail)[d]? = some (x, y) ↔
      r.body[d]? = some x ∧ r.body[d + 1]? = some y := by
    intro r d
    rw [List.getElem?_zip_eq_some, List.getElem?_tail]
  constructor
  · intro h
    obtain ⟨r, -, hmem⟩ := List.mem_flatMap.1 h
    obtain ⟨d, hd⟩ := List.mem_iff_getElem?.1 hmem
    exact ⟨r, d, (hzip r d).1 hd⟩
  · rintro ⟨r, d, hd⟩
    exact List.mem_flatMap.2 ⟨r, r.mem_all, List.mem_of_getElem? ((hzip r d).2 hd)⟩

theorem mem_followsDirectly {n : Nonterminal} {t : Terminal} : t ∈ followsDirectly n ↔
    (n = .goal ∧ t = .endMark) ∨
      ∃ (r : Rule) (d : Nat) (y : Symbol), r.body[d]? = some (.nonterminal n) ∧
        r.body[d + 1]? = some y ∧ t ∈ first y := by
  simp only [followsDirectly, List.mem_append, List.mem_flatMap, List.mem_filter,
    decide_eq_true_eq, List.mem_ite_nil_right, List.mem_singleton]
  refine or_congr Iff.rfl ⟨?_, ?_⟩
  · rintro ⟨⟨x, y⟩, ⟨hmem, rfl⟩, ht⟩
    obtain ⟨r, d, hx, hy⟩ := mem_neighbours.1 hmem
    exact ⟨r, d, y, hx, hy, ht⟩
  · rintro ⟨r, d, y, hx, hy, ht⟩
    exact ⟨(_, y), ⟨mem_neighbours.2 ⟨r, d, hx, hy⟩, rfl⟩, ht⟩

/-- No nonterminal is left out of all forms. -/
theorem Nonterminal.exists_expects (n : Nonterminal) : ∃ left, Expects left n := by
  have hprogram : Expects _ .program := Expects.goal.within (r := .goal) (d := 0) rfl
  have hstatements : Expects _ .statements :=
    hprogram.within (r := .production .program) (d := 0) rfl
  have hstatement : Expects _ .statement :=
    hstatements.within (r := .production .statementsLast) (d := 0) rfl
  have hexpression : Expects _ .expression :=
    hstatement.within (r := .production .returnValue) (d := 1) rfl
  have hterm : Expects _ .term :=
    hexpression.within (r := .production .expressionTerm) (d := 0) rfl
  cases n with
  | goal => exact ⟨_, .goal⟩
  | program => exact ⟨_, hprogram⟩
  | statements => exact ⟨_, hstatements⟩
  | statement => exact ⟨_, hstatement⟩
  | typeName => exact ⟨_, hstatement.within (r := .production .declaration) (d := 0) rfl⟩
  | expression => exact ⟨_, hexpression⟩
  | term => exact ⟨_, hterm⟩
  | factor => exact ⟨_, hterm.within (r := .production .termFactor) (d := 0) rfl⟩

/-- Forms of the goal, with the end mark behind them. -/
theorem IsRightSentential.ruleDerives {form : List Symbol} (h : IsRightSentential form) :
    RuleDerives [.nonterminal .goal, .terminal .endMark] (form ++ [.terminal .endMark]) :=
  (RuleDerives.of_rightDerives h).within [] [.terminal .endMark]

namespace Follows

/-- What stands inside a body behind a nonterminal. -/
theorem of_body {r : Rule} {d : Nat} {n : Nonterminal} {y : Symbol} {t : Terminal}
    (hn : r.body[d]? = some (.nonterminal n)) (hy : r.body[d + 1]? = some y) (ht : t ∈ first y) :
    Follows n t := by
  obtain ⟨left, hexpects⟩ := r.head.exists_expects
  obtain ⟨right, hform⟩ := hexpects.exists_form
  obtain ⟨rest, hrest⟩ := mem_first_iff.1 ht
  have hexpand := hform.expand.ruleDerives
  have hlt : d + 1 < r.body.length := (List.getElem?_eq_some_iff.1 hy).1
  have hdrop : r.body.drop (d + 1) = y :: r.body.drop (d + 2) := by
    rw [List.drop_eq_getElem_cons hlt, (List.getElem?_eq_some_iff.1 hy).2]
  rw [Rule.body_eq_append hn, hdrop] at hexpand
  have hderives := hrest.within (left ++ r.body.take d ++ [.nonterminal n])
    (r.body.drop (d + 2) ++ right.map .terminal ++ [.terminal .endMark])
  refine ⟨left ++ r.body.take d,
    rest ++ (r.body.drop (d + 2) ++ right.map .terminal ++ [.terminal .endMark]), ?_⟩
  simp only [List.append_assoc, List.cons_append, List.nil_append] at hexpand hderives ⊢
  exact Relation.ReflTransGen.trans hexpand hderives

/-- What follows the head of a rule follows the last symbol of its body. -/
theorem of_ends {n m : Nonterminal} {t : Terminal} (h : Follows m t) (hends : ends n m = true) :
    Follows n t := by
  obtain ⟨left, right, hform⟩ := h
  obtain ⟨r, rfl, hlast⟩ := ends_iff.1 hends
  obtain ⟨front, hbody⟩ := List.getLast?_eq_some_iff.1 hlast
  have hexpand := hform.expand
  rw [hbody] at hexpand
  refine ⟨left ++ front, right, ?_⟩
  simpa using hexpand

theorem of_mem_follow {n : Nonterminal} {t : Terminal} (h : t ∈ follow n) : Follows n t := by
  obtain ⟨m, hreach, hdirect⟩ := mem_follow.1 h
  have hm : Follows m t := by
    obtain ⟨rfl, rfl⟩ | ⟨r, d, y, hn, hy, ht⟩ := mem_followsDirectly.1 hdirect
    · exact ⟨[], [], .refl⟩
    · exact of_body hn hy ht
  -- The path goes from the end of a body to its head, again and again.
  clear hdirect
  induction hreach with
  | refl => exact hm
  | step _ _ hends ih => exact ih (hm.of_ends hends)

theorem to_mem_follow {n : Nonterminal} {t : Terminal} (h : Follows n t) : t ∈ follow n := by
  obtain ⟨left, right, hform⟩ := h
  obtain ⟨-, hchain, -⟩ := List.isChain_append.1 hform.isChain
  exact (List.isChain_cons_cons.1 hchain).1 n rfl (mem_first_terminal t)

end Follows

/-- **Follow sets are exact.** -/
theorem mem_follow_iff {n : Nonterminal} {t : Terminal} : t ∈ follow n ↔ Follows n t :=
  ⟨Follows.of_mem_follow, Follows.to_mem_follow⟩

/-- **First and follow sets are exact.**  A terminal is in the first set of a
    symbol if and only if the symbol derives a form that starts with it, and
    in the follow set of a nonterminal if and only if it stands right behind
    the nonterminal in a form that the goal derives, with an end mark behind
    it. -/
theorem lookahead_sets_exact (t : Terminal) :
    (∀ x : Symbol, t ∈ first x ↔ ∃ rest, RuleDerives [x] (.terminal t :: rest)) ∧
    ∀ n : Nonterminal, t ∈ follow n ↔
      ∃ left right, RuleDerives [.nonterminal .goal, .terminal .endMark]
        (left ++ .nonterminal n :: .terminal t :: right) :=
  ⟨fun _ => mem_first_iff, fun _ => mem_follow_iff⟩

end Straightline
