/-
  What the automaton recognises.

  Shifts and gotos take an automaton from state to state along a list of
  symbols.  The lists along which this works are those that can be on the
  stack of a run over a correct text: beginnings of right-sentential forms
  that do not go past the handle.  The items of the state reached say in which
  rules one can be then, and how far.

  * `Item.ValidFor`: the items that fit a list of symbols;
  * `IsViablePrefix`: the beginnings of forms up to the handle, which are the
    lists that some item fits (`isViablePrefix_iff`);
  * `Table.path?`: the state behind a list of symbols;
  * `Table.Lawful.validFor_of_mem`, `Table.Lawful.exists_path`: the items of a
    state fit what leads to it, and all that fit are there;
  * `automaton_recognises_viable_prefixes`: the same of the table of the
    grammar.
-/
import Mathlib.Data.List.Induction
import Straightline.Proofs.Rightmost
import Straightline.Proofs.TableLaws

namespace Straightline

/-! ## Items and prefixes -/

/-- An item fits a list of symbols: the list ends with the symbols of the body
    before the dot, and the head could stand in their place with only
    terminals behind it. -/
def Item.ValidFor (i : Item) (xs : List Symbol) : Prop :=
  ∃ (left : List Symbol) (right : List Terminal),
    IsRightSentential (left ++ .nonterminal i.rule.head :: right.map .terminal) ∧
      i.dot ≤ i.rule.body.length ∧ xs = left ++ i.rule.body.take i.dot

/-- A beginning of a right-sentential form that does not go past its handle:
    the form is `left ++ r.body ++ right`, and the body is the handle. -/
def IsViablePrefix (xs : List Symbol) : Prop :=
  ∃ (r : Rule) (left : List Symbol) (right : List Terminal),
    IsRightSentential (left ++ .nonterminal r.head :: right.map .terminal) ∧ xs <+: left ++ r.body

variable {xs left : List Symbol} {i : Item} {r : Rule} {n : Nonterminal} {x : Symbol}

theorem Item.validFor_iff :
    i.ValidFor xs ↔ ∃ left, Expects left i.rule.head ∧ i.dot ≤ i.rule.body.length ∧
      xs = left ++ i.rule.body.take i.dot := by
  constructor
  · rintro ⟨left, right, hform, hdot, rfl⟩
    exact ⟨left, expects_iff.2 ⟨right, hform⟩, hdot, rfl⟩
  · rintro ⟨left, hexpects, hdot, rfl⟩
    obtain ⟨right, hform⟩ := hexpects.exists_form
    exact ⟨left, right, hform, hdot, rfl⟩

theorem Expects.validFor (h : Expects left r.head) {d : Nat} (hd : d ≤ r.body.length) :
    Item.ValidFor ⟨r, d⟩ (left ++ r.body.take d) :=
  Item.validFor_iff.2 ⟨left, h, hd, rfl⟩

theorem Expects.validFor_start (h : Expects left r.head) : (Item.start r).ValidFor left :=
  List.append_nil left ▸ h.validFor (Nat.zero_le _)

theorem Item.ValidFor.expects (h : i.ValidFor xs) (hnext : i.next? = some (.nonterminal n)) :
    Expects xs n := by
  obtain ⟨left, hexpects, -, rfl⟩ := Item.validFor_iff.1 h
  exact hexpects.within hnext

theorem Item.ValidFor.advance (h : i.ValidFor xs) (hnext : i.next? = some x) :
    Item.ValidFor ⟨i.rule, i.dot + 1⟩ (xs ++ [x]) := by
  obtain ⟨left, hexpects, -, rfl⟩ := Item.validFor_iff.1 h
  have hlt : i.dot < i.rule.body.length := (List.getElem?_eq_some_iff.1 hnext).1
  have htake : i.rule.body.take (i.dot + 1) = i.rule.body.take i.dot ++ [x] := by
    rw [List.take_add_one, show i.rule.body[i.dot]? = some x from hnext]
    rfl
  rw [List.append_assoc, ← htake]
  exact hexpects.validFor hlt

/-- A beginning of a form up to the handle ends before the handle, or some item
    fits it. -/
theorem Expects.prefix_or_validFor (h : Expects left r.head) (hxs : xs <+: left ++ r.body) :
    xs <+: left ∨ ∃ i : Item, i.ValidFor xs := by
  rcases List.prefix_or_prefix_of_prefix hxs (List.prefix_append left r.body) with
    hshort | ⟨part, rfl⟩
  · exact .inl hshort
  · have hpart : part <+: r.body := (List.prefix_append_right_inj left).1 hxs
    have hvalid := h.validFor hpart.length_le
    rw [← List.prefix_iff_eq_take.1 hpart] at hvalid
    exact .inr ⟨_, hvalid⟩

theorem Expects.exists_validFor (h : Expects left n) (hxs : xs <+: left) :
    ∃ i : Item, i.ValidFor xs := by
  induction h with
  | goal =>
    obtain rfl := List.prefix_nil.1 hxs
    exact ⟨_, Expects.validFor_start (r := .goal) .goal⟩
  | @within left r d n hexpects _ ih =>
    have hbody : left ++ r.body.take d <+: left ++ r.body :=
      (List.prefix_append_right_inj left).2 (List.take_prefix d r.body)
    exact (hexpects.prefix_or_validFor (hxs.trans hbody)).elim ih id

/-- **The viable prefixes are the lists that some item fits.** -/
theorem isViablePrefix_iff : IsViablePrefix xs ↔ ∃ i : Item, i.ValidFor xs := by
  constructor
  · rintro ⟨r, left, right, hform, hxs⟩
    have hexpects := expects_iff.2 ⟨right, hform⟩
    exact (hexpects.prefix_or_validFor hxs).elim hexpects.exists_validFor id
  · rintro ⟨i, left, right, hform, -, rfl⟩
    exact ⟨i.rule, left, right, hform,
      (List.prefix_append_right_inj left).2 (List.take_prefix i.dot i.rule.body)⟩

/-! ## Paths -/

namespace Table

/-- The state behind a list of symbols, found by shifts and gotos from state 0
    on. -/
def path? (t : Table) (xs : List Symbol) : Option Nat :=
  xs.foldlM t.next? 0

variable {t : Table} {s k : Nat}

theorem path?_concat (t : Table) (xs : List Symbol) (x : Symbol) :
    t.path? (xs ++ [x]) = (t.path? xs).bind (t.next? · x) := by
  rw [path?, List.foldlM_append]
  simp [path?]

theorem path?_concat_of_next? (h : t.path? xs = some s) (hk : t.next? s x = some k) :
    t.path? (xs ++ [x]) = some k := by
  rw [path?_concat, h]
  exact hk

theorem reached_of_path? (h : t.path? xs = some s) : t.Reached s := by
  rcases List.eq_nil_or_concat xs with rfl | ⟨xs, x, rfl⟩
  · exact .inl (Option.some.inj h).symm
  · rw [List.concat_eq_append, path?_concat] at h
    obtain ⟨s', -, hs⟩ := Option.bind_eq_some_iff.1 h
    exact .inr ⟨s', x, hs⟩

theorem validFor_of_mem_closure {items : List Item} (h : ∀ i ∈ items, i.ValidFor xs) {j : Item}
    (hj : j ∈ closure items) : j.ValidFor xs := by
  obtain ⟨i, hi, hreach⟩ := (mem_closure items j).1 hj
  induction hreach with
  | refl => exact h i hi
  | @step j k hij hstart hpredicts ih =>
    obtain ⟨r, -, rfl⟩ := List.mem_map.1 hstart
    simp only [Item.predicts, Bool.and_eq_true, decide_eq_true_eq] at hpredicts
    exact ((ih ((mem_closure items j).2 ⟨i, hi, hij⟩)).expects hpredicts.2).validFor_start

namespace Lawful

/-- **The items of a state fit what leads to it.** -/
theorem validFor_of_mem (ht : t.Lawful) (h : t.path? xs = some s) (hi : i ∈ t.itemsAt s) :
    i.ValidFor xs := by
  induction xs using List.reverseRecOn generalizing s i with
  | nil =>
    cases h
    rw [ht.start] at hi
    refine validFor_of_mem_closure (fun j hj => ?_) hi
    rw [List.mem_singleton.1 hj]
    exact Expects.validFor_start (r := .goal) .goal
  | append_singleton xs x ih =>
    rw [path?_concat] at h
    obtain ⟨s', hs', hs⟩ := Option.bind_eq_some_iff.1 h
    rw [ht.next hs] at hi
    refine validFor_of_mem_closure (fun j hj => ?_) hi
    obtain ⟨j', hj', hnext, rfl⟩ := mem_moved.1 hj
    exact (ih hs' hj').advance hnext

/-- Along a body the dot moves with the state. -/
theorem exists_path_of_start_mem (ht : t.Lawful) (h : t.path? left = some s)
    (hstart : Item.start r ∈ t.itemsAt s) {d : Nat} (hd : d ≤ r.body.length) :
    ∃ k, t.path? (left ++ r.body.take d) = some k ∧ ⟨r, d⟩ ∈ t.itemsAt k := by
  induction d with
  | zero => exact ⟨s, by simpa using h, hstart⟩
  | succ d ih =>
    obtain ⟨k, hk, hmem⟩ := ih (Nat.le_of_succ_le hd)
    have hnext : Item.next? ⟨r, d⟩ = some r.body[d] := List.getElem?_eq_getElem hd
    obtain ⟨k', hk'⟩ := ht.next_exists hmem hnext
    refine ⟨k', ?_, ht.advance hmem hnext hk'⟩
    rw [List.take_succ_eq_append_getElem hd, ← List.append_assoc]
    exact path?_concat_of_next? hk hk'

/-- Behind what can stand before a nonterminal its rules are started. -/
theorem exists_path_of_expects (ht : t.Lawful) (h : Expects left n) :
    ∃ s, t.path? left = some s ∧ ∀ r : Rule, r.head = n → Item.start r ∈ t.itemsAt s := by
  induction h with
  | goal =>
    refine ⟨0, rfl, fun r hr => ?_⟩
    cases r with
    | goal => exact ht.goal_mem
    | production p => cases p <;> cases hr
  | @within left r d n _ hd ih =>
    obtain ⟨s, hs, hstarts⟩ := ih
    have hlt : d < r.body.length := (List.getElem?_eq_some_iff.1 hd).1
    obtain ⟨k, hk, hmem⟩ := ht.exists_path_of_start_mem hs (hstarts r rfl) (Nat.le_of_lt hlt)
    refine ⟨k, hk, fun r' hr' => ht.start_mem (reached_of_path? hk) hmem ?_⟩
    rw [hr']
    exact hd

/-- **All items that fit a list are in the state behind it.** -/
theorem exists_path (ht : t.Lawful) (h : i.ValidFor xs) :
    ∃ s, t.path? xs = some s ∧ i ∈ t.itemsAt s := by
  obtain ⟨left, hexpects, hdot, rfl⟩ := Item.validFor_iff.1 h
  obtain ⟨s, hs, hstarts⟩ := ht.exists_path_of_expects hexpects
  exact ht.exists_path_of_start_mem hs (hstarts i.rule rfl) hdot

theorem itemsAt_ne_nil (ht : t.Lawful) (h : t.path? xs = some s) : t.itemsAt s ≠ [] := by
  rcases reached_of_path? h with rfl | ⟨s', x, hs⟩
  · exact List.ne_nil_of_mem ht.goal_mem
  · exact ht.next_ne_nil hs

theorem isViablePrefix_iff_path? (ht : t.Lawful) :
    IsViablePrefix xs ↔ ∃ s, t.path? xs = some s := by
  rw [isViablePrefix_iff]
  constructor
  · rintro ⟨i, hi⟩
    obtain ⟨s, hs, -⟩ := ht.exists_path hi
    exact ⟨s, hs⟩
  · rintro ⟨s, hs⟩
    obtain ⟨i, hi⟩ := List.exists_mem_of_ne_nil _ (ht.itemsAt_ne_nil hs)
    exact ⟨i, ht.validFor_of_mem hs hi⟩

theorem mem_itemsAt_iff (ht : t.Lawful) (h : t.path? xs = some s) :
    i ∈ t.itemsAt s ↔ i.ValidFor xs := by
  refine ⟨ht.validFor_of_mem h, fun hi => ?_⟩
  obtain ⟨s', hs', hmem⟩ := ht.exists_path hi
  rwa [Option.some.inj (h.symm.trans hs')]

end Lawful

end Table

/-- **The automaton recognises the viable prefixes.**  From state 0 the shifts
    and gotos of the table lead along a list of symbols if and only if the
    list is a viable prefix, and the items of the state behind it are then
    those that fit the list, and no others. -/
theorem automaton_recognises_viable_prefixes (xs : List Symbol) :
    ((∃ s, Table.standard.path? xs = some s) ↔ IsViablePrefix xs) ∧
    ∀ s, Table.standard.path? xs = some s →
      ∃ items, Table.standard.states[s]? = some items ∧ ∀ i : Item, i ∈ items ↔ i.ValidFor xs := by
  have ht := Table.standard_lawful
  refine ⟨ht.isViablePrefix_iff_path?.symm, fun s hs => ?_⟩
  rcases hitems : Table.standard.states[s]? with _ | items
  · exact absurd (by rw [Table.itemsAt, hitems]; rfl) (ht.itemsAt_ne_nil hs)
  · refine ⟨items, rfl, fun i => ?_⟩
    rw [← ht.mem_itemsAt_iff hs, Table.itemsAt, hitems]
    rfl

/-- Behind a statement and the beginning of an assignment, the assignment may
    end or its expression go on; a closing parenthesis cannot come. -/
theorem automaton_recognises_viable_prefixes_assignment :
    let xs : List Symbol := [Nonterminal.statement, Terminal.semicolon, Terminal.identifier,
      Terminal.assign, Nonterminal.expression]
    IsViablePrefix xs ∧ ¬ IsViablePrefix (xs ++ [.terminal .closeParen]) ∧
      ∀ i : Item, i.ValidFor xs ↔ i = ⟨.production .assignment, 3⟩ ∨
        i = ⟨.production .add, 1⟩ ∨ i = ⟨.production .sub, 1⟩ := by
  intro xs
  have hpath : Table.standard.path? xs = some 18 ∧
      Table.standard.path? (xs ++ [.terminal .closeParen]) = none ∧
      Table.standard.states[18]? = some [⟨.production .assignment, 3⟩, ⟨.production .add, 1⟩,
        ⟨.production .sub, 1⟩] := by
    decide +kernel
  obtain ⟨hviable, hitems⟩ := automaton_recognises_viable_prefixes xs
  obtain ⟨items, hstate, hvalid⟩ := hitems 18 hpath.1
  cases hstate.symm.trans hpath.2.2
  refine ⟨hviable.1 ⟨18, hpath.1⟩, fun h => ?_, fun i => ?_⟩
  · obtain ⟨s, hs⟩ := (automaton_recognises_viable_prefixes _).1.2 h
    cases hs.symm.trans hpath.2.1
  · rw [← hvalid i]
    simp

end Straightline
