/-
  Closures of sets of items.

  A closure is found by visiting items from a list of work, to which every
  visit adds items not met before.  What comes out is the least set that
  contains the items given and what its own items predict.  So it does not
  matter in which order the work is put down, nor how often an item occurs in
  it.

  * `IsPredictionClosed`: sets with all that their items predict;
  * `ItemSet.pairwise_ofList`: sets of items are kept in order, so that sets
    with the same items are equal lists (`ItemSet.ofList_ext`);
  * `length_reach_le`: how many visits there are;
  * `closure_isLeast`: the closure is the least closed set;
  * `closure_least_in_any_order`: what follows from it.
-/
import Mathlib.Data.List.Sort
import Mathlib.Order.Bounds.Basic
import Straightline.Proofs.TableLaws

namespace Straightline

/-! ## Sets of items as ordered lists -/

theorem Rule.number_injective : Function.Injective Rule.number := by
  rintro (_ | p) (_ | q) h
  · rfl
  · cases q <;> cases h
  · cases p <;> cases h
  · have hnumber : (p.number : Int) = q.number := congrArg Nat.cast h
    have hsame := p.ofNumber?_number
    rw [hnumber, q.ofNumber?_number] at hsame
    rw [Option.some.inj hsame]

namespace Item

variable {i j k : Item}

theorem before_iff : i.before j = true ↔
    i.rule.number < j.rule.number ∨ (i.rule.number = j.rule.number ∧ i.dot < j.dot) := by
  simp [before]

theorem before_trans (hij : i.before j = true) (hjk : j.before k = true) : i.before k = true := by
  rw [before_iff] at *
  omega

/-- Of two items one comes before the other. -/
theorem before_of_not_before (hne : i ≠ j) (h : ¬ i.before j = true) : j.before i = true := by
  rw [before_iff] at *
  rcases Nat.lt_trichotomy i.rule.number j.rule.number with hlt | heq | hlt
  · exact absurd (.inl hlt) h
  · have hdot : i.dot ≠ j.dot := by
      intro hdot
      exact hne (congrArg₂ Item.mk (Rule.number_injective heq) hdot)
    omega
  · exact .inl hlt

instance : Std.Irrefl fun i j : Item => i.before j = true :=
  ⟨fun i h => by rw [before_iff] at h; omega⟩

instance : Std.Antisymm fun i j : Item => i.before j = true :=
  ⟨fun i j hij hji => by rw [before_iff] at hij hji; omega⟩

end Item

namespace ItemSet

variable {items items' : List Item}

theorem pairwise_insert (i : Item) {s : ItemSet}
    (hs : s.Pairwise fun j k => j.before k = true) :
    (insert i s).Pairwise fun j k => j.before k = true := by
  induction s with
  | nil => exact List.pairwise_singleton _ _
  | cons j rest ih =>
    obtain ⟨hj, hrest⟩ := List.pairwise_cons.1 hs
    unfold insert
    split
    · exact hs
    · next hne =>
      split
      · next hbefore =>
        refine List.pairwise_cons.2 ⟨fun k hk => ?_, hs⟩
        rcases List.mem_cons.1 hk with rfl | hk
        · exact hbefore
        · exact Item.before_trans hbefore (hj k hk)
      · next hbefore =>
        refine List.pairwise_cons.2 ⟨fun k hk => ?_, ih hrest⟩
        rcases (mem_insert i k rest).1 hk with rfl | hk
        · exact Item.before_of_not_before hne hbefore
        · exact hj k hk

theorem pairwise_ofList (items : List Item) :
    (ofList items).Pairwise fun j k => j.before k = true := by
  induction items with
  | nil => exact .nil
  | cons i items ih => exact pairwise_insert i ih

/-- **Sets with the same items are equal lists.** -/
theorem ofList_ext (h : ∀ i, i ∈ ofList items ↔ i ∈ ofList items') :
    ofList items = ofList items' :=
  (pairwise_ofList items).eq_of_mem_iff (pairwise_ofList items') h

end ItemSet

/-! ## Closed sets -/

/-- Whether a set of items contains what its items predict: for each nonterminal
    after a dot, the starts of its rules. -/
def IsPredictionClosed (s : Set Item) : Prop :=
  ∀ i ∈ s, ∀ r : Rule, i.next? = some (.nonterminal r.head) → Item.start r ∈ s

/-- Every visit uses up a node of the work or of the pool. -/
theorem length_reach_le {α : Type} (edge : α → α → Bool) (pool work : List α) :
    (reach edge pool work).length ≤ work.length + pool.length := by
  fun_induction reach edge pool work with
  | case1 pool => simp
  | case2 pool a rest ih =>
    have hsplit := length_successors_add_others edge a pool
    simp only [List.length_append, List.length_cons] at ih ⊢
    omega

theorem subset_closure (items : List Item) : items ⊆ closure items :=
  fun i hi => (mem_closure items i).2 ⟨i, hi, .refl⟩

theorem isPredictionClosed_closure (items : List Item) :
    IsPredictionClosed {j | j ∈ closure items} :=
  fun _ hi _ hnext => mem_closure_of_predicts hi hnext

/-- A closed set contains what can be reached from its items. -/
theorem IsPredictionClosed.mem_of_reachable {s : Set Item} (hs : IsPredictionClosed s) {i j : Item}
    (hi : i ∈ s) (h : Reachable Item.predicts Item.starts i j) : j ∈ s := by
  induction h with
  | refl => exact hi
  | @step k j _ hstart hpredicts ih =>
    obtain ⟨r, -, rfl⟩ := List.mem_map.1 hstart
    simp only [Item.predicts, Bool.and_eq_true, decide_eq_true_eq] at hpredicts
    exact hs k ih r hpredicts.2

/-- **The closure is the least closed set** that contains the items. -/
theorem closure_isLeast (items : List Item) :
    IsLeast {s : Set Item | (∀ i ∈ items, i ∈ s) ∧ IsPredictionClosed s}
      {j | j ∈ closure items} := by
  refine ⟨⟨fun i hi => subset_closure items hi, isPredictionClosed_closure items⟩, ?_⟩
  rintro s ⟨hitems, hs⟩ j hj
  obtain ⟨i, hi, hreach⟩ := (mem_closure items j).1 hj
  exact hs.mem_of_reachable (hitems i hi) hreach

section

variable {items items' : List Item}

theorem closure_subset {s : ItemSet} (hitems : items ⊆ s) (hs : IsPredictionClosed {j | j ∈ s}) :
    closure items ⊆ s :=
  fun _ hj => (closure_isLeast items).2 ⟨hitems, hs⟩ hj

/-- More items have a larger closure. -/
theorem closure_mono (h : items ⊆ items') : closure items ⊆ closure items' :=
  closure_subset (fun _ hi => subset_closure items' (h hi)) (isPredictionClosed_closure items')

/-- The order of the work does not matter, nor how often an item occurs in
    it. -/
theorem closure_congr (h : ∀ i, i ∈ items ↔ i ∈ items') : closure items = closure items' :=
  ItemSet.ofList_ext fun _ =>
    ⟨fun hi => closure_mono (fun j hj => (h j).1 hj) hi,
      fun hi => closure_mono (fun j hj => (h j).2 hj) hi⟩

theorem closure_closure (items : List Item) : closure (closure items) = closure items :=
  ItemSet.ofList_ext fun _ =>
    ⟨fun hi => closure_subset (List.Subset.refl _) (isPredictionClosed_closure items) hi,
      fun hi => subset_closure (closure items) hi⟩

/-- The closure of two sets together is the union of their closures. -/
theorem closure_append (items items' : List Item) :
    closure (items ++ items') = ItemSet.ofList (closure items ++ closure items') := by
  refine ItemSet.ofList_ext fun j => ?_
  rw [ItemSet.mem_ofList j (closure items ++ closure items')]
  constructor
  · -- An item that predicts something brings it into the closure that it is in itself.
    refine fun hj => closure_subset ?_ ?_ hj
    · exact List.append_subset.2 ⟨fun i hi => List.mem_append_left _ (subset_closure items hi),
        fun i hi => List.mem_append_right _ (subset_closure items' hi)⟩
    · intro i hi r hnext
      rcases List.mem_append.1 hi with hi | hi
      · exact List.mem_append_left _ (mem_closure_of_predicts hi hnext)
      · exact List.mem_append_right _ (mem_closure_of_predicts hi hnext)
  · intro hj
    rcases List.mem_append.1 hj with hj | hj
    · exact closure_mono (List.subset_append_left items items') hj
    · exact closure_mono (List.subset_append_right items items') hj

end

/-! ## In any order -/

/-- **Closures are least closed sets, in whatever order they are found.**  Let
    any items be put down as work, in any order; their dots may also be behind
    the ends of the bodies.

    * After no more visits than there are items of the work and rules, the
      closure is the least set that contains these items and, with each item
      that has a nonterminal after its dot, the starts of the nonterminal's
      rules.
    * The same items in another order have the same closure.
    * A closure is its own closure; more items have a larger closure; and the
      closure of two sets together is the union of their closures.
    * The set behind any symbol is closed. -/
theorem closure_least_in_any_order (work : List Item) :
    (reach Item.predicts Item.starts work).length ≤ work.length + Item.starts.length ∧
    IsLeast {s : Set Item | (∀ i ∈ work, i ∈ s) ∧ IsPredictionClosed s} {j | j ∈ closure work} ∧
    (∀ work' : List Item, (∀ i, i ∈ work' ↔ i ∈ work) → closure work' = closure work) ∧
    closure (closure work) = closure work ∧
    (∀ more : List Item, work ⊆ more → closure work ⊆ closure more) ∧
    (∀ work' : List Item,
      closure (work ++ work') = ItemSet.ofList (closure work ++ closure work')) ∧
    ∀ x : Symbol, IsPredictionClosed {j | j ∈ successor work x} :=
  ⟨length_reach_le _ _ _, closure_isLeast work, fun _ h => closure_congr h, closure_closure work,
    fun _ h => closure_mono h, closure_append work, fun _ => isPredictionClosed_closure _⟩

/-- Behind the word that returns a value an expression is expected; an item with
    its dot behind the end of the body adds nothing.  The two may be put down
    in either order. -/
theorem closure_least_in_any_order_return :
    let work : List Item := [⟨.production .returnValue, 1⟩, ⟨.production .assignment, 9⟩]
    closure work = [⟨.production .assignment, 9⟩, ⟨.production .returnValue, 1⟩] ++
        ([.add, .sub, .expressionTerm, .mul, .termFactor, .parentheses, .factorName,
          .factorConstant] : List Production).map (.start <| .production ·) ∧
      closure work.reverse = closure work := by
  intro work
  obtain ⟨-, -, horder, -⟩ := closure_least_in_any_order work
  exact ⟨by decide +kernel, horder work.reverse fun i => List.mem_reverse⟩

end Straightline
