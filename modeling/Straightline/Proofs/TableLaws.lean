/-
  The laws of the table.

  A run is driven by single look-ups.  The laws say what these look-ups mean
  in terms of the items of the states: a shift or a goto leads to the state
  behind its symbol, a reduction is made where a rule is complete and a
  terminal comes that can follow its head, and no item is left without the
  entries it asks for.

  * `mem_closure_of_predicts`, `eq_start_of_mem_closure`: what a closure
    contains, and where its items come from;
  * `Table.Lawful`: the laws;
  * `Table.standard_lawful`: the table of the grammar obeys them.  States and
    entries are finite in number, so this is settled by evaluation.
-/
import Straightline.Proofs.Lookahead

namespace Straightline

/-! ## Items -/

/-- The item behind the whole body of a rule. -/
def Item.complete (r : Rule) : Item :=
  ⟨r, r.body.length⟩

theorem Item.next?_complete (r : Rule) : (Item.complete r).next? = none :=
  List.getElem?_eq_none_iff.2 (Nat.le_refl _)

/-- With an item, a closure contains the starts of the rules it predicts. -/
theorem mem_closure_of_predicts {items : List Item} {i : Item} {r : Rule} (hi : i ∈ closure items)
    (hnext : i.next? = some (.nonterminal r.head)) : Item.start r ∈ closure items := by
  obtain ⟨k, hk, hreach⟩ := (mem_closure items i).1 hi
  have hstart : Item.start r ∈ Item.starts := List.mem_map_of_mem r.mem_all
  have hpredicts : i.predicts (.start r) = true := by simp [Item.predicts, Item.start, hnext]
  exact (mem_closure items _).2 ⟨k, hk, hreach.step hstart hpredicts⟩

/-- An item of a closure was there before, or another one predicts it. -/
theorem eq_start_of_mem_closure {items : List Item} {j : Item} (hj : j ∈ closure items) :
    j ∈ items ∨
      ∃ r, j = Item.start r ∧ ∃ i ∈ closure items, i.next? = some (.nonterminal r.head) := by
  obtain ⟨k, hk, hreach⟩ := (mem_closure items j).1 hj
  cases hreach with
  | refl => exact .inl hk
  | @step i _ hki hstart hpredicts =>
    obtain ⟨r, -, rfl⟩ := List.mem_map.1 hstart
    simp only [Item.predicts, Bool.and_eq_true, decide_eq_true_eq] at hpredicts
    exact .inr ⟨r, rfl, i, (mem_closure items i).2 ⟨k, hk, hki⟩, hpredicts.2⟩

theorem Rule.endMark_notMem_body (r : Rule) : Symbol.terminal .endMark ∉ r.body := by
  cases r with
  | goal => decide
  | production p => cases p <;> decide

theorem mem_moved {items : List Item} {x : Symbol} {j : Item} :
    j ∈ moved items x ↔ ∃ i ∈ items, i.next? = some x ∧ j = ⟨i.rule, i.dot + 1⟩ := by
  simp only [moved, List.mem_map, List.mem_filter, decide_eq_true_eq]
  constructor
  · rintro ⟨i, ⟨hi, hnext⟩, rfl⟩
    exact ⟨i, hi, hnext, rfl⟩
  · rintro ⟨i, hi, hnext, rfl⟩
    exact ⟨i, ⟨hi, hnext⟩, rfl⟩

theorem mem_successor {items : List Item} {x : Symbol} {i : Item} (hi : i ∈ items)
    (hnext : i.next? = some x) : ⟨i.rule, i.dot + 1⟩ ∈ successor items x :=
  (mem_closure _ _).2 ⟨_, mem_moved.2 ⟨i, hi, hnext, rfl⟩, .refl⟩

/-- An item behind some symbol was before that symbol in the state below. -/
theorem mem_of_mem_successor {items : List Item} {x : Symbol} {r : Rule} {d : Nat}
    (h : ⟨r, d + 1⟩ ∈ successor items x) : ⟨r, d⟩ ∈ items ∧ r.body[d]? = some x := by
  rcases eq_start_of_mem_closure h with hmoved | ⟨_, hstart, -⟩
  · obtain ⟨i, hi, hnext, heq⟩ := mem_moved.1 hmoved
    simp only [Item.mk.injEq, Nat.add_right_cancel_iff] at heq
    obtain ⟨rfl, rfl⟩ := heq
    exact ⟨hi, hnext⟩
  · simp [Item.start] at hstart

/-! ## The laws -/

namespace Table

/-- The items of a state. -/
def itemsAt (t : Table) (state : Nat) : ItemSet :=
  (t.states[state]?).getD []

/-- The state behind a symbol: where a shift or a goto leads. -/
def next? (t : Table) (state : Nat) : Symbol → Option Nat
  | .terminal a =>
    match t.action? state a with
    | some (.shift k) => some k
    | _ => none
  | .nonterminal n => t.goto? state n

/-- Whether a state is the first one or behind some symbol. -/
def Reached (t : Table) (state : Nat) : Prop :=
  state = 0 ∨ ∃ s x, t.next? s x = some state

/-- The meaning of the entries of a table. -/
structure Lawful (t : Table) : Prop where
  start : t.itemsAt 0 = closure [.start .goal]
  next : ∀ {s x k}, t.next? s x = some k → t.itemsAt k = successor (t.itemsAt s) x
  next_ne_nil : ∀ {s x k}, t.next? s x = some k → t.itemsAt k ≠ []
  reduce : ∀ {s : Nat} {a : Terminal} {p}, t.action? s a = some (.reduce p) →
    .complete (.production p) ∈ t.itemsAt s ∧ a ∈ follow p.head
  accept : ∀ {s : Nat} {a : Terminal}, t.action? s a = some .accept →
    .complete .goal ∈ t.itemsAt s ∧ a = .endMark
  next_exists : ∀ {s i x}, i ∈ t.itemsAt s → i.next? = some x → ∃ k, t.next? s x = some k
  reduce_exists : ∀ {s : Nat} {a : Terminal} {p}, .complete (.production p) ∈ t.itemsAt s →
    a ∈ follow p.head → t.action? s a = some (.reduce p)
  accept_exists : ∀ {s : Nat}, .complete .goal ∈ t.itemsAt s →
    t.action? s (.terminal .endMark) = some .accept

theorem action?_eq_shift_iff {t : Table} {s k : Nat} {a : Terminal} :
    t.action? s a = some (.shift k) ↔ t.next? s (.terminal a) = some k := by
  unfold next?
  constructor
  · intro h
    simp only [h]
  · intro h
    dsimp only at h
    split at h
    · rename_i k' hshift
      rw [hshift, Option.some.inj h]
    · cases h

namespace Lawful

variable {t : Table} {s k d : Nat} {x : Symbol} {i : Item} {r : Rule}

theorem goal_mem (ht : t.Lawful) : Item.start .goal ∈ t.itemsAt 0 := by
  rw [ht.start]
  exact (mem_closure _ _).2 ⟨_, List.mem_singleton_self _, .refl⟩

/-- The dot moves over the symbol that leads to a state. -/
theorem advance (ht : t.Lawful) (hi : i ∈ t.itemsAt s) (hnext : i.next? = some x)
    (hk : t.next? s x = some k) : ⟨i.rule, i.dot + 1⟩ ∈ t.itemsAt k := by
  rw [ht.next hk]
  exact mem_successor hi hnext

/-- The dot moves back over the symbol that leads to a state. -/
theorem retreat (ht : t.Lawful) (hk : t.next? s x = some k) (h : ⟨r, d + 1⟩ ∈ t.itemsAt k) :
    ⟨r, d⟩ ∈ t.itemsAt s ∧ r.body[d]? = some x := by
  rw [ht.next hk] at h
  exact mem_of_mem_successor h

/-- The items of a state that can be reached are a closure of items none of
    which is at the start of its rule, but for the goal's rule in state 0. -/
theorem exists_kernel (ht : t.Lawful) (hs : t.Reached s) :
    ∃ kernel, t.itemsAt s = closure kernel ∧
      ∀ r, Item.start r ∈ kernel → s = 0 ∧ r = .goal := by
  rcases hs with rfl | ⟨s', x, hs⟩
  · refine ⟨_, ht.start, fun r hr => ⟨rfl, ?_⟩⟩
    simpa [Item.start] using hr
  · refine ⟨_, ht.next hs, fun r hr => ?_⟩
    obtain ⟨i, -, -, heq⟩ := mem_moved.1 hr
    simp [Item.start] at heq

/-- Where a nonterminal is expected, its rules are started. -/
theorem start_mem (ht : t.Lawful) (hs : t.Reached s) (hi : i ∈ t.itemsAt s)
    (hnext : i.next? = some (.nonterminal r.head)) : Item.start r ∈ t.itemsAt s := by
  obtain ⟨kernel, hclosure, -⟩ := ht.exists_kernel hs
  rw [hclosure] at hi ⊢
  exact mem_closure_of_predicts hi hnext

/-- A rule is started where its head is expected; the goal's rule is started
    in state 0 only. -/
theorem expected_of_start_mem (ht : t.Lawful) (hs : t.Reached s) (h : Item.start r ∈ t.itemsAt s) :
    (s = 0 ∧ r = .goal) ∨ ∃ i ∈ t.itemsAt s, i.next? = some (.nonterminal r.head) := by
  obtain ⟨kernel, hclosure, hkernel⟩ := ht.exists_kernel hs
  rw [hclosure] at h ⊢
  rcases eq_start_of_mem_closure h with hmem | ⟨r', heq, hpredicted⟩
  · exact .inl (hkernel r hmem)
  · cases heq
    exact .inr hpredicted

/-- State 0 is behind no symbol. -/
theorem next?_ne_zero (ht : t.Lawful) (s : Nat) (x : Symbol) : t.next? s x ≠ some 0 := by
  intro hk
  have hgoal := ht.goal_mem
  rw [ht.next hk] at hgoal
  rcases eq_start_of_mem_closure hgoal with hmoved | ⟨r, hstart, i, -, hnext⟩
  · obtain ⟨i, -, -, heq⟩ := mem_moved.1 hmoved
    simp [Item.start] at heq
  · cases hstart
    exact i.rule.goal_notMem_body (List.mem_of_getElem? hnext)

/-- No state is behind a symbol that no item expects. -/
theorem expected_of_next (ht : t.Lawful) (hk : t.next? s x = some k) :
    ∃ i ∈ t.itemsAt s, i.next? = some x := by
  obtain ⟨j, hj⟩ := List.exists_mem_of_ne_nil _ (ht.next_ne_nil hk)
  rw [ht.next hk] at hj
  obtain ⟨j, hmoved, -⟩ := (mem_closure _ _).1 hj
  obtain ⟨i, hi, hnext, -⟩ := mem_moved.1 hmoved
  exact ⟨i, hi, hnext⟩

theorem next?_endMark (ht : t.Lawful) (s : Nat) : t.next? s (.terminal .endMark) = none := by
  rcases hk : t.next? s (.terminal .endMark) with _ | k
  · rfl
  · obtain ⟨i, -, hnext⟩ := ht.expected_of_next hk
    exact absurd (List.mem_of_getElem? hnext) i.rule.endMark_notMem_body

end Lawful

/-! ## The table of the grammar -/

/-- Whether an entry for an action says what the items of the states say. -/
def explains (t : Table) : (Nat × Label) × Action → Bool
  | ((s, .terminal a), .shift k) =>
    t.itemsAt k = successor (t.itemsAt s) (.terminal a) && t.itemsAt k ≠ []
  | ((s, .terminal a), .reduce p) =>
    .complete (.production p) ∈ t.itemsAt s && a ∈ follow p.head
  | ((s, .terminal a), .accept) => .complete .goal ∈ t.itemsAt s && a = .endMark
  | ((_, .named _), _) => true

/-- Whether the entries that an item asks for are there. -/
def serves (t : Table) (s : Nat) (i : Item) : Bool :=
  match i.next?, i.rule with
  | some x, _ => (t.next? s x).isSome
  | none, .production p => (follow p.head).all fun a => t.action? s a = some (.reduce p)
  | none, .goal => t.action? s (.terminal .endMark) = some .accept

/-- Whether all entries of a table are explained and all its items served. -/
def Checked (t : Table) : Prop :=
  t.itemsAt 0 = closure [.start .goal] ∧ (∀ entry ∈ t.actions, t.explains entry = true) ∧
    (∀ entry ∈ t.gotos,
      t.itemsAt entry.2 = successor (t.itemsAt entry.1.1) (.nonterminal entry.1.2) ∧
        t.itemsAt entry.2 ≠ []) ∧
    ∀ s < t.states.length, ∀ i ∈ t.itemsAt s, t.serves s i = true

instance (t : Table) : Decidable t.Checked := by
  unfold Checked
  infer_instance

theorem standard_checked : standard.Checked := by
  decide +kernel

theorem mem_of_lookup {α β : Type} [BEq α] [LawfulBEq α] {key : α} {value : β}
    {entries : List (α × β)} (h : entries.lookup key = some value) : (key, value) ∈ entries := by
  obtain ⟨before, after, rfl, -⟩ := List.lookup_eq_some_iff.1 h
  simp

theorem lt_length_of_mem_itemsAt {t : Table} {s : Nat} {i : Item} (hi : i ∈ t.itemsAt s) :
    s < t.states.length := by
  unfold itemsAt at hi
  rcases hs : t.states[s]? with _ | items
  · rw [hs] at hi
    cases hi
  · exact (List.getElem?_eq_some_iff.1 hs).1

section

variable {t : Table} {s k : Nat} {a : Terminal} {x : Symbol} {i : Item} {p : Production}

theorem Checked.explains_of_action? (ht : t.Checked) {action : Action}
    (h : t.action? s a = some action) : t.explains ((s, .terminal a), action) = true :=
  ht.2.1 _ (mem_of_lookup h)

theorem Checked.serves_of_mem (ht : t.Checked) (hi : i ∈ t.itemsAt s) : t.serves s i = true :=
  ht.2.2.2 s (lt_length_of_mem_itemsAt hi) i hi

theorem Checked.next (ht : t.Checked) (h : t.next? s x = some k) :
    t.itemsAt k = successor (t.itemsAt s) x ∧ t.itemsAt k ≠ [] := by
  cases x with
  | terminal a =>
    simpa [explains] using ht.explains_of_action? (action?_eq_shift_iff.2 h)
  | nonterminal n => exact ht.2.2.1 _ (mem_of_lookup h)

theorem Checked.serves_complete (ht : t.Checked) {r : Rule} (h : .complete r ∈ t.itemsAt s) :
    match r with
    | .production p => ∀ a ∈ follow p.head, t.action? s (.terminal a) = some (.reduce p)
    | .goal => t.action? s (.terminal .endMark) = some .accept := by
  have hserves := ht.serves_of_mem h
  rw [serves, Item.next?_complete] at hserves
  cases r with
  | goal => simpa [Item.complete] using hserves
  | production p => simpa [Item.complete] using hserves

end

/-- A table whose entries are explained and whose items are served obeys the
    laws. -/
theorem Checked.lawful {t : Table} (ht : t.Checked) : t.Lawful where
  start := ht.1
  next h := (ht.next h).1
  next_ne_nil h := (ht.next h).2
  reduce h := by simpa [explains] using ht.explains_of_action? h
  accept h := by simpa [explains] using ht.explains_of_action? h
  next_exists {s i x} hi hnext := by
    have hserves := ht.serves_of_mem hi
    rw [serves, hnext] at hserves
    exact Option.isSome_iff_exists.1 hserves
  reduce_exists h ha := ht.serves_complete h _ ha
  accept_exists h := ht.serves_complete h

/-- **The table of the grammar obeys the laws.** -/
theorem standard_lawful : standard.Lawful :=
  standard_checked.lawful

end Table

end Straightline
