/-
  Items: rules with a dot in their bodies, and sets of items.

  An item says how much of a rule's body has been seen.  A set of items is
  kept as a list without repetitions, ordered by rule and dot, so that equal
  sets are equal lists.

  * `Item.next?`: the symbol after the dot;
  * `ItemSet.insert`, `ItemSet.ofList`: building the ordered lists;
  * `closure`: an item set with the starts of all rules whose head can come
    next;
  * `successor`: the closed set after moving the dot over a symbol.
-/
import Straightline.Grammar
import Straightline.Reach

namespace Straightline

/-- A rule with a dot before the symbol at position `dot` of its body. -/
structure Item where
  rule : Rule
  dot : Nat
  deriving DecidableEq, Repr, Inhabited

namespace Item

/-- The symbol after the dot. -/
def next? (i : Item) : Option Symbol :=
  i.rule.body[i.dot]?

/-- Whether the dot is behind the whole body. -/
def isComplete (i : Item) : Bool :=
  i.rule.body.length ≤ i.dot

/-- Items are ordered by the number of the rule, then by the dot. -/
def before (i j : Item) : Bool :=
  i.rule.number < j.rule.number || i.rule.number = j.rule.number && i.dot < j.dot

/-- The item at the start of a rule. -/
def start (r : Rule) : Item :=
  ⟨r, 0⟩

/-- The items at the start of the rules. -/
def starts : List Item :=
  Rule.all.map start

/-- Whether `j` is at the start of a rule for the nonterminal after the dot of
    `i`. -/
def predicts (i j : Item) : Bool :=
  j.dot = 0 && i.next? = some (.nonterminal j.rule.head)

end Item

/-- A set of items: an ordered list without repetitions. -/
abbrev ItemSet := List Item

namespace ItemSet

/-- Puts an item into an ordered list, unless it is there. -/
def insert (i : Item) : ItemSet → ItemSet
  | [] => [i]
  | j :: rest =>
    if i = j then j :: rest
    else if i.before j then i :: j :: rest
    else j :: insert i rest

/-- The set of the items of a list. -/
def ofList (items : List Item) : ItemSet :=
  items.foldr insert []

@[simp] theorem mem_insert (i j : Item) (s : ItemSet) : j ∈ insert i s ↔ j = i ∨ j ∈ s := by
  induction s with
  | nil => simp [insert]
  | cons k rest ih =>
    unfold insert
    split
    · rename_i h
      subst h
      simp
    · split
      · simp
      · rw [List.mem_cons, ih, List.mem_cons]
        constructor
        · rintro (h | h | h)
          · exact .inr (.inl h)
          · exact .inl h
          · exact .inr (.inr h)
        · rintro (h | h | h)
          · exact .inr (.inl h)
          · exact .inl h
          · exact .inr (.inr h)

@[simp] theorem mem_ofList (i : Item) (items : List Item) : i ∈ ofList items ↔ i ∈ items := by
  induction items with
  | nil => simp [ofList]
  | cons j rest ih =>
    rw [show ofList (j :: rest) = insert j (ofList rest) from rfl, mem_insert, ih, List.mem_cons]

end ItemSet

/-- The closure of a set of items: with every item that has a nonterminal
    after its dot, the starts of that nonterminal's rules. -/
def closure (items : List Item) : ItemSet :=
  .ofList (reach Item.predicts Item.starts items)

/-- The items with a symbol after the dot, the dot moved over it. -/
def moved (items : List Item) (symbol : Symbol) : List Item :=
  (items.filter (·.next? = some symbol)).map fun i => ⟨i.rule, i.dot + 1⟩

/-- The closed set of items after a symbol; empty if no item expects it. -/
def successor (items : List Item) (symbol : Symbol) : ItemSet :=
  closure (moved items symbol)

/-- **The closure holds exactly what the items predict.** -/
theorem mem_closure (items : List Item) (j : Item) :
    j ∈ closure items ↔ ∃ i ∈ items, Reachable Item.predicts Item.starts i j := by
  rw [closure, ItemSet.mem_ofList, mem_reach]

end Straightline
