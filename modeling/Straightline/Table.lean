/-
  The shift/reduce table of the grammar.

  States are closed sets of items.  State 0 is the closure of the goal's rule;
  the others are found breadth first, trying the symbols in the order of their
  names.  A state shifts or goes to the state behind a symbol; where an item
  is complete it reduces on the terminals that can follow the head, and with
  the goal's rule complete it accepts at the end of the text.

  * `Automaton.full`: all states and the moves between them;
  * `Table`: the states with the entries for actions and gotos;
  * `Table.standard`: the table of the grammar;
  * `Table.setAction`: one more entry, unless it contradicts one that is
    there.
-/
import Straightline.Table.Item
import Straightline.Table.Lookahead
import Straightline.Table.Action

namespace Straightline

/-! ## States and moves -/

/-- States found so far, and the moves between them. -/
structure Automaton where
  states : List ItemSet
  moves : List (Nat × Symbol × Nat)
  deriving DecidableEq, Repr

namespace Automaton

/-- Only the state that expects a whole program. -/
def initial : Automaton :=
  ⟨[closure [.start .goal]], []⟩

/-- Adds the move from state `i`, with the given items, over a symbol; the
    state it leads to is new if no state has its items. -/
def addMove (i : Nat) (items : ItemSet) (a : Automaton) (symbol : Symbol) : Automaton :=
  match successor items symbol with
  | [] => a
  | target =>
    match a.states.idxOf? target with
    | some k => ⟨a.states, a.moves ++ [(i, symbol, k)]⟩
    | none => ⟨a.states ++ [target], a.moves ++ [(i, symbol, a.states.length)]⟩

/-- Adds the moves of the states from number `i` on, and those of the states
    they lead to, up to `fuel` states in all. -/
def explore : (fuel i : Nat) → Automaton → Automaton
  | 0, _, a => a
  | fuel + 1, i, a =>
    match a.states[i]? with
    | none => a
    | some items => explore fuel (i + 1) (Symbol.all.foldl (addMove i items) a)

/-- The number of items of the grammar. -/
def itemCount : Nat :=
  Rule.all.foldl (fun n r => n + (r.body.length + 1)) 0

/-- All states and moves.  There are no more states than sets of items. -/
def full : Automaton :=
  explore (Nat.pow 2 itemCount) 0 initial

end Automaton

/-! ## Tables -/

/-- A shift/reduce table. -/
structure Table where
  states : List ItemSet
  /-- The action of a state under a label. -/
  actions : List ((Nat × Label) × Action)
  /-- The state to go to after a reduction to a nonterminal. -/
  gotos : List ((Nat × Nonterminal) × Nat)
  deriving DecidableEq, Repr

/-- Two actions for one state and label. -/
structure Conflict where
  state : Nat
  label : Label
  present : Action
  added : Action
  deriving DecidableEq, Repr

/-- The wording of a conflict. -/
def Conflict.message (c : Conflict) : String :=
  let label := Text.quoted c.label.name
  let actions := s!"{c.present.description} / {c.added.description}"
  s!"grammar conflict in state {c.state} on {label}: {actions}"

namespace Table

/-- The entries for shifts, from the moves over terminals. -/
def shifts (moves : List (Nat × Symbol × Nat)) : List ((Nat × Label) × Action) :=
  moves.filterMap fun
    | (i, .terminal t, k) => some ((i, t), .shift k)
    | (_, .nonterminal _, _) => none

/-- The entries for gotos, from the moves over nonterminals. -/
def jumps (moves : List (Nat × Symbol × Nat)) : List ((Nat × Nonterminal) × Nat) :=
  moves.filterMap fun
    | (_, .terminal _, _) => none
    | (i, .nonterminal n, k) => some ((i, n), k)

/-- The entries of state `i` that a complete item gives. -/
def completions (i : Nat) (item : Item) : List ((Nat × Label) × Action) :=
  if item.isComplete then
    match item.rule with
    | .goal => [((i, .terminal .endMark), .accept)]
    | .production p => (follow p.head).map fun t => ((i, .terminal t), .reduce p)
  else []

/-- The table of the grammar. -/
def standard : Table :=
  let a := Automaton.full
  { states := a.states
    actions := shifts a.moves ++
      a.states.zipIdx.flatMap fun (items, i) => items.flatMap (completions i)
    gotos := jumps a.moves }

/-- The action of a state under a label. -/
def action? (t : Table) (state : Nat) (label : Label) : Option Action :=
  t.actions.lookup (state, label)

/-- The state to go to from a state with a nonterminal. -/
def goto? (t : Table) (state : Nat) (n : Nonterminal) : Option Nat :=
  t.gotos.lookup (state, n)

/-- The actions of a state, in the order of their labels' names. -/
def actionsOf (t : Table) (state : Nat) : List (Label × Action) :=
  let entries := (t.actions.filter (·.1.1 = state)).map fun e => (e.1.2, e.2)
  entries.mergeSort fun a b => decide (a.1.name ≤ b.1.name)

/-- The gotos of a state, in the order of the nonterminals' names. -/
def gotosOf (t : Table) (state : Nat) : List (Nonterminal × Nat) :=
  let entries := (t.gotos.filter (·.1.1 = state)).map fun e => (e.1.2, e.2)
  entries.mergeSort fun a b => decide (a.1.name ≤ b.1.name)

/-- The names under which a state has an action, in order. -/
def expected (t : Table) (state : Nat) : List String :=
  (t.actionsOf state).map (·.1.name)

/-- Enters an action, unless another one is there. -/
def setAction (t : Table) (state : Nat) (label : Label) (action : Action) :
    Except Conflict Table :=
  match t.action? state label with
  | none => .ok { t with actions := t.actions ++ [((state, label), action)] }
  | some present =>
    if present = action then .ok t else .error ⟨state, label, present, action⟩

end Table

end Straightline
