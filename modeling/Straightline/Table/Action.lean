/-
  The actions of a shift/reduce table, and the labels they are filed under.

  * `Action`: shift to a state, reduce by a production, or accept;
  * `Label`: a terminal, or a name that no terminal has.
-/
import Straightline.Grammar

namespace Straightline

/-- What to do in a state on a terminal. -/
inductive Action where
  | shift (state : Nat)
  | reduce (p : Production)
  | accept
  deriving DecidableEq, Repr, Inhabited

/-- An action as messages show it. -/
def Action.description : Action → String
  | shift state => s!"Shift(state={state})"
  | reduce p => s!"Reduce(production={p.description})"
  | accept => "Accept()"

/-- What an action is filed under: a terminal, or a name that no token has.
    Under such a name an action is never taken; it is only listed. -/
inductive Label where
  | terminal (t : Terminal)
  | named (name : String)
  deriving DecidableEq, Repr, Inhabited

namespace Label

/-- The name of a label. -/
def name : Label → String
  | terminal t => t.name
  | named name => name

/-- The label of a given name. -/
def ofName (name : String) : Label :=
  match Terminal.ofName? name with
  | some t => terminal t
  | none => named name

end Label

instance : Coe Terminal Label := ⟨Label.terminal⟩

end Straightline
