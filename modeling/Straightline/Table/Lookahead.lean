/-
  The terminals that a symbol can start with, and those that can follow it.

  No production derives the empty text.  So a symbol starts with what the
  first symbol of one of its bodies starts with, and what follows a
  nonterminal at the end of a body is what follows the head.  Both sets come
  down to reachability.

  * `first`: the terminals that a symbol can start with;
  * `follow`: the terminals that can stand behind a nonterminal.
-/
import Straightline.Grammar
import Straightline.Reach

namespace Straightline

/-- Whether some body for the nonterminal `x` starts with `y`. -/
def startsWith (x y : Symbol) : Bool :=
  Rule.all.any fun r => x = .nonterminal r.head && r.body.head? = some y

/-- The terminals that a symbol can start with, in the order of their names. -/
def first (x : Symbol) : List Terminal :=
  let leading := reach startsWith Symbol.all [x]
  Terminal.all.filter (.terminal · ∈ leading)

/-- Whether `x` ends some body for `y`. -/
def ends (x y : Nonterminal) : Bool :=
  Rule.all.any fun r => r.head = y && r.body.getLast? = some (.nonterminal x)

/-- The symbols that stand next to each other in bodies. -/
def neighbours : List (Symbol × Symbol) :=
  Rule.all.flatMap fun r => r.body.zip r.body.tail

/-- The terminals that stand behind a nonterminal inside a body, or behind the
    goal at the end of the text. -/
def followsDirectly (x : Nonterminal) : List Terminal :=
  let inside := neighbours.filter (·.1 = .nonterminal x)
  (if x = .goal then [.endMark] else []) ++ inside.flatMap fun pair => first pair.2

/-- The terminals that can stand behind a nonterminal, in the order of their
    names. -/
def follow (x : Nonterminal) : List Terminal :=
  let outer := reach ends (.goal :: Nonterminal.all) [x]
  let behind := outer.flatMap followsDirectly
  Terminal.all.filter (· ∈ behind)

end Straightline
