/-
  Shift/reduce runs.

  A run reads tokens and keeps a stack of states.  It builds no tree: every
  shift, every reduction and the final acceptance is reported to a watcher
  before the stack changes, and the run stops if the watcher fails.  Behind
  the last token the run reads an end mark at the place of that token.

  * `Report`: an action, with the stack it is taken on;
  * `Table.move`: what a configuration does next;
  * `Table.run`: the whole run with a watcher, and how it ends (`Finish`).
-/
import Straightline.Attempt
import Straightline.Stack
import Straightline.Table

namespace Straightline

/-! ## Reports and endings -/

/-- An action that was taken. -/
inductive Event where
  | shift (token : Token)
  | reduce (p : Production)
  | accept
  deriving DecidableEq, Repr

/-- An action with the stack of states at the moment it is taken, top first. -/
structure Report where
  states : List Nat
  event : Event
  deriving DecidableEq, Repr

/-- The state in which the action is taken. -/
def Report.state (r : Report) : Nat :=
  r.states.headD 0

/-- The number of symbols on the stack: one less than its states. -/
def Report.depth (r : Report) : Nat :=
  r.states.length - 1

/-- Why a run cannot go on by itself. -/
inductive ParseError where
  /-- There are no tokens at all. -/
  | noTokens
  /-- The state has no action for the token; the names it has one for. -/
  | unexpected (token : Token) (expected : List String)
  /-- A reduction took every state off the stack. -/
  | stackEmpty
  /-- The state below a reduction has no goto for the head. -/
  | noGoto (state : Nat) (head : Nonterminal)
  deriving DecidableEq, Repr

namespace ParseError

/-- What is wrong, without the place. -/
def text : ParseError → String
  | noTokens => "Empty token stream"
  | unexpected token expected =>
    let names := ", ".intercalate expected
    s!"Unexpected token {Text.quoted token.kind.name} (expected one of {names})"
  | stackEmpty => "list index out of range"
  | noGoto state head => s!"({state}, {Text.quoted head.name})"

/-- The token at which the run got stuck. -/
def token? : ParseError → Option Token
  | unexpected token _ => some token
  | _ => none

/-- What is wrong, and where. -/
def message (e : ParseError) : String :=
  match e.token? with
  | some token => s!"{e.text} at {token.place.text}"
  | none => e.text

end ParseError

/-! ## Configurations -/

/-- The stack of states, top first, and the tokens still to be read. -/
structure Configuration where
  states : List Nat
  rest : List Token
  deriving DecidableEq, Repr

namespace Configuration

/-- The start of a run. -/
def start (tokens : List Token) : Configuration :=
  ⟨[0], tokens⟩

/-- The number of symbols on the stack: one less than its states. -/
def depth (c : Configuration) : Int :=
  (c.states.length : Int) - 1

end Configuration

/-- What a configuration does next. -/
inductive Move where
  /-- There is no action to take. -/
  | stuck (e : ParseError)
  /-- The text is accepted. -/
  | accept (r : Report)
  /-- An action leads to another configuration. -/
  | step (r : Report) (next : Configuration)
  /-- A reduction finds no state to go to; the configuration it leaves. -/
  | lost (r : Report) (left : Configuration) (e : ParseError)
  deriving DecidableEq, Repr

/-- The end mark that a run reads behind the last of its tokens. -/
def endTokenOf (tokens : List Token) : Token :=
  ⟨.endMark, "", (tokens.getLast?.map Token.place).getD {}⟩

namespace Table

/-- A reduction: the body's states leave the stack and the head's state comes
    on it. -/
def reduceBy (t : Table) (p : Production) (c : Configuration) : Move :=
  match discard p.body.length c.states with
  | [] => .lost ⟨c.states, .reduce p⟩ ⟨[], c.rest⟩ .stackEmpty
  | below :: others =>
    match t.goto? below p.head with
    | none => .lost ⟨c.states, .reduce p⟩ ⟨below :: others, c.rest⟩ (.noGoto below p.head)
    | some state => .step ⟨c.states, .reduce p⟩ ⟨state :: below :: others, c.rest⟩

/-- What a configuration does next, if the end mark `last` stands behind its
    tokens. -/
def move (t : Table) (last : Token) (c : Configuration) : Move :=
  match c.states with
  | [] => .stuck .stackEmpty
  | state :: _ =>
    let token := c.rest.headD last
    match t.action? state token.kind with
    | none => .stuck (.unexpected token (t.expected state))
    | some (.shift next) => .step ⟨c.states, .shift token⟩ ⟨next :: c.states, c.rest.tail⟩
    | some (.reduce p) => t.reduceBy p c
    | some .accept => .accept ⟨c.states, .accept⟩

end Table

/-! ## Runs -/

/-- A watcher: what is done with each report. -/
abbrev Watcher (ε σ : Type) := Report → Attempt ε σ Unit

/-- How a run ends. -/
inductive Finish (ε : Type) where
  | accepted
  /-- The run could not go on. -/
  | failed (e : ParseError)
  /-- The watcher failed. -/
  | stopped (e : ε)
  /-- The run was given up. -/
  | unfinished
  deriving DecidableEq, Repr

/-- The end of a run: how it ended, the depth of the stack left, and the state
    of the watcher. -/
structure Run (ε σ : Type) where
  finish : Finish ε
  depth : Int
  watched : σ
  deriving DecidableEq, Repr

namespace Table

variable {ε σ : Type}

/-- A run of at most `fuel` moves from a configuration. -/
def runFrom (t : Table) (last : Token) (watch : Watcher ε σ) :
    (fuel : Nat) → Configuration → σ → Run ε σ
  | 0, c, s => ⟨.unfinished, c.depth, s⟩
  | fuel + 1, c, s =>
    match t.move last c with
    | .stuck e => ⟨.failed e, c.depth, s⟩
    | .accept r =>
      match (watch r).exec s with
      | (.ok _, s') => ⟨.accepted, c.depth, s'⟩
      | (.error e, s') => ⟨.stopped e, c.depth, s'⟩
    | .step r next =>
      match (watch r).exec s with
      | (.ok _, s') => runFrom t last watch fuel next s'
      | (.error e, s') => ⟨.stopped e, c.depth, s'⟩
    | .lost r left e =>
      match (watch r).exec s with
      | (.ok _, s') => ⟨.failed e, left.depth, s'⟩
      | (.error e', s') => ⟨.stopped e', c.depth, s'⟩

/-- The number of moves after which a run is given up.  It grows with the
    tokens and with the square of the actions, far above what a run needs that
    does not go round in circles. -/
def patience (t : Table) (tokens : List Token) : Nat :=
  (tokens.length + 2) * ((t.actions.length + 2) * (t.actions.length + 2))

/-- The run over some tokens. -/
def run (t : Table) (tokens : List Token) (watch : Watcher ε σ) (s : σ) : Run ε σ :=
  match tokens with
  | [] => ⟨.failed .noTokens, 0, s⟩
  | _ => t.runFrom (endTokenOf tokens) watch (t.patience tokens) (.start tokens) s

end Table

end Straightline
