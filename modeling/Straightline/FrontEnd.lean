/-
  The front end: from tokens to instructions.

  One run of the standard table drives the checker and the emitter together;
  each action goes to the checker first.

  * `FrontEnd`: the states of both, and the reductions so far;
  * `FrontEnd.watch`: both as one watcher;
  * `FrontEnd.run`: the run over some tokens and the symbol table that the
    scanner filled.
-/
import Straightline.Emitter
import Straightline.Declarations

namespace Straightline

/-- The states of checker and emitter during a run. -/
structure FrontEnd where
  checker : Checker := {}
  emitter : Emitter := {}
  /-- The productions reduced by, latest first. -/
  reductions : List Production := []
  deriving DecidableEq, Repr

namespace FrontEnd

/-- Why the front end refuses a program. -/
inductive Error where
  /-- The tokens are no program. -/
  | parse (e : ParseError)
  | check (e : CheckError)
  | emit (e : EmitError)
  /-- The run was given up. -/
  | unfinished
  deriving DecidableEq, Repr

/-- The wording of a refusal. -/
def Error.message : Error → String
  | parse e => e.message
  | check e => e.message
  | emit e => e.message
  | unfinished => "no end in sight"

/-- Notes a reduction. -/
def note (f : FrontEnd) : Event → FrontEnd
  | .reduce p => { f with reductions := p :: f.reductions }
  | _ => f

/-- A step of checker or emitter, as a step of the front end. -/
def checkStep (m : Checker.Step Unit) : Attempt Error FrontEnd Unit := do
  let f ← get
  match m.exec f.checker with
  | (.ok _, checker) => set { f with checker := checker }
  | (.error e, checker) =>
    set { f with checker := checker }
    throw (.check e)

@[inherit_doc checkStep]
def emitStep (m : Emitter.Step Unit) : Attempt Error FrontEnd Unit := do
  let f ← get
  match m.exec f.emitter with
  | (.ok _, emitter) => set { f with emitter := emitter }
  | (.error e, emitter) =>
    set { f with emitter := emitter }
    throw (.emit e)

/-- Checker and emitter as one watcher. -/
def watch : Watcher Error FrontEnd := fun r => do
  modify (note · r.event)
  checkStep (Checker.handle r.event)
  emitStep (Emitter.handle r.event)

/-- What the front end makes of a program, and the state it ends in. -/
def run (tokens : List Token) (symbols : Symbols) : Except Error Unit × FrontEnd :=
  let start : FrontEnd := ⟨⟨[], some symbols⟩, {}, []⟩
  let run := Table.standard.run tokens watch start
  match run.finish with
  | .accepted => (.ok (), run.watched)
  | .failed e => (.error (.parse e), run.watched)
  | .stopped e => (.error e, run.watched)
  | .unfinished => (.error .unfinished, run.watched)

end FrontEnd

end Straightline
