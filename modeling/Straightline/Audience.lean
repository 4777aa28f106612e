/-
  Audiences: any number of watchers of one run.

  A member of an audience records the reports, emits instructions or checks
  declarations; the checkers share one symbol table.  A report goes to the
  members in order, and the first failure ends it: members before have
  handled the report, those after have not heard of it.

  * `Audience`: the members with the shared symbol table;
  * `Audience.watch`: the audience as one watcher.
-/
import Straightline.Emitter
import Straightline.Declarations

namespace Straightline

/-- A member of an audience. -/
inductive Audience.Member where
  /-- Keeps all reports, latest first. -/
  | recorder (reports : List Report)
  | emitter (e : Emitter)
  | checker (stack : List Checker.Slot)
  deriving DecidableEq, Repr

/-- Watchers of one run. -/
structure Audience where
  members : List Audience.Member
  /-- The symbol table of the run, if there is one. -/
  symbols : Option Symbols := none
  deriving DecidableEq, Repr

namespace Audience

/-- Why an audience fails. -/
inductive Error where
  | emit (e : EmitError)
  | check (e : CheckError)
  deriving DecidableEq, Repr

/-- A report goes to one member. -/
def Member.hear (r : Report) (symbols : Option Symbols) :
    Member → Option Error × Member × Option Symbols
  | recorder reports => (none, recorder (r :: reports), symbols)
  | emitter e =>
    let (failure, e) := (Emitter.handle r.event).outcome e
    (failure.map .emit, emitter e, symbols)
  | checker stack =>
    let (failure, c) := (Checker.handle r.event).outcome ⟨stack, symbols⟩
    (failure.map .check, checker c.stack, c.symbols)

/-- A report goes to some members in order, up to the first failure. -/
def hearAll (r : Report) : Option Symbols → List Member → Option Error × Audience
  | symbols, [] => (none, ⟨[], symbols⟩)
  | symbols, m :: rest =>
    match m.hear r symbols with
    | (some e, m, symbols) => (some e, ⟨m :: rest, symbols⟩)
    | (none, m, symbols) =>
      let (failure, others) := hearAll r symbols rest
      (failure, ⟨m :: others.members, others.symbols⟩)

/-- The audience as one watcher. -/
def watch : Watcher Error Audience := fun r => do
  let a ← get
  let (failure, a) := hearAll r a.symbols a.members
  set a
  match failure with
  | none => pure ()
  | some e => throw e

end Audience

end Straightline
