/-
  Compilation: from a source text to assembly.

  `compile` is a function of the text alone: it scans, runs the front end and
  lowers, and says how far it got.  What compiling leaves behind on the way,
  log messages and artefacts, is its trail.

  A session carries a trail out: it holds a directory and a log.  Artefacts
  are written into the dump directory, if there is one, and a refused write
  ends the session there.

  * `Compilation`, `compile`: the result for a text, with its trail;
  * `Session`, `Session.follow`: what a trail does to directory and log;
  * `compileText`, `compileFile`: compiling a text or a file in a session,
    with the assembly written to a file if one is named.
-/
import Straightline.Text.Decode
import Straightline.Scanner
import Straightline.FrontEnd
import Straightline.Lowering
import Straightline.Directory

namespace Straightline

/-! ## Results -/

/-- Why a compilation fails. -/
inductive CompileError where
  | read (e : FileError)
  | scan (e : ScanError)
  | frontEnd (e : FrontEnd.Error)
  | lower (e : LowerError)
  | write (e : FileError)
  deriving DecidableEq, Repr

/-- The wording of a failure. -/
def CompileError.message : CompileError → String
  | read e => s!"Failed to read source file: {e.message}"
  | scan e => s!"Lexical analysis failed: {e.message}"
  | frontEnd e => s!"Syntax-directed translation failed: {e.message}"
  | lower e => s!"Code generation failed: {e.message}"
  | write e => s!"Failed to write output file: {e.message}"

/-- The parts of the compiler that log. -/
inductive Part where
  | compiler
  | parser
  | generator
  deriving DecidableEq, Repr

/-- The name under which a part logs. -/
def Part.name : Part → String
  | compiler => "rvcc.compiler"
  | parser => "rvcc.parser"
  | generator => "rvcc.codegen"

/-- A log message. -/
structure LogEntry where
  part : Part
  message : String
  deriving DecidableEq, Repr

/-- A log message as it is written. -/
def LogEntry.text (e : LogEntry) : String :=
  s!"DEBUG:{e.part.name}:{e.message}\n"

/-- What a compilation leaves behind on its way. -/
inductive Trace where
  | log (entry : LogEntry)
  /-- A text for the dump directory; writing it is logged or not. -/
  | artefact (name text : String) (logged : Bool)
  deriving DecidableEq, Repr

/-- How far a compilation got. -/
structure Compilation where
  /-- What went wrong; nothing if it succeeded. -/
  error? : Option CompileError := none
  tokens : List Token := []
  code : List Instruction := []
  assembly : Option String := none
  deriving DecidableEq, Repr

namespace Compilation

/-- Whether a compilation succeeded. -/
def succeeded (c : Compilation) : Bool :=
  c.error?.isNone

/-- A compilation that got nowhere. -/
def failure (e : CompileError) : Compilation :=
  { error? := some e }

end Compilation

/-! ## Compiling a text -/

/-- What is left behind once the tokens are there. -/
def scanTrail (tokens : List Token) (symbols : Symbols) : List Trace :=
  [ .log ⟨.compiler, s!"lexed {tokens.length} tokens"⟩,
    .artefact "tokens.txt" (String.join (tokens.map fun t => t.text ++ "\n")) true,
    .artefact "old_symbol_table.txt" symbols.listing false ]

/-- What is left behind by a run of the front end. -/
def reductionTrail (f : FrontEnd) : List Trace :=
  f.reductions.reverse.map fun p => .log ⟨.parser, s!"reduce {p.text}"⟩

/-- What is left behind once the instructions are there. -/
def codeTrail (f : FrontEnd) : List Trace :=
  let code := f.emitter.instructions
  [ .log ⟨.compiler, s!"generated {code.length} IR instructions"⟩,
    .artefact "new_symbol_table.txt" (f.checker.symbols.getD {}).listing false,
    .artefact "intermediate_code.txt" (Instruction.listing code) true ]

/-- What is left behind by lowering. -/
def registerTrail (l : Lowering) : List Trace :=
  l.notes.reverse.map fun note => .log ⟨.generator, note⟩

/-- What is left behind once the assembly is there. -/
def assemblyTrail (l : Lowering) : List Trace :=
  [.artefact "assembly_language.asm" l.listing true]

/-- Compiles a text. -/
def compile (loadRight : Bool) (source : String) : Compilation × List Trace :=
  match scanText source with
  | .error e => (.failure (.scan e), [])
  | .ok (tokens, symbols) =>
    let scanned := scanTrail tokens symbols
    match FrontEnd.run tokens symbols with
    | (.error e, f) =>
      ({ error? := some (.frontEnd e), tokens := tokens }, scanned ++ reductionTrail f)
    | (.ok _, f) =>
      let code := f.emitter.instructions
      let emitted := scanned ++ reductionTrail f ++ codeTrail f
      match lower loadRight code with
      | (.error e, l) =>
        ({ error? := some (.lower e), tokens := tokens, code := code },
          emitted ++ registerTrail l)
      | (.ok _, l) =>
        ({ tokens := tokens, code := code, assembly := some l.listing },
          emitted ++ registerTrail l ++ assemblyTrail l)

/-! ## Sessions -/

/-- A directory to work in, and the log. -/
structure Session where
  directory : Directory
  /-- The log, latest entry first. -/
  log : List LogEntry := []
  deriving DecidableEq

/-- Why a session ends before the compilation does. -/
inductive Breakdown where
  /-- A file cannot be used, outside of the cases that are results. -/
  | file (e : FileError)
  /-- The source file is not UTF-8. -/
  | notText
  deriving DecidableEq, Repr

/-- The directory for artefacts and the file for the assembly, if any; the
    empty path stands for none. -/
def chosen? (path : Option String) : Option String :=
  path.filter (· ≠ "")

/-- The path of a name in a directory. -/
def joinPath (directory name : String) : String :=
  if directory.toList.getLast? = some '/' then directory ++ name else s!"{directory}/{name}"

namespace Session

/-- A step of a session. -/
abbrev Step := Attempt Breakdown Session

/-- Adds a log entry. -/
def addLog (entry : LogEntry) : Step Unit :=
  modify fun s => { s with log := entry :: s.log }

/-- Writes a text to a file; the refusal, if any. -/
def write (path text : String) : Step (Except FileError Unit) := do
  let s ← get
  match s.directory.write path (Text.encode text) with
  | .ok directory =>
    set { s with directory := directory }
    return .ok ()
  | .error e => return .error e

/-- Writes an artefact into a directory, which is made if need be. -/
def dump (directory name text : String) : Step Unit := do
  let s ← get
  let (refusal, made) := s.directory.makeAll directory
  set { s with directory := made }
  match refusal with
  | some e => throw (.file e)
  | none =>
    match ← write (joinPath directory name) text with
    | .ok _ => pure ()
    | .error e => throw (.file e)

/-- Carries out a part of a trail. -/
def leave (dumpTo : Option String) : Trace → Step Unit
  | .log entry => addLog entry
  | .artefact name text logged =>
    match chosen? dumpTo with
    | none => pure ()
    | some directory => do
      dump directory name text
      if logged then addLog ⟨.compiler, s!"wrote {joinPath directory name}"⟩

/-- Carries out a trail. -/
def follow (dumpTo : Option String) (trail : List Trace) : Step Unit :=
  trail.forM (leave dumpTo)

end Session

/-- How compilations are made. -/
structure CompileOptions where
  /-- Whether right-hand constants of subtractions and multiplications are
      loaded into registers. -/
  loadRight : Bool := false
  /-- The directory for artefacts. -/
  dumpTo : Option String := none
  deriving DecidableEq, Repr

/-- Compiles a text and writes the assembly to a file, if one is named. -/
def compileText (options : CompileOptions) (source : String) (output : Option String) :
    Session.Step Compilation := do
  let (result, trail) := compile options.loadRight source
  Session.follow options.dumpTo trail
  match result.assembly, chosen? output with
  | some assembly, some path =>
    match ← Session.write path assembly with
    | .ok _ => return result
    | .error e@(.refused ..) => return .failure (.write e)
    | .error e => throw (.file e)
  | _, _ => return result

/-- Compiles a file and writes the assembly to a file, if one is named. -/
def compileFile (options : CompileOptions) (path : String) (output : Option String) :
    Session.Step Compilation := do
  match (← get).directory.read path with
  | .error e@(.refused ..) => return .failure (.read e)
  | .error e => throw (.file e)
  | .ok bytes =>
    match Text.decode? bytes with
    | none => throw .notText
    | some source => compileText options source output

end Straightline
