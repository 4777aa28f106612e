/-
  The command line.

  A command line is a list of arguments: options, which start with a dash, and
  the source file.  Options may stand anywhere.  A long option may be cut
  short as long as it stays unambiguous and may carry its value behind an
  equals sign; short options may be bundled, and the last of a bundle may
  carry its value.  Behind the argument `--` there are no options.

  * `Reading`, `reading`: what a single argument is meant to be;
  * `Bundle`, `unbundle`: the options in one argument;
  * `Invocation`, `invocation`: what a whole command line asks for;
  * `execute`: what is printed, and how the program ends.
-/
import Straightline.Text.Digit
import Straightline.Compilation

namespace Straightline.CommandLine

/-! ## Options -/

/-- The options. -/
inductive Flag where
  | help
  | output
  | dumpTo
  | loadRight
  | verbose
  deriving DecidableEq, Repr, Inhabited

namespace Flag

/-- The spellings of the options, in the order in which they are listed. -/
def spellings : List (String × Flag) :=
  [("-h", help), ("--help", help), ("-o", output), ("--dump-dir", dumpTo),
    ("--materialize-rhs-imm", loadRight), ("-v", verbose), ("--verbose", verbose)]

/-- The option of a given spelling. -/
def ofSpelling? (text : String) : Option Flag :=
  spellings.lookup text

/-- Whether an option has a value. -/
def hasValue : Flag → Bool
  | output | dumpTo => true
  | help | loadRight | verbose => false

/-- An option with all its spellings. -/
def title (f : Flag) : String :=
  "/".intercalate ((spellings.filter (·.2 = f)).map (·.1))

end Flag

/-- What is wrong with a command line. -/
inductive Complaint where
  /-- An argument that may be cut short from several options. -/
  | ambiguous (argument : String) (spellings : List String)
  /-- An option lacks its value. -/
  | noValue (flag : Flag)
  /-- An option that has no value is given one. -/
  | unwantedValue (flag : Flag) (value : String)
  /-- The source file is not named. -/
  | noSource
  /-- Arguments for which there is no use. -/
  | unrecognized (arguments : List String)
  deriving DecidableEq, Repr

/-- The wording of a complaint. -/
def Complaint.message : Complaint → String
  | ambiguous argument spellings =>
    let matching := ", ".intercalate spellings
    s!"ambiguous option: {argument} could match {matching}"
  | noValue flag => s!"argument {flag.title}: expected one argument"
  | unwantedValue flag value =>
    s!"argument {flag.title}: ignored explicit argument {Text.quoted value}"
  | noSource => "the following arguments are required: source"
  | unrecognized arguments =>
    let listed := " ".intercalate arguments
    s!"unrecognized arguments: {listed}"

/-! ## Single arguments -/

/-- What an argument is meant to be. -/
inductive Reading where
  /-- No option. -/
  | plain
  /-- The argument `--`. -/
  | divider
  /-- An option, long or short, with what is attached to it: the text behind
      an equals sign, or directly behind a short option. -/
  | option (flag : Flag) (long : Bool) (attached : Option (List Char))
  /-- It looks like an option, but there is none like it. -/
  | unknown
  deriving DecidableEq, Repr

/-- Whether an argument is a negative number: a dash, then digits, or a
    fraction with a point.  One line end behind it does not count. -/
def isNegativeNumber (argument : List Char) : Bool :=
  match argument with
  | '-' :: rest =>
    let number := if rest.getLast? = some '\n' then rest.dropLast else rest
    let whole := number.takeWhile Text.isScriptDigit
    match number.dropWhile Text.isScriptDigit with
    | [] => !whole.isEmpty
    | '.' :: fraction => !fraction.isEmpty && fraction.all Text.isScriptDigit
    | _ => false
  | _ => false

/-- What stands before and, if there is one, behind the first equals sign. -/
def splitAssigned (argument : List Char) : List Char × Option (List Char) :=
  match argument.dropWhile (· ≠ '=') with
  | [] => (argument, none)
  | _ :: value => (argument.takeWhile (· ≠ '='), some value)

/-- The options that an argument may be meant to be, which is itself the
    spelling of none. -/
def candidates (argument : List Char) : List (String × Flag × Option (List Char)) :=
  match argument with
  | '-' :: '-' :: _ =>
    let (start, attached) := splitAssigned argument
    (Flag.spellings.filter fun entry => start.isPrefixOf entry.1.toList).map fun entry =>
      (entry.1, entry.2, attached)
  | '-' :: c :: value =>
    (Flag.spellings.filter fun entry => entry.1.toList = ['-', c]).map fun entry =>
      (entry.1, entry.2, some value)
  | _ => []

/-- Whether a spelling is that of a long option. -/
def isLong (spelling : String) : Bool :=
  spelling.toList.take 2 = ['-', '-']

/-- What an argument is meant to be, if options are still possible. -/
def reading (argument : String) : Except Complaint Reading :=
  let chars := argument.toList
  if argument = "--" then .ok .divider
  else if chars.head? ≠ some '-' then .ok .plain
  else if let some flag := Flag.ofSpelling? argument then
    .ok (.option flag (isLong argument) none)
  else if chars.length = 1 then .ok .plain
  else
    let (start, attached) := splitAssigned chars
    match attached, Flag.ofSpelling? (String.ofList start) with
    | some value, some flag => .ok (.option flag (isLong argument) (some value))
    | _, _ =>
      match candidates chars with
      | [(spelling, flag, attached)] => .ok (.option flag (isLong spelling) attached)
      | [] =>
        if isNegativeNumber chars || chars.contains ' ' then .ok .plain else .ok .unknown
      | several => .error (.ambiguous argument (several.map (·.1)))

/-- The arguments with what each is meant to be.  Behind the divider all are
    plain. -/
def readings : List String → Except Complaint (List (String × Reading))
  | [] => .ok []
  | argument :: rest =>
    match reading argument with
    | .error complaint => .error complaint
    | .ok .divider => .ok ((argument, .divider) :: rest.map (·, .plain))
    | .ok r => (readings rest).map ((argument, r) :: ·)

/-! ## Bundles -/

/-- The options of one argument. -/
structure Bundle where
  /-- Options without value, in order. -/
  switches : List Flag := []
  /-- An option with its value. -/
  valued : Option (Flag × String) := none
  /-- An option whose value is the next argument. -/
  open? : Option Flag := none
  deriving DecidableEq, Repr

/-- Puts an option without value before the others. -/
def Bundle.cons (flag : Flag) (b : Bundle) : Bundle :=
  { b with switches := flag :: b.switches }

/-- The bundle of a single option with nothing attached. -/
def Bundle.single (flag : Flag) : Bundle :=
  if flag.hasValue then { open? := some flag } else { switches := [flag] }

/-- The value that an attached text gives to an option.  A divider gives the
    empty one. -/
def attachedValue (attached : List Char) : String :=
  if attached = ['-', '-'] then "" else String.ofList attached

/-- The short option that goes on behind an option, if any: none does behind a
    long one. -/
def nextShort? (long : Bool) (c : Char) : Option Flag :=
  if long then none else Flag.ofSpelling? (String.ofList ['-', c])

/-- The options in an option with something attached: its value, or further
    short options behind a short one that has no value. -/
def unbundle (flag : Flag) (long : Bool) (attached : List Char) : Except Complaint Bundle :=
  if flag.hasValue then .ok { valued := some (flag, attachedValue attached) }
  else
    match attached with
    | [] => .error (.unwantedValue flag "")
    | c :: rest =>
      match nextShort? long c with
      | none => .error (.unwantedValue flag (String.ofList (c :: rest)))
      | some next =>
        if rest.isEmpty then .ok (.cons flag (.single next))
        else (unbundle next false rest).map (.cons flag)

/-- The options in one argument. -/
def bundleOf (flag : Flag) (long : Bool) : Option (List Char) → Except Complaint Bundle
  | none => .ok (.single flag)
  | some attached => unbundle flag long attached

/-! ## Whole command lines -/

/-- What a command line settles. -/
structure Arguments where
  source : Option String := none
  output : Option String := none
  dumpTo : Option String := none
  loadRight : Bool := false
  verbose : Bool := false
  deriving DecidableEq, Repr

/-- What a command line asks for. -/
inductive Invocation where
  /-- Compile a file. -/
  | compile (source : String) (arguments : Arguments)
  /-- Show the help. -/
  | help
  /-- Complain. -/
  | complain (c : Complaint)
  deriving DecidableEq, Repr

/-- Takes an option into account; the help option ends everything. -/
def Arguments.set (a : Arguments) (flag : Flag) (value : String) : Option Arguments :=
  match flag with
  | .help => none
  | .output => some { a with output := some value }
  | .dumpTo => some { a with dumpTo := some value }
  | .loadRight => some { a with loadRight := true }
  | .verbose => some { a with verbose := true }

/-- Takes the options of a bundle into account, with the next argument as the
    value of an open one. -/
def Arguments.setAll (a : Arguments) (b : Bundle) (next : String) : Option Arguments :=
  let valued := b.valued.toList ++ b.open?.toList.map (·, next)
  (b.switches.map (·, "") ++ valued).foldlM (fun a entry => a.set entry.1 entry.2) a

/-- The end of a command line. -/
def conclude (a : Arguments) (unused : List String) : Invocation :=
  match a.source, unused with
  | none, _ => .complain .noSource
  | some source, [] => .compile source a
  | some _, unused => .complain (.unrecognized unused)

/-- Goes through arguments from left to right.  The first plain argument is
    the source; `unused` collects what has no use, and `atSource` says that
    the last argument was the source, so that a divider behind it belongs to
    it. -/
def collect (a : Arguments) (unused : List String) (atSource : Bool) :
    List (String × Reading) → Invocation
  | [] => conclude a unused
  | (text, r) :: rest =>
    match r with
    | .plain =>
      if a.source.isNone then collect { a with source := some text } unused true rest
      else collect a (unused ++ [text]) false rest
    | .divider =>
      if a.source.isNone || atSource then collect a unused false rest
      else collect a (unused ++ [text]) false rest
    | .unknown => collect a (unused ++ [text]) false rest
    | .option flag long attached =>
      match bundleOf flag long attached with
      | .error complaint => .complain complaint
      | .ok bundle =>
        match bundle.open? with
        | none =>
          match a.setAll bundle "" with
          | none => .help
          | some a => collect a unused false rest
        | some waiting =>
          match rest with
          | (value, .plain) :: rest =>
            match a.setAll bundle value with
            | none => .help
            | some a => collect a unused false rest
          | _ => .complain (.noValue waiting)

/-- What a command line asks for. -/
def invocation (arguments : List String) : Invocation :=
  match readings arguments with
  | .error complaint => .complain complaint
  | .ok readings => collect {} [] false readings

/-! ## Running -/

/-- How the program is used. -/
def usage : String :=
  "usage: rvcc [-h] [-o OUTPUT] [--dump-dir DUMP_DIR] [--materialize-rhs-imm]\n" ++
  "            [-v]\n" ++
  "            source\n"

/-- The help. -/
def help : String :=
  usage ++
  "\n" ++
  "Compile a tiny integer language to RISC-V assembly\n" ++
  "\n" ++
  "positional arguments:\n" ++
  "  source                Input source file\n" ++
  "\n" ++
  "options:\n" ++
  "  -h, --help            show this help message and exit\n" ++
  "  -o OUTPUT             Output assembly file (default: stdout)\n" ++
  "  --dump-dir DUMP_DIR   Write tokens, symbol tables, IR and assembly into this\n" ++
  "                        directory\n" ++
  "  --materialize-rhs-imm\n" ++
  "                        Load right-hand immediates of sub/mul into a register\n" ++
  "                        instead of emitting them literally\n" ++
  "  -v, --verbose         Enable debug logging\n"

/-- The capital of a letter of a level's name.  Among the letters beyond ASCII
    only the long s has one that occurs in the names. -/
def capital (c : Char) : Char :=
  if c = 'ſ' then 'S' else c.toUpper

/-- Whether the log is shown: with the verbose option, or at a level that lets
    every message through. -/
def showsLog (verbose : Bool) (level : Option String) : Bool :=
  let name := level.map fun text => String.ofList (text.toList.map capital)
  verbose || name = some "DEBUG" || name = some "NOTSET"

/-- How the program ends, and what it prints. -/
structure Ending where
  /-- The exit code, or what broke the program off. -/
  code : Except Breakdown Nat
  out : String := ""
  err : String := ""

/-- What is printed about a compilation. -/
def report (output : Option String) (c : Compilation) : Ending :=
  match c.error? with
  | some e => { code := .ok 1, out := s!"Error: {e.message}\n" }
  | none =>
    match chosen? output with
    | some path => { code := .ok 0, out := s!"Done: {path}\n" }
    | none => { code := .ok 0, out := c.assembly.getD "" }

/-- Runs a command line in a directory, at a log level. -/
def execute (arguments : List String) (level : Option String) (directory : Directory) :
    Ending × Directory :=
  match invocation arguments with
  | .help => ({ code := .ok 0, out := help }, directory)
  | .complain c =>
    ({ code := .ok 2, err := s!"{usage}rvcc: error: {c.message}\n" }, directory)
  | .compile source a =>
    let options : CompileOptions := ⟨a.loadRight, a.dumpTo⟩
    let (result, session) := (compileFile options source a.output).exec ⟨directory, []⟩
    let ending := match result with
      | .ok c => report a.output c
      | .error b => { code := .error b }
    let log := String.join (session.log.reverse.map LogEntry.text)
    ({ ending with err := if showsLog a.verbose level then log else "" }, session.directory)

end Straightline.CommandLine
