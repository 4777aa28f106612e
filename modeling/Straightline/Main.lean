/-
  The program.

  The files that a command line names are loaded into a directory, the command
  line is executed on it, and what has changed is stored.

  * `load`, `store`: between the file system and a `Directory`;
  * `main`.
-/
import Straightline.CommandLine

namespace Straightline

/-- The path of a location in the file system. -/
def Location.systemPath (l : Location) : String :=
  match l.base with
  | .above levels => "/".intercalate ("." :: List.replicate levels ".." ++ l.names.reverse)
  | .root => "/" ++ "/".intercalate l.names.reverse

/-- What the file system has at a location. -/
def probe (l : Location) : IO (Option Node) := do
  try
    return some (.file (← IO.FS.readBinFile l.systemPath))
  catch
    | .inappropriateType _ 21 _ => return some .directory
    | _ => return none

/-- Loads what the file system has along a path. -/
def load (d : Directory) (path : String) : IO Directory := do
  let p := Path.ofString path
  let mut d := d
  let mut l := p.start
  for step in p.steps do
    l := if step = "." then l else if step = ".." then l.parent else l.child step
    if (d.node? l).isNone then
      if let some n ← probe l then
        d := d.put l n
  return d

/-- Stores the nodes of a directory that are not in the one before. -/
def store (before after : Directory) : IO Unit := do
  for (l, n) in after.nodes do
    if before.node? l ≠ some n then
      match n with
      | .directory => IO.FS.createDir l.systemPath
      | .file bytes => IO.FS.writeBinFile l.systemPath bytes

/-- The paths that a command line names. -/
def CommandLine.paths (arguments : List String) : List String :=
  match invocation arguments with
  | .compile source a => source :: (a.output.toList ++ a.dumpTo.toList)
  | _ => []

/-- What is said when the program breaks off. -/
def Breakdown.message : Breakdown → String
  | file e => e.message
  | notText => "the source file is not UTF-8 text"

end Straightline

open Straightline in
/-- Executes the command line. -/
def main (arguments : List String) : IO UInt32 := do
  let before ← (CommandLine.paths arguments).foldlM load {}
  let level ← IO.getEnv "RVCC_LOG_LEVEL"
  let (ending, after) := CommandLine.execute arguments level before
  store before after
  IO.eprint ending.err
  IO.print ending.out
  match ending.code with
  | .ok code => return UInt32.ofNat code
  | .error b =>
    IO.eprintln b.message
    return 1
