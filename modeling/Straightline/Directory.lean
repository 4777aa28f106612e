/-
  A directory of files.

  Programs read and write files through paths, which are resolved step by step
  from the working directory: each step needs a directory to stand in.  The
  directories above the working directory, and the root, are there too and
  start out empty.

  * `Location`: where a path leads;
  * `Directory.read`, `Directory.write`, `Directory.makeAll`: reading a file,
    writing one, making a directory with all directories above it;
  * `Directory.files`: the regular files below the working directory, sorted
    by path;
  * `FileError`: why an operation is refused, with its wording.
-/
import Straightline.Text.Quoted

namespace Straightline

/-! ## Refusals -/

/-- Why the system refuses an operation on a path. -/
inductive FileCause where
  | missing
  | present
  | notDirectory
  | isDirectory
  | nameTooLong
  deriving DecidableEq, Repr

/-- The system's number for a cause. -/
def FileCause.number : FileCause → Nat
  | missing => 2
  | present => 17
  | notDirectory => 20
  | isDirectory => 21
  | nameTooLong => 36

/-- The system's wording for a cause. -/
def FileCause.text : FileCause → String
  | missing => "No such file or directory"
  | present => "File exists"
  | notDirectory => "Not a directory"
  | isDirectory => "Is a directory"
  | nameTooLong => "File name too long"

/-- A refused operation on a file. -/
inductive FileError where
  /-- The system refuses it. -/
  | refused (cause : FileCause) (path : String)
  /-- The path has a null character. -/
  | nullInPath
  deriving DecidableEq, Repr

/-- The wording of a refusal. -/
def FileError.message : FileError → String
  | refused cause path => s!"[Errno {cause.number}] {cause.text}: {Text.quoted path}"
  | nullInPath => "embedded null byte"

/-! ## Locations -/

/-- What a location is counted from. -/
inductive Location.Base where
  /-- The directory some levels above the working directory. -/
  | above (levels : Nat)
  | root
  deriving DecidableEq, Repr

/-- A place in the tree of files: names from the innermost to the outermost,
    below a base. -/
structure Location where
  base : Location.Base := .above 0
  names : List String := []
  deriving DecidableEq, Repr

namespace Location

/-- The place of a name in a directory. -/
def child (l : Location) (name : String) : Location :=
  ⟨l.base, name :: l.names⟩

/-- The directory that a location is in; the root is in itself. -/
def parent : Location → Location
  | ⟨base, _ :: names⟩ => ⟨base, names⟩
  | ⟨.above levels, []⟩ => ⟨.above (levels + 1), []⟩
  | ⟨.root, []⟩ => ⟨.root, []⟩

/-- The path of a location below the working directory. -/
def path? (l : Location) : Option String :=
  if l.base = .above 0 then some ("/".intercalate l.names.reverse) else none

end Location

/-! ## Paths -/

/-- A path: where it starts, its steps, and whether a slash closes it. -/
structure Path where
  start : Location
  steps : List String
  closed : Bool
  deriving DecidableEq, Repr

/-- Reads a path. -/
def Path.ofString (path : String) : Path where
  start := if path.toList.head? = some '/' then ⟨.root, []⟩ else {}
  steps := ((path.toList.splitOn '/').filter (· ≠ [])).map String.ofList
  closed := path.toList.getLast? = some '/'

/-- The last step of a path, if it is a name. -/
def Path.lastName? (p : Path) : Option String :=
  p.steps.getLast?.filter fun step => step ≠ "." ∧ step ≠ ".."

/-- The largest number of bytes in a name. -/
def nameLimit : Nat := 255

/-- The largest number of bytes in a path. -/
def pathLimit : Nat := 4095

/-! ## Directories -/

/-- What a location holds. -/
inductive Node where
  | directory
  | file (bytes : ByteArray)

/-- Files are equal if their bytes are. -/
instance : DecidableEq Node
  | .directory, .directory => isTrue rfl
  | .file a, .file b =>
    match ByteArray.instDecidableEq a b with
    | isTrue h => isTrue (congrArg Node.file h)
    | isFalse h => isFalse fun heq => h (Node.file.inj heq)
  | .directory, .file _ => isFalse nofun
  | .file _, .directory => isFalse nofun

/-- The files and directories that can be reached from the working directory,
    in order of creation. -/
structure Directory where
  nodes : List (Location × Node) := []
  deriving DecidableEq

namespace Directory

/-- What a location holds; the bases are directories. -/
def node? (d : Directory) (l : Location) : Option Node :=
  if l.names = [] then some .directory else d.nodes.lookup l

/-- Puts a node at a location, in place of what is there. -/
def put (d : Directory) (l : Location) (n : Node) : Directory :=
  ⟨d.nodes.filter (·.1 ≠ l) ++ [(l, n)]⟩

/-- One step of a path from a location, which has to be a directory. -/
def step (d : Directory) (l : Location) (name : String) : Except FileCause Location :=
  match d.node? l with
  | none => .error .missing
  | some (.file _) => .error .notDirectory
  | some .directory =>
    if name = "." then .ok l
    else if name = ".." then .ok l.parent
    else if nameLimit < name.utf8ByteSize then .error .nameTooLong
    else .ok (l.child name)

/-- The location at the end of some steps. -/
def walk (d : Directory) (l : Location) (steps : List String) : Except FileCause Location :=
  steps.foldlM d.step l

/-- The path of an operation, unless it is empty or too long. -/
def usable (path : String) : Except FileCause Path :=
  if path = "" then .error .missing
  else if pathLimit < path.utf8ByteSize then .error .nameTooLong
  else .ok (.ofString path)

/-- Where a path leads, and what is there.  A closing slash asks for a
    directory. -/
def find (d : Directory) (path : String) : Except FileCause (Location × Node) := do
  let p ← usable path
  let l ← d.walk p.start (p.steps ++ if p.closed then ["."] else [])
  match d.node? l with
  | some n => .ok (l, n)
  | none => .error .missing

/-- The directory in which the last step of a path is taken. -/
def outer (d : Directory) (p : Path) : Except FileCause Location :=
  d.walk p.start (p.steps.dropLast ++ ["."])

/-- Where writing by a path puts a file: at the place of a file, or where
    nothing is.  A closing slash is refused before the name is looked at. -/
def placeOfFile (d : Directory) (path : String) : Except FileCause Location := do
  let p ← usable path
  let l ← d.outer p
  match p.lastName?, p.closed with
  | some name, false =>
    let target ← d.step l name
    if d.node? target = some .directory then .error .isDirectory else .ok target
  | _, _ => .error .isDirectory

/-- Where making a directory by a path puts it: where nothing is. -/
def placeOfDirectory (d : Directory) (path : String) : Except FileCause Location := do
  let p ← usable path
  let l ← d.outer p
  match p.lastName? with
  | some name =>
    let target ← d.step l name
    if (d.node? target).isSome then .error .present else .ok target
  | none => .error .present

/-- Whether a path has a null character. -/
def hasNull (path : String) : Bool :=
  path.toList.contains '\x00'

/-- Whether a path leads to something. -/
def pathExists (d : Directory) (path : String) : Bool :=
  !hasNull path && (d.find path).isOk

/-- Whether a path leads to a directory. -/
def isDirectory (d : Directory) (path : String) : Bool :=
  if hasNull path then false
  else match d.find path with
    | .ok (_, .directory) => true
    | _ => false

/-- The bytes of the file at a path. -/
def read (d : Directory) (path : String) : Except FileError ByteArray :=
  if hasNull path then .error .nullInPath
  else match d.find path with
    | .ok (_, .file bytes) => .ok bytes
    | .ok (_, .directory) => .error (.refused .isDirectory path)
    | .error cause => .error (.refused cause path)

/-- Writes the file at a path, making it if need be. -/
def write (d : Directory) (path : String) (bytes : ByteArray) : Except FileError Directory :=
  if hasNull path then .error .nullInPath
  else match d.placeOfFile path with
    | .ok l => .ok (d.put l (.file bytes))
    | .error cause => .error (.refused cause path)

/-- Makes the directory at a path; the one above it has to be there. -/
def make (d : Directory) (path : String) : Except FileError Directory :=
  if hasNull path then .error .nullInPath
  else match d.placeOfDirectory path with
    | .ok l => .ok (d.put l .directory)
    | .error cause => .error (.refused cause path)

/-! ### Making directories all the way -/

/-- What stands before and after the last slash of a path.  Slashes at the end
    of the first part are dropped, unless it has nothing else. -/
def splitLast (path : List Char) : List Char × List Char :=
  let tail := path.reverse.takeWhile (· ≠ '/')
  let head := path.reverse.dropWhile (· ≠ '/')
  let stripped := head.dropWhile (· = '/')
  ((if stripped = [] then head else stripped).reverse, tail.reverse)

/-- The parts of a path at its last slash that is not at the end. -/
def splitName (path : List Char) : List Char × List Char :=
  match splitLast path with
  | (head, []) => splitLast head
  | parts => parts

theorem length_splitLast_le (path : List Char) :
    (splitLast path).1.length + (splitLast path).2.length ≤ path.length := by
  have hsplit : (path.reverse.takeWhile (· ≠ '/')).length +
      (path.reverse.dropWhile (· ≠ '/')).length = path.length := by
    rw [← List.length_append, List.takeWhile_append_dropWhile, List.length_reverse]
  have hstrip := (List.dropWhile_sublist (l := path.reverse.dropWhile (· ≠ '/'))
    (fun c => decide (c = '/'))).length_le
  simp only [splitLast, List.length_reverse]
  split <;> omega

theorem length_splitName_le (path : List Char) :
    (splitName path).1.length + (splitName path).2.length ≤ path.length := by
  have h := length_splitLast_le path
  unfold splitName
  split
  · rename_i head heq
    rw [heq] at h
    exact Nat.le_trans (length_splitLast_le head) (Nat.le_trans (Nat.le_add_right _ _) h)
  · exact h

theorem length_splitName_lt {path : List Char} (h : (splitName path).2 ≠ []) :
    (splitName path).1.length < path.length := by
  have hle := length_splitName_le path
  have hpos := List.length_pos_iff.2 h
  omega

/-- Makes a directory at a path where one may be already. -/
def makeOrKeep (d : Directory) (path : String) : Option FileError × Directory :=
  match d.make path with
  | .ok d' => (none, d')
  | .error e => if d.isDirectory path then (none, d) else (some e, d)

/-- Makes the directory at a path, and before it all that are missing on the
    way.  Directories that are there already are kept, and those made before a
    refusal stay. -/
def makeAllAt (d : Directory) (path : List Char) : Option FileError × Directory :=
  if _h : (splitName path).2 ≠ [] ∧ (splitName path).1 ≠ [] ∧
      !d.pathExists (String.ofList (splitName path).1) then
    match makeAllAt d (splitName path).1 with
    | (none, d') | (some (.refused .present _), d') =>
      if (splitName path).2 = ['.'] then (none, d') else d'.makeOrKeep (String.ofList path)
    | (some e, d') => (some e, d')
  else d.makeOrKeep (String.ofList path)
termination_by path.length
decreasing_by exact length_splitName_lt _h.1

/-- Makes a directory and all that are missing on the way to it. -/
def makeAll (d : Directory) (path : String) : Option FileError × Directory :=
  d.makeAllAt path.toList

/-! ### Whole directories -/

/-- The regular files below the working directory, sorted by path. -/
def files (d : Directory) : List (String × ByteArray) :=
  let found := d.nodes.filterMap fun
    | (l, .file bytes) => l.path?.map (·, bytes)
    | (_, .directory) => none
  found.mergeSort fun a b => decide (a.1 ≤ b.1)

/-- The files of `d` that are new or have other bytes than in `before`. -/
def changedSince (d before : Directory) : List (String × ByteArray) :=
  d.files.filter fun entry => !(before.files.lookup entry.1 == some entry.2)

/-- Makes a directory at a location that holds nothing. -/
def ensure (d : Directory) (l : Location) : Directory :=
  if (d.node? l).isSome then d else d.put l .directory

/-- Adds a node below the working directory, and the directories above it. -/
def install (d : Directory) (names : List String) (n : Node) : Directory :=
  let outer := (List.range names.length).map fun k => (⟨.above 0, (names.take k).reverse⟩ : Location)
  (outer.foldl ensure d).put ⟨.above 0, names.reverse⟩ n

/-- A directory with the given files and subdirectories. -/
def ofNodes (nodes : List (String × Node)) : Directory :=
  nodes.foldl (fun d entry => d.install (Path.ofString entry.1).steps entry.2) {}

end Directory

end Straightline
