/-
  The symbol table: the names of a program in order of first appearance, each
  with the type it was declared with, if any.

  * `Symbols.contains`, `Symbols.get?`: what is known of a name;
  * `Symbols.add` appends a new name without a type, `Symbols.setType` gives
    a known name a type, both leaving all other entries in place;
  * `Symbols.register` makes sure that a name is there;
  * `Symbols.listing` is the table as text, sorted by name.
-/

namespace Straightline

/-- The types of the source language. -/
inductive SourceType where
  | int
  deriving DecidableEq, Repr, Inhabited

/-- The name of a type in the source language. -/
def SourceType.name : SourceType → String
  | int => "int"

/-- An entry of the symbol table. -/
structure Symbols.Entry where
  name : String
  /-- The declared type; absent until the declaration is seen. -/
  type : Option SourceType := none
  deriving DecidableEq, Repr, Inhabited

/-- An entry as listings show it. -/
def Symbols.Entry.text (e : Symbols.Entry) : String :=
  let type := (e.type.map SourceType.name).getD "null"
  s!"({e.name}, {type})"

/-- A symbol table: its entries in order of insertion. -/
structure Symbols where
  entries : List Symbols.Entry := []
  deriving DecidableEq, Repr, Inhabited

namespace Symbols

/-- Why an operation on a symbol table is refused. -/
inductive Error where
  | absent (name : String)
  | present (name : String)
  deriving DecidableEq, Repr

/-- The wording of a refusal. -/
def Error.message : Error → String
  | absent name => s!"symbol not found: {name}"
  | present name => s!"symbol already exists: {name}"

/-- The entry of a name. -/
def get? (s : Symbols) (name : String) : Option Entry :=
  s.entries.find? (·.name = name)

/-- Whether a name has an entry. -/
def contains (s : Symbols) (name : String) : Bool :=
  s.entries.any (·.name = name)

/-- The number of entries. -/
def size (s : Symbols) : Nat :=
  s.entries.length

/-- The entry of a name, which has to be there. -/
def get (s : Symbols) (name : String) : Except Error Entry :=
  match s.get? name with
  | some e => .ok e
  | none => .error (.absent name)

/-- Appends an untyped entry for a name that has none. -/
def append (s : Symbols) (name : String) : Symbols :=
  ⟨s.entries ++ [⟨name, none⟩]⟩

/-- Appends an untyped entry for a new name. -/
def add (s : Symbols) (name : String) : Except Error Symbols :=
  if s.contains name then .error (.present name) else .ok (s.append name)

/-- Makes sure that a name has an entry. -/
def register (s : Symbols) (name : String) : Symbols :=
  if s.contains name then s else s.append name

/-- Replaces the type of every entry of a name. -/
def retype (s : Symbols) (name : String) (type : Option SourceType) : Symbols :=
  ⟨s.entries.map fun e => if e.name = name then ⟨e.name, type⟩ else e⟩

/-- Gives a known name a type, or takes its type away. -/
def setType (s : Symbols) (name : String) (type : Option SourceType) : Except Error Symbols :=
  if s.contains name then .ok (s.retype name type) else .error (.absent name)

/-- The declared type of a name. -/
def typeOf? (s : Symbols) (name : String) : Option SourceType :=
  (s.get? name).bind Entry.type

/-- A table of the given names in order, untyped. -/
def ofNames (names : List String) : Symbols :=
  names.foldl register {}

/-- The entries in the order of their names' code points. -/
def sorted (s : Symbols) : List Entry :=
  s.entries.mergeSort fun a b => decide (a.name ≤ b.name)

/-- The table as text: one entry a line, sorted by name. -/
def listing (s : Symbols) : String :=
  String.join (s.sorted.map fun e => e.text ++ "\n")

end Symbols

end Straightline
