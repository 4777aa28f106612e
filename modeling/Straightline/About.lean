/-
  What the program says about itself.

  * `about`: its version, its terms of use and the names of its parts.
-/

namespace Straightline

/-- What a program says about itself. -/
structure About where
  version : String
  terms : String
  /-- The names under which its parts are known to users. -/
  parts : List String
  deriving DecidableEq, Repr

/-- What this program says about itself. -/
def about : About where
  version := "0.1.0"
  terms := "MIT"
  parts := ["Lexer", "Token", "TokenType", "SymbolTable", "Production", "ActionObserver", "Parser",
    "SemanticAnalyzer", "IRGenerator", "Instruction", "CodeGenerator", "Compiler"]

end Straightline
