import Straightline.Text.Printable
import Straightline.Text.Quoted
import Straightline.Text.Decimal
import Straightline.Text.Decode
import Straightline.Token
import Straightline.Symbols
import Straightline.Scanner
import Straightline.Grammar
import Straightline.Reach
import Straightline.Table.Item
import Straightline.Table.Lookahead
import Straightline.Table.Action
import Straightline.Table
import Straightline.Attempt
import Straightline.Stack
import Straightline.Parse
import Straightline.Instruction
import Straightline.Emitter
import Straightline.Declarations
import Straightline.Register
import Straightline.Allocation
import Straightline.Assembly
import Straightline.Lowering
import Straightline.FrontEnd
import Straightline.Audience
import Straightline.Directory
import Straightline.Compilation
import Straightline.Text.Digit
import Straightline.CommandLine
import Straightline.About
import Straightline.Main
import Straightline.Proofs.Tree
import Straightline.Proofs.Lookahead
import Straightline.Proofs.TableLaws
import Straightline.Proofs.Replay
import Straightline.Proofs.TreeRuns
import Straightline.Proofs.Acceptance
import Straightline.Proofs.Unambiguous
import Straightline.Proofs.Execution
import Straightline.Proofs.Grants
import Straightline.Proofs.Reading
import Straightline.Proofs.Selection
import Straightline.Proofs.Simulation
import Straightline.Proofs.Phrase
import Straightline.Proofs.Translation
import Straightline.Proofs.Emission
import Straightline.Proofs.Scope
import Straightline.Proofs.Scanning
import Straightline.Proofs.Correctness
import Straightline.Proofs.Requests
import Straightline.Proofs.Pressure
import Straightline.Proofs.Constituents
import Straightline.Proofs.Lockstep
import Straightline.Proofs.Refusals
import Straightline.Proofs.Meaning
import Straightline.Proofs.Rightmost
import Straightline.Proofs.ViablePrefix
import Straightline.Proofs.Loop
import Straightline.Proofs.FirstOffence
import Straightline.Proofs.DeclarationChecks
import Straightline.Proofs.Ledger
import Straightline.Proofs.Temporaries
import Straightline.Proofs.Segmentation
import Straightline.Proofs.Divergence
import Straightline.Proofs.Coupling
import Straightline.Proofs.PairedRuns
import Straightline.Proofs.Unreachable
import Straightline.Proofs.Alphabet
import Straightline.Proofs.Renaming
import Straightline.Proofs.ConstantSums
import Straightline.Proofs.Places
import Straightline.Proofs.LineEnds
import Straightline.Proofs.Liveness
import Straightline.Proofs.EndMarks
import Straightline.Proofs.Notices
import Straightline.Proofs.DeclaredTypes
import Straightline.Proofs.Closures
import Straightline.Proofs.SententialForms
import Straightline.Proofs.Continuations
import Straightline.Proofs.OperandOrder
import Straightline.Proofs.ExpectedNames
import Straightline.Proofs.Advances
