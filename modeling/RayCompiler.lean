import RayCompiler.Main
import RayCompiler.Token.Iteration
import RayCompiler.Proofs.Grammar.Basic
import RayCompiler.Proofs.Grammar.Recognition
import RayCompiler.Proofs.Grammar.Lists
import RayCompiler.Proofs.Grammar.Operands
import RayCompiler.Proofs.Grammar.Actions
import RayCompiler.Proofs.Grammar.Statements
import RayCompiler.Proofs.Grammar.Functions
import RayCompiler.Proofs.Grammar.Names
import RayCompiler.Proofs.Grammar.Theorems
import RayCompiler.Proofs.Listing.Emission
import RayCompiler.Proofs.Listing.Domain
import RayCompiler.Proofs.Listing.Resolution
import RayCompiler.Proofs.Listing.Theorems
import RayCompiler.Proofs.Compilation
import RayCompiler.Proofs.Machine.Memory
import RayCompiler.Proofs.Machine.Basic
import RayCompiler.Proofs.Semantics.Basic
import RayCompiler.Proofs.Semantics.Operands
import RayCompiler.Proofs.Semantics.Arguments
import RayCompiler.Proofs.Semantics.Entry
import RayCompiler.Proofs.Semantics.CallSites
import RayCompiler.Proofs.Semantics.Simulation
import RayCompiler.Proofs.Semantics.Theorems
import RayCompiler.Proofs.Grammar.Nesting
import RayCompiler.Proofs.Slot.Rebuild
import RayCompiler.Proofs.Grammar.Scan
import RayCompiler.Proofs.Listing.Lines
import RayCompiler.Proofs.Linking
import RayCompiler.Proofs.Stack.Pointers
import RayCompiler.Proofs.Stack.Alignment
import RayCompiler.Proofs.Stack.Theorems
import RayCompiler.Proofs.Token.Integers
import RayCompiler.Proofs.Token.Layout
import RayCompiler.Proofs.Token.Exhaustion
import RayCompiler.Proofs.Listing.Violations
import RayCompiler.Proofs.Strings
import RayCompiler.Proofs.Grammar.Relocation
import RayCompiler.Proofs.Reordering
import RayCompiler.Proofs.Listing.Readback
import RayCompiler.Proofs.Operands
import RayCompiler.Proofs.CommandLine.FileTree
import RayCompiler.Proofs.CommandLine.OutputPath
import RayCompiler.Proofs.CommandLine.Run
import RayCompiler.Proofs.CommandLine.Theorems
import RayCompiler.Proofs.CommandLine.Preservation
import RayCompiler.Proofs.Parser.Progress
import RayCompiler.Proofs.Parser.Termination
import RayCompiler.Proofs.Token.Readings
import RayCompiler.Proofs.Token.Scanning
import RayCompiler.Proofs.Token.Printing
import RayCompiler.Proofs.Grammar.Recasting
import RayCompiler.Proofs.LineEndings
import RayCompiler.Proofs.Slot.History
import RayCompiler.Proofs.Token.BlockComments
import RayCompiler.Proofs.Token.IntegerLiterals
import RayCompiler.Proofs.Grammar.Phrases
import RayCompiler.Proofs.Grammar.Bracing
import RayCompiler.Proofs.BodyForms
import RayCompiler.Proofs.Token.Texts
import RayCompiler.Proofs.Parser.Blame
import RayCompiler.Proofs.Diagnostic.Excerpts
import RayCompiler.Proofs.Diagnostics
