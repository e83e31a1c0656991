import FormulaSheet.Main
import FormulaSheet.Term.Bound
import FormulaSheet.Proofs.Computation
import FormulaSheet.Proofs.Parts
import FormulaSheet.Proofs.Frame
import FormulaSheet.Proofs.Forest
import FormulaSheet.Proofs.Pool
import FormulaSheet.Proofs.Owners
import FormulaSheet.Proofs.Value
import FormulaSheet.Proofs.Statement
import FormulaSheet.Proofs.WellFormed
import FormulaSheet.Proofs.Derivation
import FormulaSheet.Proofs.Depth
import FormulaSheet.Proofs.Termination
import FormulaSheet.Proofs.Expansion
import FormulaSheet.Proofs.Inlining
import FormulaSheet.Proofs.OwnerLinks
import FormulaSheet.Proofs.Reference
import FormulaSheet.Proofs.Resolution
import FormulaSheet.Proofs.Closed
import FormulaSheet.Proofs.Independence
import FormulaSheet.Proofs.Faultless
import FormulaSheet.Proofs.Containment
import FormulaSheet.Proofs.Account
import FormulaSheet.Proofs.Conservation
import FormulaSheet.Proofs.Lexing
import FormulaSheet.Proofs.Trace
import FormulaSheet.Proofs.Restoration
import FormulaSheet.Proofs.PassThrough
import FormulaSheet.Proofs.Files
import FormulaSheet.Proofs.Batch
import FormulaSheet.Proofs.Formula
import FormulaSheet.Proofs.Writing
import FormulaSheet.Proofs.Grouping
import FormulaSheet.Proofs.Joining
import FormulaSheet.Proofs.Guard
import FormulaSheet.Proofs.Grid
import FormulaSheet.Proofs.Literal
import FormulaSheet.Proofs.Erasure
import FormulaSheet.Proofs.Blocks
import FormulaSheet.Proofs.Reachability
import FormulaSheet.Proofs.Terminator
import FormulaSheet.Proofs.LongestMatch
import FormulaSheet.Proofs.WholeArray
import FormulaSheet.Proofs.Carrying
import FormulaSheet.Proofs.InPlace
import FormulaSheet.Proofs.Naming
import FormulaSheet.Proofs.Extraction
import FormulaSheet.Proofs.Nesting
import FormulaSheet.Proofs.Splicing
import FormulaSheet.Proofs.Recognition
import FormulaSheet.Proofs.Commands
