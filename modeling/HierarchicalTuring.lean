import HierarchicalTuring.Analysis.Basic
import HierarchicalTuring.Analysis.CallLoop
import HierarchicalTuring.Analysis.Issue
import HierarchicalTuring.Analysis.Reachability
import HierarchicalTuring.CommandLine.Options
import HierarchicalTuring.CommandLine.Run
import HierarchicalTuring.Decimal.Arithmetic
import HierarchicalTuring.Decimal.Basic
import HierarchicalTuring.Decimal.Binary64
import HierarchicalTuring.Decimal.Digit
import HierarchicalTuring.Decimal.Rounding
import HierarchicalTuring.Decimal.Shortest
import HierarchicalTuring.Direction
import HierarchicalTuring.Document.Basic
import HierarchicalTuring.Document.Json
import HierarchicalTuring.Document.Project
import HierarchicalTuring.Document.Reading
import HierarchicalTuring.Error
import HierarchicalTuring.Files.Directory
import HierarchicalTuring.Files.Name
import HierarchicalTuring.Files.Project
import HierarchicalTuring.Files.Tree
import HierarchicalTuring.Index
import HierarchicalTuring.Json.Decode
import HierarchicalTuring.Json.Double
import HierarchicalTuring.Json.Layout
import HierarchicalTuring.Json.Numeral
import HierarchicalTuring.Json.Token
import HierarchicalTuring.Json.Tree
import HierarchicalTuring.Json.Value
import HierarchicalTuring.Machine
import HierarchicalTuring.Main
import HierarchicalTuring.NameMap
import HierarchicalTuring.Program.Basic
import HierarchicalTuring.Program.BuiltIn
import HierarchicalTuring.Program.Library
import HierarchicalTuring.Project
import HierarchicalTuring.Proofs.Analysis.CallChain
import HierarchicalTuring.Proofs.Analysis.CallLoops
import HierarchicalTuring.Proofs.Analysis.Order
import HierarchicalTuring.Proofs.Analysis.Prediction
import HierarchicalTuring.Proofs.Analysis.Search
import HierarchicalTuring.Proofs.Analysis.Unreachable
import HierarchicalTuring.Proofs.Analysis.Visits
import HierarchicalTuring.Proofs.CommandLine.Outcome
import HierarchicalTuring.Proofs.Document.Acceptance
import HierarchicalTuring.Proofs.Document.Building
import HierarchicalTuring.Proofs.Document.Description
import HierarchicalTuring.Proofs.Document.Fault
import HierarchicalTuring.Proofs.Document.InputOrder
import HierarchicalTuring.Proofs.Document.Json
import HierarchicalTuring.Proofs.Document.RoundTrip
import HierarchicalTuring.Proofs.Document.SameAnalysis
import HierarchicalTuring.Proofs.Document.SameRuns
import HierarchicalTuring.Proofs.Document.Valid
import HierarchicalTuring.Proofs.Files.Loading
import HierarchicalTuring.Proofs.Files.Lossless
import HierarchicalTuring.Proofs.Files.Name
import HierarchicalTuring.Proofs.Files.Saved
import HierarchicalTuring.Proofs.Files.Tree
import HierarchicalTuring.Proofs.Json.Decode
import HierarchicalTuring.Proofs.Json.Numeral
import HierarchicalTuring.Proofs.Json.Token
import HierarchicalTuring.Proofs.Json.Tree
import HierarchicalTuring.Proofs.Json.Value
import HierarchicalTuring.Proofs.Machine.Removal
import HierarchicalTuring.Proofs.NameMap
import HierarchicalTuring.Proofs.Procedure
import HierarchicalTuring.Proofs.Program.EvenOnes
import HierarchicalTuring.Proofs.Program.Reading
import HierarchicalTuring.Proofs.Program.UnaryAddition
import HierarchicalTuring.Proofs.Project.Built
import HierarchicalTuring.Proofs.Project.InPlace
import HierarchicalTuring.Proofs.Project.Lookup
import HierarchicalTuring.Proofs.Project.Refusal
import HierarchicalTuring.Proofs.Project.WellFormed
import HierarchicalTuring.Proofs.Result
import HierarchicalTuring.Proofs.Simulation.Bounded
import HierarchicalTuring.Proofs.Simulation.CallDepth
import HierarchicalTuring.Proofs.Simulation.Callers
import HierarchicalTuring.Proofs.Simulation.Dangling
import HierarchicalTuring.Proofs.Simulation.Entering
import HierarchicalTuring.Proofs.Simulation.Frames
import HierarchicalTuring.Proofs.Simulation.Locality
import HierarchicalTuring.Proofs.Simulation.Lockstep
import HierarchicalTuring.Proofs.Simulation.Renaming
import HierarchicalTuring.Proofs.Simulation.Resuming
import HierarchicalTuring.Proofs.Simulation.Returning
import HierarchicalTuring.Proofs.Simulation.Run
import HierarchicalTuring.Proofs.Simulation.StepEffect
import HierarchicalTuring.Proofs.Simulation.Table
import HierarchicalTuring.Proofs.Simulation.Uncalled
import HierarchicalTuring.Proofs.Simulation.Unreachable
import HierarchicalTuring.Proofs.State.History
import HierarchicalTuring.Proofs.State.Indexed
import HierarchicalTuring.Proofs.State.Scan
import HierarchicalTuring.Proofs.Store.Copies
import HierarchicalTuring.Proofs.Store.Edit
import HierarchicalTuring.Proofs.Store.Indexed
import HierarchicalTuring.Proofs.Store.Lifetime
import HierarchicalTuring.Proofs.Store.Roster
import HierarchicalTuring.Proofs.Tape.Contents
import HierarchicalTuring.Proofs.Tape.Endless
import HierarchicalTuring.Proofs.Text.ByteOrder
import HierarchicalTuring.Simulation.Basic
import HierarchicalTuring.Simulation.CallStack
import HierarchicalTuring.Simulation.Status
import HierarchicalTuring.State
import HierarchicalTuring.Store.Basic
import HierarchicalTuring.Store.Handle
import HierarchicalTuring.Tape
import HierarchicalTuring.Tape.Head
import HierarchicalTuring.Text.CharRanges
import HierarchicalTuring.Text.Extending
import HierarchicalTuring.Text.Quoted
import HierarchicalTuring.Text.Unprintable
import HierarchicalTuring.Transition
