import Trapline.Action
import Trapline.Argument
import Trapline.Binary32.Basic
import Trapline.Binary32.Decimal
import Trapline.Binary32.Shortest
import Trapline.Binary32.Text
import Trapline.Bindings
import Trapline.Cli.Job
import Trapline.Cli.Options
import Trapline.Cli.Session
import Trapline.Command
import Trapline.Error
import Trapline.FileTree
import Trapline.Integer
import Trapline.Log.Event
import Trapline.Log.Filter
import Trapline.Log.Journal
import Trapline.Machine
import Trapline.Main
import Trapline.Memory
import Trapline.Numeral
import Trapline.Operation
import Trapline.Program
import Trapline.Sink
import Trapline.Source
import Trapline.Statement
import Trapline.Text.Blank
import Trapline.Text.Lines
import Trapline.Text.Quoted
import Trapline.Trap
import Trapline.Value.Basic
import Trapline.Value.Sum
import Trapline.Value.Text
import Trapline.Proofs.Execution
import Trapline.Proofs.Fallible
import Trapline.Proofs.Loading
import Trapline.Proofs.Faults
import Trapline.Proofs.Run
import Trapline.Proofs.Stored
import Trapline.Proofs.Identifiers
import Trapline.Proofs.FailedSteps
import Trapline.Proofs.Control
import Trapline.Proofs.TrapStack
import Trapline.Proofs.Labels
import Trapline.Proofs.Placement
import Trapline.Proofs.Limit
import Trapline.Proofs.Simulation
import Trapline.Proofs.Slots
import Trapline.Proofs.Renaming
import Trapline.Proofs.RenamedRun
import Trapline.Proofs.Padding
import Trapline.Proofs.Rounds
import Trapline.Proofs.Termination
import Trapline.Proofs.Reading
import Trapline.Proofs.IdleLines
import Trapline.Proofs.Relocation
import Trapline.Proofs.Imports
import Trapline.Proofs.Diagnostics
import Trapline.Proofs.ExitStatus
import Trapline.Proofs.Scopes
import Trapline.Proofs.Independence
import Trapline.Proofs.Calls
import Trapline.Proofs.BoundedOutput
import Trapline.Proofs.LoopItem
import Trapline.Proofs.Stages
import Trapline.Proofs.NestedImports
import Trapline.Proofs.Pieces
import Trapline.Proofs.LabelLines
import Trapline.Proofs.IntegerText
import Trapline.Proofs.OuterBlanks
import Trapline.Proofs.Written
import Trapline.Proofs.Listings
import Trapline.Proofs.LoopRule
import Trapline.Proofs.NestedLoops
import Trapline.Proofs.LongestNumeral
import Trapline.Proofs.Rounding
import Trapline.Proofs.CommandLine
import Trapline.Proofs.PrintedNumbers
import Trapline.Proofs.VectorGrowth
