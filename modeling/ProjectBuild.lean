import ProjectBuild.Closure.Inputs
import ProjectBuild.Closure.Load
import ProjectBuild.Closure.Traversal
import ProjectBuild.CommandLine.Flag
import ProjectBuild.CommandLine.Help
import ProjectBuild.CommandLine.Request
import ProjectBuild.CommandLine.Run
import ProjectBuild.CommandLine.Scan
import ProjectBuild.Compile.Command
import ProjectBuild.Compile.Job
import ProjectBuild.Compile.Scripted
import ProjectBuild.Config.Basic
import ProjectBuild.Config.Reader
import ProjectBuild.Console.Log
import ProjectBuild.Console.Palette
import ProjectBuild.Console.Plain
import ProjectBuild.Console.Report
import ProjectBuild.Decimal.Shortest
import ProjectBuild.Disk.Basic
import ProjectBuild.Disk.Edit
import ProjectBuild.Disk.Files
import ProjectBuild.Error.Basic
import ProjectBuild.Error.ExitCode
import ProjectBuild.Error.Hints
import ProjectBuild.FileSystem.Basic
import ProjectBuild.FileSystem.Faulty
import ProjectBuild.FileSystem.Memory
import ProjectBuild.Glob.Pattern
import ProjectBuild.Glob.Set
import ProjectBuild.Graph.Basic
import ProjectBuild.Graph.Build
import ProjectBuild.Graph.Level
import ProjectBuild.Graph.Reach
import ProjectBuild.Hash.XXH3
import ProjectBuild.Json.Cursor
import ProjectBuild.Json.Number
import ProjectBuild.Json.Pretty
import ProjectBuild.Json.Problem
import ProjectBuild.Json.Scalar
import ProjectBuild.Json.Shape
import ProjectBuild.Json.Skip
import ProjectBuild.Machine
import ProjectBuild.Main
import ProjectBuild.Path.Ancestor
import ProjectBuild.Path.Basic
import ProjectBuild.Path.Extension
import ProjectBuild.Path.Map
import ProjectBuild.Path.Normal
import ProjectBuild.Process.Basic
import ProjectBuild.Process.World
import ProjectBuild.Project
import ProjectBuild.Proofs.Closure.Blame
import ProjectBuild.Proofs.Closure.Cycle
import ProjectBuild.Proofs.Closure.Descent
import ProjectBuild.Proofs.Closure.Exhaustive
import ProjectBuild.Proofs.Closure.Inputs
import ProjectBuild.Proofs.Closure.Levels
import ProjectBuild.Proofs.Closure.Mapping
import ProjectBuild.Proofs.Closure.Reach
import ProjectBuild.Proofs.Closure.Reads
import ProjectBuild.Proofs.Closure.Resolution
import ProjectBuild.Proofs.Closure.Restrictions
import ProjectBuild.Proofs.Closure.RootDir
import ProjectBuild.Proofs.Closure.RootOrder
import ProjectBuild.Proofs.Closure.Selection
import ProjectBuild.Proofs.Closure.Spared
import ProjectBuild.Proofs.Closure.Stable
import ProjectBuild.Proofs.Compile.Contract
import ProjectBuild.Proofs.Compile.Effects
import ProjectBuild.Proofs.Config.Unknown
import ProjectBuild.Proofs.FileSystem.Faults
import ProjectBuild.Proofs.Glob.Subtree
import ProjectBuild.Proofs.Graph.Level
import ProjectBuild.Proofs.Graph.Reach
import ProjectBuild.Proofs.Graph.Renumbered
import ProjectBuild.Proofs.History.Elsewhere
import ProjectBuild.Proofs.Json.Scalar
import ProjectBuild.Proofs.Json.Structure
import ProjectBuild.Proofs.Path.Canonical
import ProjectBuild.Proofs.Path.NormalForm
import ProjectBuild.Proofs.Record.Codec
import ProjectBuild.Proofs.Record.Signature
import ProjectBuild.Proofs.Record.Store
import ProjectBuild.Proofs.Run.Apart
import ProjectBuild.Proofs.Run.Cancellation
import ProjectBuild.Proofs.Run.Clean
import ProjectBuild.Proofs.Run.Containment
import ProjectBuild.Proofs.Run.Diagnostics
import ProjectBuild.Proofs.Run.Footprint
import ProjectBuild.Proofs.Run.Halt
import ProjectBuild.Proofs.Run.Idempotence
import ProjectBuild.Proofs.Run.Ledger
import ProjectBuild.Proofs.Run.Plan
import ProjectBuild.Proofs.Run.Precedence
import ProjectBuild.Proofs.Run.Propagation
import ProjectBuild.Proofs.Run.Protocol
import ProjectBuild.Proofs.Run.Reasons
import ProjectBuild.Proofs.Run.Rebuild
import ProjectBuild.Proofs.Run.Schedule
import ProjectBuild.Proofs.Run.Stamps
import ProjectBuild.Proofs.Run.Trust
import ProjectBuild.Proofs.Staleness.Decision
import ProjectBuild.Record.Basic
import ProjectBuild.Record.Store
import ProjectBuild.Regex.Cursor
import ProjectBuild.Regex.Meaning
import ProjectBuild.Regex.Parse
import ProjectBuild.Regex.Pattern
import ProjectBuild.Regex.Problem
import ProjectBuild.Regex.Property
import ProjectBuild.Regex.Syntax
import ProjectBuild.Resolution
import ProjectBuild.Run.Basic
import ProjectBuild.Run.Build
import ProjectBuild.Run.Clean
import ProjectBuild.Run.Crew
import ProjectBuild.Run.Level
import ProjectBuild.Shell.Arithmetic
import ProjectBuild.Shell.Builtin.Basic
import ProjectBuild.Shell.Builtin.Names
import ProjectBuild.Shell.Builtin.Place
import ProjectBuild.Shell.Builtin.Processes
import ProjectBuild.Shell.Builtin.Table
import ProjectBuild.Shell.Builtin.Variables
import ProjectBuild.Shell.Condition
import ProjectBuild.Shell.Escape
import ProjectBuild.Shell.Evaluate
import ProjectBuild.Shell.Expand
import ProjectBuild.Shell.Fields
import ProjectBuild.Shell.Format
import ProjectBuild.Shell.Grammar
import ProjectBuild.Shell.Invocation
import ProjectBuild.Shell.Lexer
import ProjectBuild.Shell.Numeral
import ProjectBuild.Shell.Option
import ProjectBuild.Shell.Paths
import ProjectBuild.Shell.Pattern
import ProjectBuild.Shell.Real
import ProjectBuild.Shell.Redirection
import ProjectBuild.Shell.Runner
import ProjectBuild.Shell.Search
import ProjectBuild.Shell.Signal
import ProjectBuild.Shell.Source
import ProjectBuild.Shell.Start
import ProjectBuild.Shell.State
import ProjectBuild.Shell.Syntax
import ProjectBuild.Staleness
import ProjectBuild.Status.Basic
import ProjectBuild.Status.Report
import ProjectBuild.Text.Folding
import ProjectBuild.Text.Invisible
import ProjectBuild.Text.Quoted
import ProjectBuild.Text.Utf8
import ProjectBuild.Text.Wordy
import ProjectBuild.Tool.Basic
import ProjectBuild.Tool.Edit
import ProjectBuild.Tool.Expression
import ProjectBuild.Tool.Files
import ProjectBuild.Tool.Match
import ProjectBuild.Tool.Text
import ProjectBuild.Tool.Words
