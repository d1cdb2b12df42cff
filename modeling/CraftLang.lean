import CraftLang.Command.Action
import CraftLang.Command.Basic
import CraftLang.Command.Counter
import CraftLang.Command.Error
import CraftLang.Command.Execute
import CraftLang.Command.Wait
import CraftLang.Console.Arguments
import CraftLang.Console.Basic
import CraftLang.Console.Call
import CraftLang.Console.DryRun
import CraftLang.Console.Failure
import CraftLang.Console.Invocation
import CraftLang.Console.Terminal
import CraftLang.Disk.Basic
import CraftLang.Disk.Call
import CraftLang.Disk.Path
import CraftLang.Engine.Basic
import CraftLang.Engine.Calls
import CraftLang.Engine.Control
import CraftLang.Engine.Run
import CraftLang.Engine.Settings
import CraftLang.Engine.Signal
import CraftLang.Engine.Status
import CraftLang.Engine.StatusJson
import CraftLang.Frame.Basic
import CraftLang.Frame.LineSource
import CraftLang.Host.Basic
import CraftLang.Host.Catalog
import CraftLang.Host.DryRun
import CraftLang.Host.Scripted
import CraftLang.Json.Basic
import CraftLang.Json.Command
import CraftLang.Json.Decode
import CraftLang.Json.Printer
import CraftLang.Json.Reader
import CraftLang.Json.Settings
import CraftLang.Library.Registry
import CraftLang.Library.StoredMacro
import CraftLang.Main
import CraftLang.Modifier.Basic
import CraftLang.Modifier.Extract
import CraftLang.Modifier.Token
import CraftLang.Number.Binary64
import CraftLang.Number.Decimal
import CraftLang.Program
import CraftLang.Source.Basic
import CraftLang.Source.CraftLoop
import CraftLang.Source.Grammar
import CraftLang.Source.Statement
import CraftLang.Store.Basic
import CraftLang.Store.Host
import CraftLang.Store.MacroSettings
import CraftLang.Store.Macros
import CraftLang.Text.AsciiCase
import CraftLang.Text.Blank
import CraftLang.Text.CharRange
import CraftLang.Text.DecimalDigit
import CraftLang.Text.EscapedTable
import CraftLang.Text.Lines
import CraftLang.Text.Lowercase
import CraftLang.Text.LowercaseTable
import CraftLang.Text.Position
import CraftLang.Text.Quoted
import CraftLang.Text.Utf8
import CraftLang.Proofs.Engine.Interleaving
import CraftLang.Proofs.Engine.Work
import CraftLang.Proofs.Engine.Callers
import CraftLang.Proofs.Engine.PauseGate
import CraftLang.Proofs.Command.Outcomes
import CraftLang.Proofs.Engine.AtWork
import CraftLang.Proofs.Engine.Stepping
import CraftLang.Proofs.Engine.FailedTick
import CraftLang.Proofs.Engine.Undisturbed
import CraftLang.Proofs.Engine.Recursion
import CraftLang.Proofs.Engine.Schedules
import CraftLang.Proofs.Engine.Restacking
import CraftLang.Proofs.Engine.Accounting
import CraftLang.Proofs.Engine.Origins
import CraftLang.Proofs.Engine.Rounds
import CraftLang.Proofs.Engine.Stopping
import CraftLang.Proofs.Engine.Readiness
import CraftLang.Proofs.Frame.Life
import CraftLang.Proofs.Engine.Preemption
import CraftLang.Proofs.Source.Reading
import CraftLang.Proofs.Text.Replace
import CraftLang.Proofs.Modifier.Tokens
import CraftLang.Proofs.Source.Lines
import CraftLang.Proofs.Source.Scaffold
import CraftLang.Proofs.Source.Expansion
import CraftLang.Proofs.Command.Success
import CraftLang.Proofs.Frame.Completion
import CraftLang.Proofs.Engine.Untroubled
import CraftLang.Proofs.Engine.Finishing
import CraftLang.Proofs.Frame.Repetition
import CraftLang.Proofs.Engine.Loops
import CraftLang.Proofs.Engine.CraftLoops
import CraftLang.Proofs.Source.Locality
import CraftLang.Proofs.Source.Readers
import CraftLang.Proofs.Source.Syntax
import CraftLang.Proofs.Source.Positions
import CraftLang.Proofs.Frame.Pulling
import CraftLang.Proofs.Engine.Cores
import CraftLang.Proofs.Engine.Pausing
import CraftLang.Proofs.Engine.Cancellation
import CraftLang.Proofs.Engine.Ending
import CraftLang.Proofs.Engine.Shutdown
import CraftLang.Proofs.Engine.Sights
import CraftLang.Proofs.Engine.Abreast
import CraftLang.Proofs.Engine.Failures
import CraftLang.Proofs.Json.RoundTrip
import CraftLang.Proofs.Store.Settings
import CraftLang.Proofs.Disk.Paths
import CraftLang.Proofs.Disk.Places
import CraftLang.Proofs.Store.Mishaps
import CraftLang.Proofs.Store.Folders
import CraftLang.Proofs.Store.Writing
import CraftLang.Proofs.Store.Naming
import CraftLang.Proofs.Store.Saving
import CraftLang.Proofs.Store.Looking
import CraftLang.Proofs.Store.Reading
import CraftLang.Proofs.Store.Listing
import CraftLang.Proofs.Store.Interruption
import CraftLang.Proofs.Store.Keeping
import CraftLang.Proofs.Store.Shelving
import CraftLang.Proofs.Modifier.Spelling
import CraftLang.Proofs.Modifier.Occurrences
import CraftLang.Proofs.Modifier.Covering
import CraftLang.Proofs.Modifier.Scans
import CraftLang.Proofs.Modifier.Masking
import CraftLang.Proofs.Modifier.Trailing
import CraftLang.Proofs.Source.Columns
import CraftLang.Proofs.Source.Orthogonality
import CraftLang.Proofs.Modifier.Stripping
import CraftLang.Proofs.Modifier.Insertion
import CraftLang.Proofs.Source.Gaps
import CraftLang.Proofs.Source.Insertion
import CraftLang.Proofs.Frame.Reach
import CraftLang.Proofs.Engine.Skipping
import CraftLang.Proofs.Engine.Refusals
import CraftLang.Proofs.Command.Polling
import CraftLang.Proofs.Source.Delays
import CraftLang.Proofs.Engine.ControlLines
import CraftLang.Proofs.Engine.Draws
import CraftLang.Proofs.Engine.AtLoops
import CraftLang.Proofs.Library.Lookup
import CraftLang.Proofs.Command.Counters
import CraftLang.Proofs.Host.DryRun
import CraftLang.Proofs.Source.Requoting
import CraftLang.Proofs.Engine.Restarts
