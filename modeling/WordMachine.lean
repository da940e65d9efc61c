import WordMachine.Arguments.Grammar
import WordMachine.Arguments.Invocation
import WordMachine.Fault
import WordMachine.Files.Path
import WordMachine.Files.System
import WordMachine.Hex
import WordMachine.Listing
import WordMachine.Listing.Request
import WordMachine.Log.Filter
import WordMachine.Log.Line
import WordMachine.Log.Moment
import WordMachine.Log.Record
import WordMachine.Machine.Notices
import WordMachine.Machine.Policy
import WordMachine.Machine.Run
import WordMachine.Machine.Step
import WordMachine.Main
import WordMachine.Memory
import WordMachine.Opcode
import WordMachine.Program.Basic
import WordMachine.Program.Command
import WordMachine.Program.Error
import WordMachine.Program.Session
import WordMachine.Proofs.Files.Path
import WordMachine.Proofs.Files.Write
import WordMachine.Proofs.Hex.Acceptance
import WordMachine.Proofs.Hex.RoundTrip
import WordMachine.Proofs.Listing.Alignment
import WordMachine.Proofs.Machine.Budget
import WordMachine.Proofs.Machine.Composition
import WordMachine.Proofs.Machine.Confinement
import WordMachine.Proofs.Machine.Drivers
import WordMachine.Proofs.Machine.Faults
import WordMachine.Proofs.Machine.Frame
import WordMachine.Proofs.Machine.Guards
import WordMachine.Proofs.Machine.Immediate
import WordMachine.Proofs.Machine.Outline
import WordMachine.Proofs.Machine.Padding
import WordMachine.Proofs.Machine.Progress
import WordMachine.Proofs.Machine.Replay
import WordMachine.Proofs.Machine.Sifting
import WordMachine.Proofs.Machine.Skeleton
import WordMachine.Proofs.Machine.Steps
import WordMachine.Proofs.Machine.Table
import WordMachine.Proofs.Machine.Transition
import WordMachine.Proofs.Memory.History
import WordMachine.Proofs.Memory.Store
import WordMachine.Proofs.Settings.Update
import WordMachine.Proofs.Target.Grammar
import WordMachine.Proofs.Word.Arithmetic
import WordMachine.Report
import WordMachine.Settings.Basic
import WordMachine.Settings.Document
import WordMachine.Settings.Storage
import WordMachine.Settings.Update
import WordMachine.Stack
import WordMachine.Target
import WordMachine.Text.Blank
import WordMachine.Text.Numeral
import WordMachine.Text.Printable
import WordMachine.Text.Quoted
import WordMachine.Toml.Document
import WordMachine.Toml.Scalar
import WordMachine.Toml.Table
import WordMachine.Word
import WordMachine.Proofs.Listing.Reading
import WordMachine.Proofs.Files.ReadBack
import WordMachine.Proofs.Toml.Lines
import WordMachine.Proofs.Settings.RoundTrip
import WordMachine.Proofs.Settings.History
import WordMachine.Proofs.Settings.Language
import WordMachine.Proofs.Arguments.Plain
import WordMachine.Proofs.Program.Commands
import WordMachine.Proofs.Program.History
import WordMachine.Proofs.Report.Json
import WordMachine.Proofs.Report.Reading
