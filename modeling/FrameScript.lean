import FrameScript.Clock
import FrameScript.Code.Builder
import FrameScript.Code.Compile
import FrameScript.Code.Instr
import FrameScript.CommandLine.Execute
import FrameScript.CommandLine.Invocation
import FrameScript.CommandLine.Items
import FrameScript.Environment
import FrameScript.Files
import FrameScript.Host.Basic
import FrameScript.Host.Continuation
import FrameScript.Host.Load
import FrameScript.Host.Plugin
import FrameScript.Host.Queue
import FrameScript.Host.Report
import FrameScript.Host.Resume
import FrameScript.Host.Run
import FrameScript.Host.Tick
import FrameScript.Json.Basic
import FrameScript.Json.Failure
import FrameScript.Json.Numeral
import FrameScript.Json.Printer
import FrameScript.Json.Reader
import FrameScript.Machine.Basic
import FrameScript.Machine.Run
import FrameScript.Machine.Step
import FrameScript.Main
import FrameScript.Native.Basic
import FrameScript.Native.Core
import FrameScript.Native.Library
import FrameScript.Native.Suspend
import FrameScript.Number.Arithmetic
import FrameScript.Number.Basic
import FrameScript.Number.Decimal
import FrameScript.Number.Rounding
import FrameScript.Script.Ast
import FrameScript.Script.Grammar
import FrameScript.Script.Matcher
import FrameScript.Script.Mismatch
import FrameScript.Script.Reader
import FrameScript.Settings.Basic
import FrameScript.Settings.Lenient
import FrameScript.Settings.Load
import FrameScript.Settings.Merge
import FrameScript.Settings.Misfit
import FrameScript.Settings.Path
import FrameScript.Settings.Printer
import FrameScript.Settings.Reading
import FrameScript.Settings.Strict
import FrameScript.Settings.Value
import FrameScript.Settings.Variables
import FrameScript.Table
import FrameScript.Toml.Document
import FrameScript.Toml.Moment
import FrameScript.Toml.Quoted
import FrameScript.Toml.Reader
import FrameScript.Toml.Scalar
import FrameScript.Toml.Value
import FrameScript.Unicode.Alphanumeric
import FrameScript.Unicode.Case
import FrameScript.Unicode.Hidden
import FrameScript.Unicode.Lowercase
import FrameScript.Value.Basic
import FrameScript.Value.Heap
import FrameScript.Value.Operators
import FrameScript.Value.Text
import FrameScript.Proofs.Code.Balance
import FrameScript.Proofs.Code.Refusals
import FrameScript.Proofs.Code.Renaming
import FrameScript.Proofs.Host.Bindings
import FrameScript.Proofs.Host.ByHand
import FrameScript.Proofs.Host.Fairness
import FrameScript.Proofs.Host.Frames
import FrameScript.Proofs.Host.NonInterference
import FrameScript.Proofs.Host.Parked
import FrameScript.Proofs.Host.PlainQueue
import FrameScript.Proofs.Host.Reports
import FrameScript.Proofs.Host.Resumption
import FrameScript.Proofs.Host.Waking
import FrameScript.Proofs.Machine.Raising
import FrameScript.Proofs.Machine.Words
import FrameScript.Proofs.Number.HalfUp
import FrameScript.Proofs.Script.NumberLiterals
import FrameScript.Proofs.Script.Refusals
import FrameScript.Proofs.Script.SingleExpressions
import FrameScript.Proofs.Script.StringLiterals
import FrameScript.Proofs.Script.WholeWords
import FrameScript.Proofs.Semantics.Agreement
import FrameScript.Proofs.Settings.TextVariables
import FrameScript.Proofs.Value.Cycles
import FrameScript.Proofs.Value.Indexing
import FrameScript.Proofs.Value.JsonRoundTrip
