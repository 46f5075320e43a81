import PackageScan.Archive.Basic
import PackageScan.Archive.EntryName
import PackageScan.Archive.Sweep
import PackageScan.Bytes
import PackageScan.CommandLine.Arguments
import PackageScan.CommandLine.Console
import PackageScan.CommandLine.Help
import PackageScan.CommandLine.Report
import PackageScan.CommandLine.Run
import PackageScan.Decimal.Double
import PackageScan.Decimal.Shortest
import PackageScan.Dictionary
import PackageScan.Files
import PackageScan.Json.Basic
import PackageScan.Json.Parser
import PackageScan.Json.Record
import PackageScan.Limits
import PackageScan.Log.Buffer
import PackageScan.Log.Code
import PackageScan.Log.Event
import PackageScan.Log.Journal
import PackageScan.Log.Message
import PackageScan.Log.Setup
import PackageScan.Main
import PackageScan.Pattern.Basic
import PackageScan.Pattern.Hex
import PackageScan.Regex.Basic
import PackageScan.Regex.ByteSet
import PackageScan.Regex.Parser
import PackageScan.Regex.Size
import PackageScan.Rule.Declaration
import PackageScan.Rule.Keyword
import PackageScan.Rule.Lexer
import PackageScan.Rule.Parser
import PackageScan.Rule.Rejection
import PackageScan.Rule.Token
import PackageScan.Rule.Validation
import PackageScan.RuleSet.Basic
import PackageScan.RuleSet.Compiler
import PackageScan.RuleSet.Condition
import PackageScan.Scan.Action
import PackageScan.Scan.Engine
import PackageScan.Scan.Error
import PackageScan.Scan.Kind
import PackageScan.Scan.Metrics
import PackageScan.Scan.Policy
import PackageScan.Scan.Remote
import PackageScan.Scan.Rescan
import PackageScan.Scan.Result
import PackageScan.Scan.Rule
import PackageScan.Scan.Store
import PackageScan.Scan.Submission
import PackageScan.Scan.Upload
import PackageScan.Settings.Basic
import PackageScan.Settings.Environment
import PackageScan.Settings.File
import PackageScan.Source.Diagnostic
import PackageScan.Source.Position
import PackageScan.Text.Blank
import PackageScan.Text.Cp437
import PackageScan.Text.Hexadecimal
import PackageScan.Text.Utf8
import PackageScan.Time.Date
import PackageScan.Time.Timestamp
import PackageScan.Toml.Basic
import PackageScan.Toml.Parser
import PackageScan.Uuid
import PackageScan.Zip.Content
import PackageScan.Zip.Crc32
import PackageScan.Zip.Directory
import PackageScan.Zip.Inflate
import PackageScan.Proofs.Outcome
import PackageScan.Proofs.RuleSet.Resolving
import PackageScan.Proofs.Rule.Grammar
import PackageScan.Proofs.Rule.ParserSound
import PackageScan.Proofs.RuleSet.Building
import PackageScan.Proofs.Log.Yielding
import PackageScan.Proofs.RuleSet.Layout
import PackageScan.Proofs.RuleSet.Agreement
import PackageScan.Proofs.Rule.Lexing
import PackageScan.Proofs.Dictionary
import PackageScan.Proofs.Ordered
import PackageScan.Proofs.Log.Ensuring
import PackageScan.Proofs.Rule.ParserComplete
import PackageScan.Proofs.Rule.Placing
import PackageScan.Proofs.RuleSet.Joining
import PackageScan.Proofs.RuleSet.Deciding
import PackageScan.Proofs.RuleSet.Reading
import PackageScan.Proofs.Scan.Policies
import PackageScan.Proofs.Source.Places
import PackageScan.Proofs.Rule.Tiling
import PackageScan.Proofs.Source.Quoting
import PackageScan.Proofs.Rule.ErrorPlaces
import PackageScan.Proofs.Rule.Spans
import PackageScan.Proofs.RuleSet.Locating
import PackageScan.Proofs.Archive.Sweeping
import PackageScan.Proofs.Scan.Naming
import PackageScan.Proofs.Scan.Counting
import PackageScan.Proofs.Scan.Submitting
import PackageScan.Proofs.Scan.Accounting
import PackageScan.Proofs.Scan.Rescanning
import PackageScan.Proofs.Scan.Dispatching
import PackageScan.Proofs.Text.Digits
import PackageScan.Proofs.Uuid
import PackageScan.Proofs.Json.Reading
import PackageScan.Proofs.Time.Timestamps
import PackageScan.Proofs.Scan.StoredResults
import PackageScan.Proofs.Rule.Rereading
import PackageScan.Proofs.Archive.Budget
import PackageScan.Proofs.Regex.Beginnings
import PackageScan.Proofs.RuleSet.Spacing
import PackageScan.Proofs.Pattern.Counting
import PackageScan.Proofs.Regex.Reading
import PackageScan.Proofs.Pattern.Texts
import PackageScan.Proofs.Pattern.HexGrammar
import PackageScan.Proofs.Pattern.HexReading
import PackageScan.Proofs.Pattern.HexScanning
import PackageScan.Proofs.Pattern.HexMeaning
import PackageScan.Proofs.Pattern.HexJumps
import PackageScan.Proofs.Rule.WellFormed
import PackageScan.Proofs.RuleSet.Extending
import PackageScan.Proofs.RuleSet.Reordering
import PackageScan.Proofs.RuleSet.Replaying
import PackageScan.Proofs.Archive.Work
import PackageScan.Proofs.Rule.Nesting
import PackageScan.Proofs.Rule.TextParts
import PackageScan.Proofs.Rule.Escapes
import PackageScan.Proofs.Settings.Defaults
import PackageScan.Proofs.Source.Carets
import PackageScan.Proofs.Scan.StoreHistories
import PackageScan.Proofs.Scan.Answering
import PackageScan.Proofs.Log.Adding
import PackageScan.Proofs.Scan.Tracing
import PackageScan.Proofs.Rule.Limits
import PackageScan.Proofs.RuleSet.Limits
import PackageScan.Proofs.Log.Window
import PackageScan.Proofs.Log.Lines
import PackageScan.Proofs.Log.Notices
import PackageScan.Proofs.Archive.Confinement
import PackageScan.Proofs.Archive.Quoting
import PackageScan.Proofs.Files
import PackageScan.Proofs.CommandLine.Discovering
import PackageScan.Proofs.CommandLine.Sessions
import PackageScan.Proofs.CommandLine.Reporting
import PackageScan.Proofs.Log.Clamping
import PackageScan.Proofs.Rule.Numerals
import PackageScan.Proofs.Rule.Signs
import PackageScan.Proofs.Rule.Integers
