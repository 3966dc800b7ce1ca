import LiteralLint.AllowList
import LiteralLint.Check
import LiteralLint.CommandLine.Basic
import LiteralLint.CommandLine.Read
import LiteralLint.CommandLine.Usage
import LiteralLint.Config.Basic
import LiteralLint.Config.Decode
import LiteralLint.Config.Discovery
import LiteralLint.Config.Environment
import LiteralLint.Config.File
import LiteralLint.Config.Load
import LiteralLint.Config.Sources
import LiteralLint.Config.Surroundings
import LiteralLint.Config.Value
import LiteralLint.Cursor
import LiteralLint.Cursors
import LiteralLint.Diagnostic
import LiteralLint.Document
import LiteralLint.FileTree
import LiteralLint.Glob.Basic
import LiteralLint.Glob.Match
import LiteralLint.Glob.Parse
import LiteralLint.History
import LiteralLint.Info
import LiteralLint.Input
import LiteralLint.Interchange
import LiteralLint.Json.Basic
import LiteralLint.Json.Decode
import LiteralLint.Json.Draft
import LiteralLint.Json.Number
import LiteralLint.LineIndex
import LiteralLint.Literal
import LiteralLint.Log.Destination
import LiteralLint.Log.Event
import LiteralLint.Log.Filter
import LiteralLint.Main
import LiteralLint.Number.Binary64
import LiteralLint.Number.Decimal
import LiteralLint.Number.Shortest
import LiteralLint.Output
import LiteralLint.Override.Select
import LiteralLint.Path
import LiteralLint.Position
import LiteralLint.Program
import LiteralLint.Proofs.AllowList.Construction
import LiteralLint.Proofs.Check.Lines
import LiteralLint.Proofs.Check.Modes
import LiteralLint.Proofs.Check.Run
import LiteralLint.Proofs.Check.Unstyled
import LiteralLint.Proofs.Check.Verdict
import LiteralLint.Proofs.CommandLine.Acceptance
import LiteralLint.Proofs.CommandLine.Arrangement
import LiteralLint.Proofs.CommandLine.Boundary
import LiteralLint.Proofs.CommandLine.Entries
import LiteralLint.Proofs.CommandLine.Grammar
import LiteralLint.Proofs.CommandLine.Insertion
import LiteralLint.Proofs.CommandLine.Placement
import LiteralLint.Proofs.Config.Boundary
import LiteralLint.Proofs.Config.Discovery
import LiteralLint.Proofs.Config.Layers
import LiteralLint.Proofs.Config.Loading
import LiteralLint.Proofs.Config.LogVariables
import LiteralLint.Proofs.Config.Merging
import LiteralLint.Proofs.Config.Messages
import LiteralLint.Proofs.Config.Precedence
import LiteralLint.Proofs.Config.Reading
import LiteralLint.Proofs.Config.Saving
import LiteralLint.Proofs.Config.Setting
import LiteralLint.Proofs.Config.Table
import LiteralLint.Proofs.Config.Typing
import LiteralLint.Proofs.Config.Unstyled
import LiteralLint.Proofs.Config.UserFiles
import LiteralLint.Proofs.Config.Writing
import LiteralLint.Proofs.Cursor.Independence
import LiteralLint.Proofs.Cursor.Stepping
import LiteralLint.Proofs.Diagnostic.Concatenation
import LiteralLint.Proofs.Diagnostic.Exactness
import LiteralLint.Proofs.Diagnostic.Foreign
import LiteralLint.Proofs.Diagnostic.LineEnding
import LiteralLint.Proofs.Diagnostic.QuoteKind
import LiteralLint.Proofs.Diagnostic.Replacement
import LiteralLint.Proofs.Diagnostic.Widening
import LiteralLint.Proofs.Diagnostic.Writing
import LiteralLint.Proofs.FileTree.Following
import LiteralLint.Proofs.FileTree.Growth
import LiteralLint.Proofs.FileTree.Opening
import LiteralLint.Proofs.Glob.Language
import LiteralLint.Proofs.Glob.Segments
import LiteralLint.Proofs.History.Course
import LiteralLint.Proofs.Info.Enforcement
import LiteralLint.Proofs.Input.Reading
import LiteralLint.Proofs.Interchange.Rearrangement
import LiteralLint.Proofs.Interchange.RoundTrip
import LiteralLint.Proofs.Json.Decoding
import LiteralLint.Proofs.Json.Reading
import LiteralLint.Proofs.Json.Record
import LiteralLint.Proofs.Json.Scalar
import LiteralLint.Proofs.Json.Shape
import LiteralLint.Proofs.Json.Spelling
import LiteralLint.Proofs.Json.Writing
import LiteralLint.Proofs.LineIndex.Exactness
import LiteralLint.Proofs.LineIndex.Order
import LiteralLint.Proofs.Literal.Concatenation
import LiteralLint.Proofs.Literal.Enumeration
import LiteralLint.Proofs.Literal.LineEnding
import LiteralLint.Proofs.Literal.Replacement
import LiteralLint.Proofs.Literal.Search
import LiteralLint.Proofs.Literal.Spelling
import LiteralLint.Proofs.Override.Choice
import LiteralLint.Proofs.Override.Edits
import LiteralLint.Proofs.Override.ExactPath
import LiteralLint.Proofs.Override.Resolution
import LiteralLint.Proofs.Path.Names
import LiteralLint.Proofs.Path.Parent
import LiteralLint.Proofs.Path.Unstyled
import LiteralLint.Proofs.Position.Counting
import LiteralLint.Proofs.Program.Directory
import LiteralLint.Proofs.Program.Idle
import LiteralLint.Proofs.Program.LogPath
import LiteralLint.Proofs.Program.LogVariables
import LiteralLint.Proofs.Program.Painted
import LiteralLint.Proofs.Program.Running
import LiteralLint.Proofs.Program.Unstyled
import LiteralLint.Proofs.Server.Agreement
import LiteralLint.Proofs.Server.Outcome
import LiteralLint.Proofs.Server.Replies
import LiteralLint.Proofs.Style.Marks
import LiteralLint.Proofs.Style.Unstyled
import LiteralLint.Proofs.Text.Digits
import LiteralLint.Proofs.Text.Lines
import LiteralLint.Proofs.Traversal
import LiteralLint.Report
import LiteralLint.Server.Message
import LiteralLint.Server.Session
import LiteralLint.Server.Tool
import LiteralLint.Text.Classes
import LiteralLint.Text.Digits
import LiteralLint.Text.Quotation
import LiteralLint.Text.Split
import LiteralLint.Toml.Read
import LiteralLint.Toml.Scalar
import LiteralLint.Toml.Table
import LiteralLint.Yaml.Compose
import LiteralLint.Yaml.Resolve
import LiteralLint.Yaml.Scalar
import LiteralLint.Yaml.Scan
import LiteralLint.Yaml.Token
