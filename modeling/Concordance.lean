import Concordance.Attribution
import Concordance.Branch
import Concordance.Category
import Concordance.Change
import Concordance.CommandLine
import Concordance.Completion
import Concordance.Config
import Concordance.Config.File
import Concordance.Console
import Concordance.Declaration
import Concordance.Declaration.Line
import Concordance.Expansion
import Concordance.Fields
import Concordance.FileTree
import Concordance.Health
import Concordance.Health.Finding
import Concordance.Item
import Concordance.Json.Basic
import Concordance.Json.Decoding
import Concordance.Json.Encoding
import Concordance.Json.Number
import Concordance.Json.Printer
import Concordance.Json.Reader
import Concordance.Main
import Concordance.Node
import Concordance.Notice
import Concordance.Occurrence
import Concordance.Occurrence.Line
import Concordance.Path
import Concordance.Pattern
import Concordance.Project
import Concordance.Proofs.Attribution.Cases
import Concordance.Proofs.Attribution.Declared
import Concordance.Proofs.Attribution.Fresh
import Concordance.Proofs.Attribution.Logged
import Concordance.Proofs.Attribution.Order
import Concordance.Proofs.Attribution.Settled
import Concordance.Proofs.Branch.Rows
import Concordance.Proofs.Change.Pending
import Concordance.Proofs.Completion.Answer
import Concordance.Proofs.Completion.Cancellation
import Concordance.Proofs.Completion.Tags
import Concordance.Proofs.Completion.World
import Concordance.Proofs.Console
import Concordance.Proofs.Declaration.Columns
import Concordance.Proofs.Declaration.SourceLine
import Concordance.Proofs.Declaration.TagLine
import Concordance.Proofs.Declaration.Written
import Concordance.Proofs.Expansion.Depth
import Concordance.Proofs.Expansion.Levels
import Concordance.Proofs.Expansion.Nodes
import Concordance.Proofs.Expansion.Shape
import Concordance.Proofs.Fields.Insertion
import Concordance.Proofs.FileTree.Leads
import Concordance.Proofs.FileTree.Walk
import Concordance.Proofs.Health.Advice
import Concordance.Proofs.Health.Report
import Concordance.Proofs.Json.Encoding
import Concordance.Proofs.Json.Writable
import Concordance.Proofs.Occurrence.Columns
import Concordance.Proofs.Occurrence.Grammar
import Concordance.Proofs.Path.Names
import Concordance.Proofs.Path.Text
import Concordance.Proofs.Pattern.Expression
import Concordance.Proofs.Pattern.Loose
import Concordance.Proofs.Project.Batches
import Concordance.Proofs.Project.Faults
import Concordance.Proofs.Project.Outline
import Concordance.Proofs.Project.Places
import Concordance.Proofs.Project.Records
import Concordance.Proofs.Project.References
import Concordance.Proofs.Project.Search
import Concordance.Proofs.Report.Occurrences
import Concordance.Proofs.Roots.Changes
import Concordance.Proofs.Roots.Commit
import Concordance.Proofs.Roots.Distinct
import Concordance.Proofs.Roots.Interleaving
import Concordance.Proofs.Roots.Labels
import Concordance.Proofs.Roots.Missing
import Concordance.Proofs.Roots.Run
import Concordance.Proofs.Roots.Shape
import Concordance.Proofs.Roots.Shared
import Concordance.Proofs.Roots.Undo
import Concordance.Proofs.Session.Outcome
import Concordance.Proofs.Session.Printing
import Concordance.Proofs.Session.Result
import Concordance.Proofs.Tagging.Log
import Concordance.Proofs.Tagging.Requests
import Concordance.Proofs.Text.Chunking
import Concordance.Proofs.Text.Delivery
import Concordance.Proofs.Text.LineEnds
import Concordance.Proofs.Text.LineStream
import Concordance.Proofs.Text.Lines
import Concordance.Proofs.Text.Number
import Concordance.Proofs.Text.Search
import Concordance.Proofs.Text.Segments
import Concordance.Proofs.Text.Utf8.Ascii
import Concordance.Proofs.Text.Utf8.Decoding
import Concordance.Proofs.Text.Utf8.Encoding
import Concordance.Proofs.Text.Utf8.Reading
import Concordance.Proofs.Text.Utf8.Search
import Concordance.Proofs.Text.Words
import Concordance.Proofs.TextRange
import Concordance.Proofs.Tool.Dialogue
import Concordance.Proofs.Tool.Faults
import Concordance.Proofs.Tool.Listing
import Concordance.Proofs.Tool.Output
import Concordance.Proofs.Tool.Stateless
import Concordance.Proofs.Workspace.Index
import Concordance.Proofs.Workspace.Nearest
import Concordance.Relation
import Concordance.Report
import Concordance.Roots
import Concordance.Session
import Concordance.SystemFault
import Concordance.Tagging
import Concordance.Text.Blank
import Concordance.Text.LineStream
import Concordance.Text.Lines
import Concordance.Text.Number
import Concordance.Text.Search
import Concordance.Text.Utf8
import Concordance.TextRange
import Concordance.Toml.Basic
import Concordance.Toml.Number
import Concordance.Toml.Reader
import Concordance.Toml.Text
import Concordance.Tool.Dialogue
import Concordance.Tool.Host
import Concordance.Tool.Invocation
import Concordance.Tool.Message
import Concordance.Tool.Script
import Concordance.Workspace
