import SyntheticRows.Calendar.Date
import SyntheticRows.Calendar.DateTime
import SyntheticRows.Calendar.Iso
import SyntheticRows.CommandLine.Files
import SyntheticRows.CommandLine.Parameter
import SyntheticRows.CommandLine.Plain
import SyntheticRows.CommandLine.Program
import SyntheticRows.CommandLine.Shell
import SyntheticRows.CommandLine.Similarity
import SyntheticRows.CommandLine.Task
import SyntheticRows.CommandLine.Values
import SyntheticRows.Compile.Batch
import SyntheticRows.Compile.Generator
import SyntheticRows.Compile.Mutation
import SyntheticRows.Compile.Rebuild
import SyntheticRows.Compile.Table
import SyntheticRows.Compile.Template
import SyntheticRows.Decimal.Double
import SyntheticRows.Decimal.Shortest
import SyntheticRows.Decimal.Power
import SyntheticRows.Decimal.Number
import SyntheticRows.Decimal.Reading
import SyntheticRows.Demo.Tables
import SyntheticRows.Demo.Scenario
import SyntheticRows.Document.Entries
import SyntheticRows.Document.File
import SyntheticRows.Document.Generator
import SyntheticRows.Document.Reading
import SyntheticRows.Document.Table
import SyntheticRows.Document.Transformation
import SyntheticRows.Error
import SyntheticRows.Json.Reader
import SyntheticRows.Json.Writer
import SyntheticRows.Main
import SyntheticRows.Proofs.Compile.Chunk
import SyntheticRows.Proofs.Compile.Failure
import SyntheticRows.Proofs.Run.GenerationOrder
import SyntheticRows.Proofs.Run.Outcome
import SyntheticRows.Run.Chunk
import SyntheticRows.Run.Database
import SyntheticRows.Run.Generation
import SyntheticRows.Run.Generator
import SyntheticRows.Run.Inspection
import SyntheticRows.Run.Scenario
import SyntheticRows.Run.Session
import SyntheticRows.Run.Shadow
import SyntheticRows.Run.Transformation
import SyntheticRows.Settings.Database
import SyntheticRows.Settings.Field
import SyntheticRows.Settings.Generation
import SyntheticRows.Settings.Numeral
import SyntheticRows.Settings.Problem
import SyntheticRows.Spec.Check
import SyntheticRows.Spec.Generator
import SyntheticRows.Spec.Scenario
import SyntheticRows.Spec.Table
import SyntheticRows.Spec.Transformation
import SyntheticRows.Sql.Draw
import SyntheticRows.Sql.Engine
import SyntheticRows.Sql.Expr
import SyntheticRows.Sql.Function
import SyntheticRows.Sql.Identifier
import SyntheticRows.Sql.Literal
import SyntheticRows.Sql.Lookup
import SyntheticRows.Sql.Query
import SyntheticRows.Sql.RowSource
import SyntheticRows.Sql.Statement
import SyntheticRows.Sql.Target
import SyntheticRows.Text.Classes
import SyntheticRows.Text.Measure
import SyntheticRows.Text.Numeral
import SyntheticRows.Text.Quoted
import SyntheticRows.Text.Printable
import SyntheticRows.Text.Sha1
import SyntheticRows.Value.Basic
import SyntheticRows.Value.Display
import SyntheticRows.Value.Whole
import SyntheticRows.Yaml.Content
import SyntheticRows.Yaml.Lexer
import SyntheticRows.Yaml.Node
import SyntheticRows.Yaml.Resolve
import SyntheticRows.Yaml.ScalarText
import SyntheticRows.Yaml.Token
import SyntheticRows.Proofs.Compile.Returns
import SyntheticRows.Proofs.Compile.Batch
import SyntheticRows.Proofs.Compile.Rebuild
import SyntheticRows.Proofs.Run.TransformationOrder
import SyntheticRows.Proofs.Meaning.Datum
import SyntheticRows.Proofs.Meaning.Expr
import SyntheticRows.Proofs.Meaning.Statement
import SyntheticRows.Proofs.Meaning.Transformation
import SyntheticRows.Proofs.Meaning.Denotes
import SyntheticRows.Proofs.Meaning.Template
import SyntheticRows.Proofs.Meaning.Mutation
import SyntheticRows.Proofs.Meaning.Simultaneous
import SyntheticRows.Proofs.Meaning.Draw
import SyntheticRows.Proofs.Meaning.Assignment
import SyntheticRows.Proofs.Meaning.SharedUpdate
import SyntheticRows.Proofs.Meaning.TrinoUpdates
import SyntheticRows.Proofs.Meaning.Batch
import SyntheticRows.Proofs.Meaning.Rebuild
import SyntheticRows.Proofs.Meaning.Join
import SyntheticRows.Proofs.Meaning.RemainingUpdate
import SyntheticRows.Proofs.Meaning.Shadow
import SyntheticRows.Proofs.Meaning.Replacement
import SyntheticRows.Proofs.Run.Replacement
import SyntheticRows.Proofs.Run.BatchInTurn
import SyntheticRows.Proofs.Decimal.Quotient
import SyntheticRows.Proofs.Meaning.Source
import SyntheticRows.Proofs.Meaning.Level
import SyntheticRows.Proofs.Meaning.RowSource
import SyntheticRows.Proofs.Run.Sending
import SyntheticRows.Proofs.Meaning.ReplacementStage
import SyntheticRows.Proofs.Run.ShadowName
import SyntheticRows.Proofs.Run.ReplacementProtocol
import SyntheticRows.Proofs.Run.Sweep
import SyntheticRows.Proofs.Meaning.SequenceColumn
import SyntheticRows.Proofs.Meaning.Insert
import SyntheticRows.Proofs.Run.ChunkPlan
import SyntheticRows.Proofs.Run.ChunkedGeneration
import SyntheticRows.Proofs.Meaning.AddedRows
import SyntheticRows.Proofs.Meaning.Extreme
import SyntheticRows.Proofs.Run.Course
import SyntheticRows.Proofs.Run.RepeatedGeneration
import SyntheticRows.Proofs.Run.ResumedSeries
import SyntheticRows.Proofs.Run.SharedOrdinals
import SyntheticRows.Proofs.Lexical.NameToken
import SyntheticRows.Proofs.Lexical.TextToken
import SyntheticRows.Proofs.Lookup.Column
import SyntheticRows.Proofs.Lookup.Interchange
import SyntheticRows.Proofs.Document.Reference
import SyntheticRows.Proofs.Document.Slip
import SyntheticRows.Proofs.Draw.Distinct
import SyntheticRows.Proofs.Run.ScenarioTotals
import SyntheticRows.Proofs.Meaning.Substitution
import SyntheticRows.Proofs.Meaning.SingleEdit
import SyntheticRows.Proofs.Lexical.StatementShape
import SyntheticRows.Proofs.Run.NextMember
import SyntheticRows.Proofs.Compile.Avoidance
import SyntheticRows.Proofs.Run.SetColumns
import SyntheticRows.Proofs.Run.AcceptedBatches
import SyntheticRows.Proofs.Run.DuplicateAssignment
import SyntheticRows.Proofs.Run.CarriedAssignments
import SyntheticRows.Proofs.Calendar.DayNumber
import SyntheticRows.Proofs.Lexical.Moment
import SyntheticRows.Proofs.Calendar.DayCount
import SyntheticRows.Proofs.Draw.Span
import SyntheticRows.Proofs.Decimal.Nearest
import SyntheticRows.Proofs.Machine.Arithmetic
import SyntheticRows.Proofs.Machine.Sequence
import SyntheticRows.Proofs.Machine.IntRange
import SyntheticRows.Proofs.Machine.Offset
import SyntheticRows.Proofs.Lookup.Reach
import SyntheticRows.Proofs.Lookup.Closed
import SyntheticRows.Proofs.Meaning.RandomText
import SyntheticRows.Proofs.Run.Connecting
import SyntheticRows.Proofs.Document.Spelling
import SyntheticRows.Proofs.Settings.Layering
import SyntheticRows.Proofs.Draw.Batch
import SyntheticRows.Proofs.Run.ServedTables
import SyntheticRows.Proofs.Demo.Integrity
