import Configurable.Conversion.Text
import Configurable.Conversion.Tree
import Configurable.Data.Basic
import Configurable.Data.Json
import Configurable.Data.Yaml
import Configurable.Diagnostic
import Configurable.Entries
import Configurable.FileTree
import Configurable.Kind
import Configurable.Markup
import Configurable.ModuleId
import Configurable.Number.Binary64
import Configurable.Number.Decimal
import Configurable.Number.FloatText
import Configurable.Number.Integer
import Configurable.Number.Power
import Configurable.Problem
import Configurable.Proofs.Advice
import Configurable.Proofs.Alternatives
import Configurable.Proofs.ArgumentMap
import Configurable.Proofs.ArgumentOrder
import Configurable.Proofs.Bindings
import Configurable.Proofs.Building
import Configurable.Proofs.Completion
import Configurable.Proofs.Conforms
import Configurable.Proofs.DecimalDigits
import Configurable.Proofs.DecimalRange
import Configurable.Proofs.DecimalText
import Configurable.Proofs.DeclarationOrder
import Configurable.Proofs.DocumentStructure
import Configurable.Proofs.Entries
import Configurable.Proofs.ExactDecimals
import Configurable.Proofs.Exactness
import Configurable.Proofs.FirstMember
import Configurable.Proofs.GrammarForward
import Configurable.Proofs.HeaderTables
import Configurable.Proofs.History
import Configurable.Proofs.Intersections
import Configurable.Proofs.Judged
import Configurable.Proofs.KeyedRows
import Configurable.Proofs.Leaves
import Configurable.Proofs.Lines
import Configurable.Proofs.LowerPriority
import Configurable.Proofs.MarkupGrammar
import Configurable.Proofs.Meaning
import Configurable.Proofs.NodeIdentity
import Configurable.Proofs.NumberLiterals
import Configurable.Proofs.Numbering
import Configurable.Proofs.Pass
import Configurable.Proofs.PlainText
import Configurable.Proofs.Positions
import Configurable.Proofs.ReaderRuns
import Configurable.Proofs.Reading
import Configurable.Proofs.Recursion
import Configurable.Proofs.Refinement
import Configurable.Proofs.SameShape
import Configurable.Proofs.SchemaAgreement
import Configurable.Proofs.SchemaLayout
import Configurable.Proofs.SchemaValidity
import Configurable.Proofs.SectionedValues
import Configurable.Proofs.Session
import Configurable.Proofs.Soundness
import Configurable.Proofs.Spans
import Configurable.Proofs.Spelling
import Configurable.Proofs.TableContents
import Configurable.Proofs.TableEnds
import Configurable.Proofs.Transcript
import Configurable.Proofs.Transparency
import Configurable.Proofs.UniqueKeys
import Configurable.Proofs.UnusedArguments
import Configurable.Proofs.UnusedEntries
import Configurable.Proofs.UnusedLabels
import Configurable.Proofs.ValueEquality
import Configurable.Proofs.Writer
import Configurable.Proofs.WrittenValues
import Configurable.Report
import Configurable.Resolution
import Configurable.Resolver
import Configurable.Schema
import Configurable.Sections
import Configurable.Source.Any
import Configurable.Source.Basic
import Configurable.Source.CommandLine
import Configurable.Source.DocumentFile
import Configurable.Text.Alphabetic
import Configurable.Text.Blank
import Configurable.Text.BreakClass
import Configurable.Text.CharTable
import Configurable.Text.Excerpt
import Configurable.Text.LineBreak
import Configurable.Text.Position
import Configurable.Text.Width
import Configurable.Text.Wrap
import Configurable.Toml.Document
import Configurable.Toml.DottedKey
import Configurable.Toml.Failure
import Configurable.Toml.Literal
import Configurable.Toml.Moment
import Configurable.Toml.Node
import Configurable.Toml.Number
import Configurable.Toml.Quoted
import Configurable.Toml.Reader
import Configurable.Toml.Statement
import Configurable.Toml.Syntax
import Configurable.Toml.Table
import Configurable.TypeGraph.Basic
import Configurable.TypeGraph.Effective
import Configurable.TypeGraph.Render
import Configurable.Value
import Configurable.Variable
