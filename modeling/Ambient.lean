import Ambient.Batch.Check
import Ambient.Batch.Combine
import Ambient.Batch.Declare
import Ambient.Batch.Discovery
import Ambient.Batch.Output
import Ambient.Batch.Report
import Ambient.Batch.Work
import Ambient.Cli.Options
import Ambient.Cli.Session
import Ambient.Command.Run
import Ambient.Command.Shell
import Ambient.Data.Json
import Ambient.Data.Value
import Ambient.Data.Yaml.Plain
import Ambient.Data.Yaml.Reader
import Ambient.Data.Yaml.Scalar
import Ambient.Data.Yaml.Spot
import Ambient.Decimal.Binary64
import Ambient.Decimal.Numeral
import Ambient.Declaration.Classify
import Ambient.Declaration.Entry
import Ambient.Declaration.Model
import Ambient.Declaration.Module
import Ambient.Declaration.Printer
import Ambient.Doc.Block
import Ambient.Doc.Braces
import Ambient.Doc.Signature
import Ambient.Doc.Tag
import Ambient.Files.Disk
import Ambient.Files.Path
import Ambient.Log
import Ambient.Main
import Ambient.Name.Filter
import Ambient.Name.Generic
import Ambient.Name.Reserved
import Ambient.Proofs.Declaration.Abort
import Ambient.Proofs.Declaration.Account
import Ambient.Proofs.Declaration.Comment
import Ambient.Proofs.Declaration.Consistency
import Ambient.Proofs.Declaration.Effect
import Ambient.Proofs.Declaration.Order
import Ambient.Proofs.Declaration.Path
import Ambient.Proofs.Declaration.Placement
import Ambient.Proofs.Declaration.Printed
import Ambient.Proofs.Declaration.Register
import Ambient.Proofs.Declaration.Run
import Ambient.Proofs.Declaration.Step
import Ambient.Proofs.Declaration.Trace
import Ambient.Proofs.Doc.Braces
import Ambient.Proofs.Doc.TypedTag
import Ambient.Proofs.Text.Cut
import Ambient.Proofs.Text.Lines
import Ambient.Proofs.TypeExpr.Atom
import Ambient.Proofs.TypeExpr.Complete
import Ambient.Proofs.TypeExpr.Derivation
import Ambient.Proofs.TypeExpr.Layout
import Ambient.Proofs.TypeExpr.Lexeme
import Ambient.Proofs.TypeExpr.Outside
import Ambient.Proofs.TypeExpr.Precedence
import Ambient.Proofs.TypeExpr.Refused
import Ambient.Proofs.TypeExpr.Relocated
import Ambient.Proofs.TypeExpr.RoundTrip
import Ambient.Proofs.TypeExpr.Shape
import Ambient.Proofs.TypeExpr.Sound
import Ambient.Proofs.TypeExpr.Spelling
import Ambient.Proofs.TypeExpr.TypeTree
import Ambient.Refusal
import Ambient.Script.Basic
import Ambient.Script.Cursor
import Ambient.Script.Grammar.Expression
import Ambient.Script.Grammar.Goal
import Ambient.Script.Grammar.Statement
import Ambient.Script.Naming
import Ambient.Script.Program
import Ambient.Script.Token
import Ambient.Settings.Basic
import Ambient.Settings.Load
import Ambient.Text.Blank
import Ambient.Text.Glob
import Ambient.Text.Lines
import Ambient.Text.Order
import Ambient.Text.Quoted
import Ambient.Text.Utf8
import Ambient.Text.Word
import Ambient.TypeExpr.Basic
import Ambient.TypeExpr.Declared
import Ambient.TypeExpr.Phrase
import Ambient.TypeExpr.Reading
import Ambient.TypeExpr.Token
import Ambient.Proofs.Declaration.Commute
import Ambient.Proofs.Declaration.Private
import Ambient.Proofs.Name.Reserved
import Ambient.Proofs.Declaration.Reference
import Ambient.Proofs.Files.Path
import Ambient.Proofs.Files.Disk
import Ambient.Proofs.Batch.Discovery
import Ambient.Proofs.Batch.Work
import Ambient.Proofs.Batch.Draft
import Ambient.Proofs.Batch.Folder
import Ambient.Proofs.Batch.Sole
import Ambient.Proofs.Data.Table
import Ambient.Proofs.Batch.Report
import Ambient.Proofs.Cli.Course
import Ambient.Proofs.Cli.Status
import Ambient.Proofs.TypeExpr.Alike
import Ambient.Proofs.TypeExpr.Nullability
import Ambient.Proofs.TypeExpr.Padding
import Ambient.Proofs.TypeExpr.Flattening
import Ambient.Proofs.TypeExpr.Respelled
import Ambient.Proofs.TypeExpr.Properties
import Ambient.Proofs.TypeExpr.Viable
import Ambient.Proofs.Doc.Segments
import Ambient.Proofs.Doc.Bracketed
import Ambient.Proofs.Declaration.Uncommented
import Ambient.Proofs.Settings.Field
import Ambient.Proofs.Settings.Strictness
import Ambient.Proofs.Doc.Enclosed
import Ambient.Proofs.Batch.Output
import Ambient.Proofs.Settings.Usable
import Ambient.Proofs.Batch.Place
import Ambient.Proofs.Script.Onward
import Ambient.Proofs.Script.Expression
import Ambient.Proofs.Script.Statement
import Ambient.Proofs.Script.TopLevel
import Ambient.Proofs.Script.Attached
