import ConfigNotation.Calendar.Reader
import ConfigNotation.Command.Directory
import ConfigNotation.Command.Host
import ConfigNotation.Command.Options
import ConfigNotation.Command.Run
import ConfigNotation.Eval.Class
import ConfigNotation.Eval.Conformance
import ConfigNotation.Eval.Error
import ConfigNotation.Eval.Expr
import ConfigNotation.Eval.Scope
import ConfigNotation.Eval.Session
import ConfigNotation.File.System
import ConfigNotation.Main
import ConfigNotation.Proofs.Bytes.Access
import ConfigNotation.Proofs.Bytes.Delimited
import ConfigNotation.Proofs.Bytes.Interpolation
import ConfigNotation.Proofs.Bytes.Matchers
import ConfigNotation.Proofs.Bytes.Numerals
import ConfigNotation.Proofs.Bytes.Safety
import ConfigNotation.Proofs.Bytes.Scanner
import ConfigNotation.Proofs.Calendar.Civil
import ConfigNotation.Proofs.Calendar.Reading
import ConfigNotation.Proofs.Command.Agreement
import ConfigNotation.Proofs.Eval.Bookkeeping
import ConfigNotation.Proofs.Eval.Building
import ConfigNotation.Proofs.Eval.Calls
import ConfigNotation.Proofs.Eval.Conformance
import ConfigNotation.Proofs.Eval.Congruence
import ConfigNotation.Proofs.Eval.Constructors
import ConfigNotation.Proofs.Eval.Containers
import ConfigNotation.Proofs.Eval.Deferral
import ConfigNotation.Proofs.Eval.Depth
import ConfigNotation.Proofs.Eval.Destructuring
import ConfigNotation.Proofs.Eval.FirstFault
import ConfigNotation.Proofs.Eval.Gives
import ConfigNotation.Proofs.Eval.Halting
import ConfigNotation.Proofs.Eval.History
import ConfigNotation.Proofs.Eval.Imports
import ConfigNotation.Proofs.Eval.Instances
import ConfigNotation.Proofs.Eval.Interpolation
import ConfigNotation.Proofs.Eval.LiteralTypes
import ConfigNotation.Proofs.Eval.LoadEffect
import ConfigNotation.Proofs.Eval.Loading
import ConfigNotation.Proofs.Eval.Placed
import ConfigNotation.Proofs.Eval.Positions
import ConfigNotation.Proofs.Eval.QuotedDefaults
import ConfigNotation.Proofs.Eval.ReferenceTexts
import ConfigNotation.Proofs.Eval.References
import ConfigNotation.Proofs.Eval.Runs
import ConfigNotation.Proofs.Eval.SessionValue
import ConfigNotation.Proofs.Eval.SharedCache
import ConfigNotation.Proofs.Eval.SoundValues
import ConfigNotation.Proofs.Eval.Spanless
import ConfigNotation.Proofs.Eval.StatementOrder
import ConfigNotation.Proofs.Eval.Termination
import ConfigNotation.Proofs.Eval.Unreached
import ConfigNotation.Proofs.Eval.Validators
import ConfigNotation.Proofs.File.Decoding
import ConfigNotation.Proofs.File.Normal
import ConfigNotation.Proofs.File.Resolution
import ConfigNotation.Proofs.File.Store
import ConfigNotation.Proofs.Json.Grammar
import ConfigNotation.Proofs.Json.Quotation
import ConfigNotation.Proofs.Json.Unambiguous
import ConfigNotation.Proofs.Number.Decoding
import ConfigNotation.Proofs.Number.Integers
import ConfigNotation.Proofs.Number.Numeral
import ConfigNotation.Proofs.Source.Dates
import ConfigNotation.Proofs.Source.Declarations
import ConfigNotation.Proofs.Source.Faults
import ConfigNotation.Proofs.Source.FeedBack
import ConfigNotation.Proofs.Source.Numbers
import ConfigNotation.Proofs.Source.Quoted
import ConfigNotation.Proofs.Source.Reading
import ConfigNotation.Proofs.Source.Replacing
import ConfigNotation.Proofs.Source.RoundTrip
import ConfigNotation.Proofs.Source.Streams
import ConfigNotation.Proofs.Source.TypeReading
import ConfigNotation.Proofs.Source.Words
import ConfigNotation.Proofs.Syntax.AliasEnd
import ConfigNotation.Proofs.Syntax.Alike
import ConfigNotation.Proofs.Syntax.Arrangement
import ConfigNotation.Proofs.Syntax.Consumption
import ConfigNotation.Proofs.Syntax.ExactSpans
import ConfigNotation.Proofs.Syntax.LastMarks
import ConfigNotation.Proofs.Syntax.Literals
import ConfigNotation.Proofs.Syntax.Lockstep
import ConfigNotation.Proofs.Syntax.PatternTrees
import ConfigNotation.Proofs.Syntax.Spanless
import ConfigNotation.Proofs.Syntax.Spans
import ConfigNotation.Proofs.Syntax.WellFormed
import ConfigNotation.Proofs.Text.Blanking
import ConfigNotation.Proofs.Text.Comment
import ConfigNotation.Proofs.Text.Escapes
import ConfigNotation.Proofs.Text.LineTable
import ConfigNotation.Proofs.Text.Lines
import ConfigNotation.Proofs.Text.Parts
import ConfigNotation.Proofs.Text.PlaceholderForms
import ConfigNotation.Proofs.Text.Placeholders
import ConfigNotation.Proofs.Text.Split
import ConfigNotation.Proofs.Token.Identifiers
import ConfigNotation.Proofs.Token.Match
import ConfigNotation.Proofs.Token.Names
import ConfigNotation.Proofs.Token.Numerals
import ConfigNotation.Proofs.Token.Origins
import ConfigNotation.Proofs.Token.Spelling
import ConfigNotation.Proofs.Token.Strings
import ConfigNotation.Proofs.Token.Tiling
import ConfigNotation.Proofs.Value.Layout
import ConfigNotation.Proofs.Value.Merge
import ConfigNotation.Proofs.Value.Reordering
import ConfigNotation.Regex.Validity
import ConfigNotation.Source.Emission
import ConfigNotation.Source.Quoted
import ConfigNotation.Source.Sink
import ConfigNotation.Source.Writer
import ConfigNotation.Syntax.Parser.Module
import ConfigNotation.Text.Template
import ConfigNotation.Token.Lexer
import ConfigNotation.Value.Basic
import ConfigNotation.Value.Record
import ConfigNotation.Value.Text
