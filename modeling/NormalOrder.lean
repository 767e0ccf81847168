import NormalOrder.Text.Range
import NormalOrder.Text.Blank
import NormalOrder.Text.Alphanumeric
import NormalOrder.Text.Printable
import NormalOrder.Text.Decimal
import NormalOrder.Text.Quoted
import NormalOrder.Text.Styled
import NormalOrder.Text.Layout
import NormalOrder.Text.Template.Error
import NormalOrder.Text.Template.Field
import NormalOrder.Text.Template.Basic
import NormalOrder.Text.Line
import NormalOrder.Text.Utf8
import NormalOrder.Source
import NormalOrder.Token.Basic
import NormalOrder.Token.Lexer
import NormalOrder.Term.Basic
import NormalOrder.Term.Printer
import NormalOrder.Term.Alpha
import NormalOrder.Parsing.Error
import NormalOrder.Parsing.Stack
import NormalOrder.Parsing.Basic
import NormalOrder.Reduction.Renaming
import NormalOrder.Reduction.Substitution
import NormalOrder.Reduction.Step
import NormalOrder.Reduction.Sequence
import NormalOrder.Fault
import NormalOrder.Reporter
import NormalOrder.Reader
import NormalOrder.Sink
import NormalOrder.Session
import NormalOrder.Shell
import NormalOrder.CommandLine
import NormalOrder.Program
import NormalOrder.Main
import NormalOrder.Proofs.Grammar
import NormalOrder.Proofs.Tokenisation
import NormalOrder.Proofs.SourceNames
import NormalOrder.Proofs.Printing
import NormalOrder.Proofs.Naming
import NormalOrder.Proofs.Nameless
import NormalOrder.Proofs.DeBruijn
import NormalOrder.Proofs.Reduction
import NormalOrder.Proofs.Standardisation
import NormalOrder.Proofs.AlphaEquivalence
import NormalOrder.Proofs.Contraction
import NormalOrder.Proofs.NamelessStep
import NormalOrder.Proofs.Substitution
import NormalOrder.Proofs.Hygiene
import NormalOrder.Proofs.Normalisation
import NormalOrder.Proofs.Simulation
import NormalOrder.Proofs.Templates
import NormalOrder.Proofs.ViablePrefixes
import NormalOrder.Proofs.LocalErrors
import NormalOrder.Proofs.Encoding
import NormalOrder.Proofs.Lines
import NormalOrder.Proofs.Places
import NormalOrder.Proofs.Reading
import NormalOrder.Proofs.Diagnosis
import NormalOrder.Proofs.Endings
import NormalOrder.Proofs.EscapeSequences
import NormalOrder.Proofs.FileRuns
import NormalOrder.Proofs.Independence
import NormalOrder.Proofs.Colours
import NormalOrder.Proofs.LineGroups
import NormalOrder.Proofs.Brackets
import NormalOrder.Proofs.BoundedRuns
import NormalOrder.Proofs.ExitStatus
import NormalOrder.Proofs.Positions
import NormalOrder.Proofs.FirstRedex
import NormalOrder.Proofs.Budgets
import NormalOrder.Proofs.Conversion
import NormalOrder.Proofs.Feeds
import NormalOrder.Proofs.Readability
import NormalOrder.Proofs.LongReductions
import NormalOrder.Proofs.Messages
import NormalOrder.Proofs.Frames
import NormalOrder.Proofs.StackInvariant
