import Assay.Text.Span
import Assay.Text.Digit
import Assay.Text.Printable
import Assay.Text.Quoted
import Assay.Text.Utf8
import Assay.Position
import Assay.Problem
import Assay.Token.Kind
import Assay.Token.Word
import Assay.Token.Basic
import Assay.Lexeme.Pattern
import Assay.Lexeme.Quotation
import Assay.Lexeme.Fault
import Assay.Lexeme.Rule
import Assay.Lexeme.Basic
import Assay.Token.Scan
import Assay.Token.Scanner
import Assay.Node.Basic
import Assay.Node.Outline
import Assay.Identifier
import Assay.Diagnostic
import Assay.Reading.Basic
import Assay.Reading.Statement
import Assay.Reading.Recovery
import Assay.Reading.Program
import Assay.Tape
import Assay.Parser
import Assay.Json.Basic
import Assay.Json.Printer
import Assay.Log
import Assay.Analysis
import Assay.Response
import Assay.Service
import Assay.Path
import Assay.CommandLine
import Assay.Clock
import Assay.Main
import Assay.Proofs.Stream
import Assay.Proofs.Grammar
import Assay.Proofs.Recovery
import Assay.Proofs.Statements
import Assay.Proofs.Segments
import Assay.Proofs.MissingEnd
import Assay.Proofs.Acceptance
import Assay.Proofs.Lines
import Assay.Proofs.Places
import Assay.Proofs.Numerals
import Assay.Proofs.Reach
import Assay.Proofs.LongestMatch
import Assay.Proofs.Quotations
import Assay.Proofs.Lexemes
import Assay.Proofs.Layout
import Assay.Proofs.Sessions
import Assay.Proofs.Findings
import Assay.Proofs.LineReach
import Assay.Proofs.Literals
import Assay.Proofs.BlockLiterals
import Assay.Proofs.LineLiterals
import Assay.Proofs.ScanLines
import Assay.Proofs.Names
import Assay.Proofs.Tracing
import Assay.Proofs.ExitCodes
import Assay.Proofs.Rewriting
import Assay.Proofs.Respelling
import Assay.Proofs.Respacing
import Assay.Proofs.LineEnds
import Assay.Proofs.Comments
import Assay.Proofs.Uncommented
import Assay.Proofs.Indexed.Text
import Assay.Proofs.Indexed.Parse
import Assay.Proofs.Indexed.Calls
import Assay.Proofs.Resumption
import Assay.Proofs.Indexed.Scan
import Assay.Proofs.Indexed.Rules
import Assay.Proofs.Answers
import Assay.Proofs.Quoting
import Assay.Proofs.PrintedLines
import Assay.Proofs.Outlines
import Assay.Proofs.Printouts
import Assay.Proofs.Encoding
import Assay.Proofs.Inputs
