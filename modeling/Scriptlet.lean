import Scriptlet.Console.Arguments
import Scriptlet.Console.CommandLine
import Scriptlet.Console.Prompt
import Scriptlet.Console.Session
import Scriptlet.Decimal.Notation
import Scriptlet.Decimal.Numeral
import Scriptlet.Main
import Scriptlet.Parse.Diagnostic
import Scriptlet.Parse.Expression
import Scriptlet.Parse.Parser
import Scriptlet.Parse.Statement
import Scriptlet.Proofs.Comparing.Coherence
import Scriptlet.Proofs.Comparing.Doubles
import Scriptlet.Proofs.Console.Calls
import Scriptlet.Proofs.Console.Chunking
import Scriptlet.Proofs.Console.Conversations
import Scriptlet.Proofs.Console.Dumps
import Scriptlet.Proofs.Console.Locations
import Scriptlet.Proofs.Console.Reports
import Scriptlet.Proofs.Console.Sessions
import Scriptlet.Proofs.Console.Steps
import Scriptlet.Proofs.Console.Waiting
import Scriptlet.Proofs.Display.Doubles
import Scriptlet.Proofs.Display.Leaves
import Scriptlet.Proofs.Display.Numbers
import Scriptlet.Proofs.Display.Readability
import Scriptlet.Proofs.Display.Readings
import Scriptlet.Proofs.Display.Rounding
import Scriptlet.Proofs.Display.Unambiguity
import Scriptlet.Proofs.Faults.Course
import Scriptlet.Proofs.Faults.Declarations
import Scriptlet.Proofs.Faults.Enclosing
import Scriptlet.Proofs.Faults.Expressions
import Scriptlet.Proofs.Faults.Isolation
import Scriptlet.Proofs.Faults.Omissions
import Scriptlet.Proofs.Faults.Repetition
import Scriptlet.Proofs.Faults.Skipping
import Scriptlet.Proofs.Faults.Statements
import Scriptlet.Proofs.Lexing.Exactness
import Scriptlet.Proofs.Lexing.Grammar
import Scriptlet.Proofs.Lexing.Lexemes
import Scriptlet.Proofs.Lexing.Numerals
import Scriptlet.Proofs.Lexing.Spacing
import Scriptlet.Proofs.Limits.Answers
import Scriptlet.Proofs.Limits.Carving
import Scriptlet.Proofs.Limits.Expressions
import Scriptlet.Proofs.Limits.Losses
import Scriptlet.Proofs.Limits.Lowering
import Scriptlet.Proofs.Limits.Pieces
import Scriptlet.Proofs.Limits.Raising
import Scriptlet.Proofs.Limits.Runs
import Scriptlet.Proofs.Limits.Trimming
import Scriptlet.Proofs.Locality.Braces
import Scriptlet.Proofs.Locality.Chunks
import Scriptlet.Proofs.Locality.Completion
import Scriptlet.Proofs.Locality.Declarations
import Scriptlet.Proofs.Locality.Expressions
import Scriptlet.Proofs.Locality.Joints
import Scriptlet.Proofs.Locality.Lookahead
import Scriptlet.Proofs.Locality.Programs
import Scriptlet.Proofs.Locality.Recovery
import Scriptlet.Proofs.Locality.Spacing
import Scriptlet.Proofs.Locality.Statements
import Scriptlet.Proofs.Nesting.Bounds
import Scriptlet.Proofs.Nesting.Counting
import Scriptlet.Proofs.Nesting.Mirror
import Scriptlet.Proofs.Parsing.Chains
import Scriptlet.Proofs.Parsing.Exactness
import Scriptlet.Proofs.Parsing.Expressions
import Scriptlet.Proofs.Parsing.Frames
import Scriptlet.Proofs.Parsing.Grammar
import Scriptlet.Proofs.Parsing.Grounds
import Scriptlet.Proofs.Parsing.Literals
import Scriptlet.Proofs.Parsing.Operands
import Scriptlet.Proofs.Parsing.Reading
import Scriptlet.Proofs.Parsing.Results
import Scriptlet.Proofs.Parsing.Sequences
import Scriptlet.Proofs.Parsing.Statements
import Scriptlet.Proofs.Parsing.Targets
import Scriptlet.Proofs.Progress.Charges
import Scriptlet.Proofs.Progress.Endings
import Scriptlet.Proofs.Progress.Loops
import Scriptlet.Proofs.Reporting.Excerpts
import Scriptlet.Proofs.Reporting.Histories
import Scriptlet.Proofs.Reporting.Lines
import Scriptlet.Proofs.Running.Bracketings
import Scriptlet.Proofs.Running.Choices
import Scriptlet.Proofs.Running.Columns
import Scriptlet.Proofs.Running.Discipline
import Scriptlet.Proofs.Running.Evolution
import Scriptlet.Proofs.Running.Executions
import Scriptlet.Proofs.Running.Likeness
import Scriptlet.Proofs.Running.Mentions
import Scriptlet.Proofs.Running.Printing
import Scriptlet.Proofs.Running.Room
import Scriptlet.Proofs.Running.Shadowing
import Scriptlet.Proofs.Running.Stacks
import Scriptlet.Proofs.Styling.Reporters
import Scriptlet.Proofs.Styling.Sequences
import Scriptlet.Proofs.Styling.Templates
import Scriptlet.Proofs.Unclosed.Abreast
import Scriptlet.Proofs.Unclosed.Programs
import Scriptlet.Proofs.Unclosed.Scanning
import Scriptlet.Report.Notice
import Scriptlet.Report.Reporter
import Scriptlet.Run.Action
import Scriptlet.Run.Execute
import Scriptlet.Run.Scopes
import Scriptlet.Run.Value
import Scriptlet.Text.Basic
import Scriptlet.Text.Message
import Scriptlet.Text.Quoted
import Scriptlet.Text.Template
import Scriptlet.Token.Basic
import Scriptlet.Token.Scan
import Scriptlet.Tree.Basic
import Scriptlet.Tree.Display
