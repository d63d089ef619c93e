import ScopeScript.Binding.Basic
import ScopeScript.Binding.Resolve
import ScopeScript.CommandLine.Command
import ScopeScript.CommandLine.Directory
import ScopeScript.CommandLine.Prompt
import ScopeScript.CommandLine.Transcript
import ScopeScript.Diagnostic
import ScopeScript.Fault
import ScopeScript.Machine.Basic
import ScopeScript.Machine.Operator
import ScopeScript.Machine.Run
import ScopeScript.Machine.Step
import ScopeScript.Main
import ScopeScript.NameMap
import ScopeScript.Number.Layout
import ScopeScript.Number.Parts
import ScopeScript.Number.Read
import ScopeScript.Number.Shortest
import ScopeScript.Session
import ScopeScript.Sink
import ScopeScript.Source.Piece
import ScopeScript.Source.Scan
import ScopeScript.Store.Basic
import ScopeScript.Store.Display
import ScopeScript.Store.Object
import ScopeScript.Store.Scope
import ScopeScript.Syntax.Basic
import ScopeScript.Syntax.Cursor
import ScopeScript.Syntax.Error
import ScopeScript.Syntax.Expression
import ScopeScript.Syntax.Printer
import ScopeScript.Syntax.Program
import ScopeScript.Syntax.Reference
import ScopeScript.Syntax.Statement
import ScopeScript.Text.Blank
import ScopeScript.Text.Hidden
import ScopeScript.Text.Json
import ScopeScript.Text.Quoted
import ScopeScript.Token.Basic
import ScopeScript.Token.Display
import ScopeScript.Utf8
import ScopeScript.Value
import ScopeScript.Proofs.Grammar.Phrase
import ScopeScript.Proofs.Parsing.Rule
import ScopeScript.Proofs.Parsing.Reading
import ScopeScript.Proofs.Parsing.Soundness
import ScopeScript.Proofs.Grammar.Dangling
import ScopeScript.Proofs.Parsing.Acceptance
import ScopeScript.Proofs.Execution.Chain
import ScopeScript.Proofs.Execution.Classes
import ScopeScript.Proofs.Execution.Edits
import ScopeScript.Proofs.Execution.Moves
import ScopeScript.Proofs.Lexical.Calls
import ScopeScript.Proofs.Lexical.Session
import ScopeScript.Proofs.Session.LocalNames
import ScopeScript.Proofs.Session.Receivers
import ScopeScript.Proofs.Session.Permanence
import ScopeScript.Proofs.Output.Limit
import ScopeScript.Proofs.Session.Confinement
import ScopeScript.Proofs.Execution.Signals
import ScopeScript.Proofs.Scanning.Lexeme
import ScopeScript.Proofs.Scanning.Cut
import ScopeScript.Proofs.Scanning.Reader
import ScopeScript.Proofs.Scanning.Spans
import ScopeScript.Proofs.Execution.Surroundings
import ScopeScript.Proofs.Session.Hosts
import ScopeScript.Proofs.Execution.Methods
import ScopeScript.Proofs.Execution.Grounding
import ScopeScript.Proofs.Execution.GroundedSteps
import ScopeScript.Proofs.Execution.Walks
import ScopeScript.Proofs.Session.ObjectGraph
import ScopeScript.Proofs.Scoping.Concatenation
import ScopeScript.Proofs.Execution.Regular
import ScopeScript.Proofs.Execution.Programs
import ScopeScript.Proofs.Session.Splitting
import ScopeScript.Proofs.Parsing.Shifting
import ScopeScript.Proofs.Parsing.Joining
import ScopeScript.Proofs.Scoping.Uniqueness
import ScopeScript.Proofs.Session.Rejection
import ScopeScript.Proofs.Parsing.Precedence
import ScopeScript.Proofs.Scoping.Warnings
import ScopeScript.Proofs.Session.Origins
import ScopeScript.Proofs.Session.Loops
import ScopeScript.Proofs.Execution.Construction
import ScopeScript.Proofs.Store.Access
import ScopeScript.Proofs.Session.ClassDeclarations
import ScopeScript.Proofs.Session.Members
import ScopeScript.Proofs.Parsing.Recovery
import ScopeScript.Proofs.Scanning.Determinacy
import ScopeScript.Proofs.Scanning.LineNumbers
import ScopeScript.Proofs.Scanning.NextLine
import ScopeScript.Proofs.Scanning.Characters
import ScopeScript.Proofs.Scanning.Texts
import ScopeScript.Proofs.Scanning.ReadBack
import ScopeScript.Proofs.Scanning.Unexpected
import ScopeScript.Proofs.Scoping.Bracketing
import ScopeScript.Proofs.Scanning.Skipping
