import ScopeScript.Token.Basic
import ScopeScript.Utf8

/-! # Diagnostics

Every stage reports its faults as diagnostics, which all read alike. A source that fails is rejected
either before it runs, with every static fault, or at the one fault that stopped it.
-/

namespace ScopeScript

/-- The stage of a run that found a fault. -/
inductive Stage where
  | lex | parse | resolve | runtime
  deriving DecidableEq

/-- A fault as it is reported. -/
inductive Diagnostic where
  /-- A fault of the source. -/
  | located (stage : Stage) (line : Nat) (location message : String)
  /-- A fault of the output. -/
  | output (message : String)
  /-- Bytes that are not text. -/
  | encoding (fault : Utf8.Fault)
  deriving DecidableEq

/-- Where a token stands, as a diagnostic says it. -/
def Token.location (token : Token) : String :=
  match token.kind with
  | .eof => "at end"
  | _ => s!"at '{token.lexeme}'"

namespace Diagnostic

/-- A fault of a stage at a token. -/
def atToken (stage : Stage) (token : Token) (message : String) : Diagnostic :=
  .located stage token.line token.location message

/-- The name of the kind of fault. -/
def kindName : Diagnostic → String
  | .located .lex .. => "Lex"
  | .located .parse .. => "Parse"
  | .located .resolve .. => "Resolve"
  | .located .runtime .. => "Runtime"
  | .output _ => "Io"
  | .encoding _ => "Utf8"

/-- What went wrong, without the place. -/
def message : Diagnostic → String
  | .located _ _ _ message | .output message => message
  | .encoding fault => fault.message

/-- The place, where the source is at fault. -/
def location? : Diagnostic → Option String
  | .located _ _ location _ => some location
  | _ => none

/-- The line, where the source is at fault. -/
def line? : Diagnostic → Option Nat
  | .located _ line _ _ => some line
  | _ => none

/-- The line that reports a fault. -/
def text : Diagnostic → String
  | .located _ line location message => s!"[line {line}] {location}: error: {message}"
  | other => other.message

end Diagnostic

/-- Why a source did not run to its end. -/
inductive Rejection where
  /-- It was refused before anything ran. -/
  | static (faults : List Diagnostic)
  /-- It stopped at a fault. -/
  | runtime (fault : Diagnostic)
  deriving DecidableEq

namespace Rejection

/-- The faults of a rejected source. -/
def diagnostics : Rejection → List Diagnostic
  | .static faults => faults
  | .runtime fault => [fault]

/-- The exit status that a rejected source gives. -/
def exitCode : Rejection → Nat
  | .static _ => 65
  | .runtime _ => 70

/-- All faults, one to a line. -/
def text (rejection : Rejection) : String :=
  "\n".intercalate (rejection.diagnostics.map Diagnostic.text)

end Rejection

end ScopeScript
