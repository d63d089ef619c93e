import ScopeScript.Diagnostic
import ScopeScript.Value

/-! # Faults of a running program

A running program stops either because of what it does, at a token, or because its output fails. The
wording of every cause stands in one place.
-/

namespace ScopeScript

/-- Why a program cannot go on. -/
inductive RuntimeCause where
  | operandNotNumber
  | invalidUnary
  | operandsNotNumbers (left right : Value.TypeName)
  | invalidBinary
  | undefinedVariable (name : String)
  | alreadyDeclared (name : String)
  | assignedConstant (name : String)
  | superclassNotClass
  | noProperties (got : Value.TypeName)
  | noFields
  | undefinedProperty (name : String)
  | notCallable (got : Value.TypeName)
  | argumentCount (expected got : Nat)
  | superUnbound
  | superNotClass
  | thisNotInstance
  | nativeFailure
  | nativeNotCallable
  deriving DecidableEq

/-- The wording of a cause. -/
def RuntimeCause.message : RuntimeCause → String
  | .operandNotNumber => "Operand must be a number"
  | .invalidUnary => "Invalid unary operator"
  | .operandsNotNumbers left right =>
    s!"Operands must be numbers, got {left.text} and {right.text}"
  | .invalidBinary => "Invalid binary operator"
  | .undefinedVariable name => s!"Undefined variable '{name}'"
  | .alreadyDeclared name => s!"Variable '{name}' is already declared in this scope"
  | .assignedConstant name => s!"Cannot assign to constant '{name}'"
  | .superclassNotClass => "Superclass must be a class"
  | .noProperties got => s!"Only instances have properties, got {got.text}"
  | .noFields => "Only instances have fields"
  | .undefinedProperty name => s!"Undefined property '{name}'"
  | .notCallable got => s!"Can only call functions and classes, got {got.text}"
  | .argumentCount expected got => s!"Expected {expected} arguments but got {got}"
  | .superUnbound => "Can't use 'super' here"
  | .superNotClass => "'super' is not a class"
  | .thisNotInstance => "'this' is not an instance"
  | .nativeFailure => "native failure"
  | .nativeNotCallable => "not callable"

/-- A fault at a token. -/
structure RuntimeError where
  token : Token
  cause : RuntimeCause

/-- Why output fails. -/
inductive SinkFault where
  /-- There is no room for a text. -/
  | full
  /-- What was written cannot be passed on. -/
  | flush
  deriving DecidableEq

/-- The wording of an output fault. -/
def SinkFault.message : SinkFault → String
  | .full => "sink full"
  | .flush => "flush failed"

/-- Why a running program stops. -/
inductive Fault where
  | runtime (error : RuntimeError)
  | output (fault : SinkFault)

/-- The report of a fault. -/
def Fault.diagnostic : Fault → Diagnostic
  | .runtime error => .atToken .runtime error.token error.cause.message
  | .output fault => .output fault.message

end ScopeScript
