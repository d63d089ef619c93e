import Std.Data.ExtTreeMap
import ScopeScript.Diagnostic
import ScopeScript.NameMap
import ScopeScript.Syntax.Basic

/-! # Static scopes

While a program is walked, a stack of scopes keeps the names that are declared around the current
place. A name counts only once it is defined: inside its own initializer it is declared and not yet
defined, and a reference passes it by. Globals are not kept: a reference that no scope answers is
global.
-/

namespace ScopeScript

/-- For each node that refers to a local binding, how many scopes outward the binding is. -/
abbrev Locals := Std.ExtTreeMap NodeId Nat

/-- How far a name has come in its scope. -/
inductive Standing where
  | declared | defined
  deriving DecidableEq

/-- The names of one scope. -/
abbrev StaticScope := NameMap Standing

/-- Why a well formed program is refused. -/
inductive ScopeCause where
  | returnAtTopLevel
  | returnFromInitializer
  | breakOutsideLoop
  | selfInheritance
  | thisOutsideClass
  | superOutsideClass
  | superWithoutSuperclass
  | redeclared
  | ownInitializer
  deriving DecidableEq

/-- The wording of a cause. -/
def ScopeCause.message : ScopeCause → String
  | .returnAtTopLevel => "Can't return from top-level code"
  | .returnFromInitializer => "Can't return a value from an initializer"
  | .breakOutsideLoop => "Can't use 'break' outside of a loop"
  | .selfInheritance => "A class can't inherit from itself"
  | .thisOutsideClass => "Can't use 'this' outside of a class"
  | .superOutsideClass => "Can't use 'super' outside of a class"
  | .superWithoutSuperclass => "Can't use 'super' in a class with no superclass"
  | .redeclared => "Already a variable with this name in this scope"
  | .ownInitializer => "Can't read local variable in its own initializer"

/-- A static error or warning. -/
structure ScopeError where
  token : Token
  cause : ScopeCause

/-- The report of a static error or warning. -/
def ScopeError.diagnostic (error : ScopeError) : Diagnostic :=
  .atToken .resolve error.token error.cause.message

/-- The function around the current place. -/
inductive FunctionContext where
  | none | function | initializer | method
  deriving DecidableEq

/-- The class around the current place. -/
inductive ClassContext where
  | none | plain | derived
  deriving DecidableEq

/-- What is known while a program is walked. -/
structure Resolver where
  /-- The scopes around the current place, the innermost first. -/
  scopes : List StaticScope
  locals : Locals
  errors : List ScopeError
  warnings : List ScopeError
  enclosingFunction : FunctionContext
  enclosingClass : ClassContext
  /-- How many loops of the same function are around the current place. -/
  loopDepth : Nat

namespace Resolver

/-- Nothing is known in front of a program. -/
def start : Resolver :=
  ⟨[], ∅, [], [], .none, .none, 0⟩

/-- Note an error. -/
def error (r : Resolver) (token : Token) (cause : ScopeCause) : Resolver :=
  { r with errors := r.errors ++ [⟨token, cause⟩] }

/-- Note a warning. -/
def warn (r : Resolver) (token : Token) (cause : ScopeCause) : Resolver :=
  { r with warnings := r.warnings ++ [⟨token, cause⟩] }

/-- Enter a scope. -/
def push (r : Resolver) : Resolver :=
  { r with scopes := .empty :: r.scopes }

/-- Leave the innermost scope. -/
def pop (r : Resolver) : Resolver :=
  { r with scopes := r.scopes.tail }

/-- Declare a name in the innermost scope. A name that is there already stays as it is. -/
def declare (r : Resolver) (name : Token) : Resolver :=
  match r.scopes with
  | [] => r
  | scope :: outer =>
    if scope.contains name.lexeme then r.error name .redeclared
    else { r with scopes := scope.insert name.lexeme .declared :: outer }

/-- Define a name in the innermost scope. -/
def define (r : Resolver) (name : String) : Resolver :=
  match r.scopes with
  | [] => r
  | scope :: outer => { r with scopes := scope.insert name .defined :: outer }

/-- How many scopes outward the innermost defined binding of a name is. -/
def hops? (name : String) : List StaticScope → Option Nat
  | [] => none
  | scope :: outer =>
    if scope.find? name = some .defined then some 0 else (hops? name outer).map (· + 1)

/-- Record where the binding of a node is, if it is local. -/
def bind (r : Resolver) (id : NodeId) (name : Token) : Resolver :=
  match hops? name.lexeme r.scopes with
  | some distance => { r with locals := r.locals.insert id distance }
  | none => r

/-- Whether a name is being initialized in the innermost scope. -/
def initializing (r : Resolver) (name : String) : Bool :=
  match r.scopes with
  | [] => false
  | scope :: _ => scope.find? name = some .declared

end Resolver

end ScopeScript
