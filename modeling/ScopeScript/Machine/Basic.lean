import ScopeScript.Binding.Basic
import ScopeScript.Sink
import ScopeScript.Store.Basic

/-! # Configurations

A program runs as a sequence of configurations. A configuration holds what is being worked on, the
frames of everything that waits for it, innermost first, and the state that they share. Frames hold
all that a construct still needs, so a run takes no more than its configurations.
-/

namespace ScopeScript

/-- The times that a program reads, in order, and how many it has read. -/
structure Clock where
  readings : Nat → Float
  ticks : Nat := 0

/-- What all parts of a running program share. -/
structure State where
  store : Store
  /-- The outermost scope. -/
  globals : ScopeId
  /-- The scope in which names are declared now. -/
  current : ScopeId
  locals : Locals
  sink : Sink
  clock : Clock

/-- How a statement ends. -/
inductive Flow where
  | normal
  | returned (value : Value)
  | broke

/-- How a piece of work ends. -/
inductive Outcome where
  /-- An expression or a call gives a value. -/
  | value (value : Value)
  /-- A statement ends. -/
  | flow (flow : Flow)
  /-- The program cannot go on. -/
  | fault (fault : Fault)

/-- What is being worked on. -/
inductive Control where
  | eval (expr : Expr)
  | exec (stmt : Stmt)
  | call (callee : Value) (arguments : List Value)
  | done (outcome : Outcome)

/-- A construct that waits for a part of it. Some keep the surroundings that they return to. -/
inductive Frame (ε : Type) where
  /-- A unary operator waits for its operand. -/
  | unary (operator : Token)
  /-- A binary operator waits for its left operand. -/
  | binaryLeft (operator : Token) (right : Expr)
  /-- A binary operator waits for its right operand. -/
  | binaryRight (left : Value) (operator : Token)
  /-- A logical operator waits for its left operand. -/
  | logical (operator : Token) (right : Expr)
  /-- An assignment waits for its value. -/
  | assign (id : NodeId) (name : Token)
  /-- A call waits for what is called. -/
  | callee (paren : Token) (arguments : List Expr)
  /-- A call waits for an argument, some being done and some to come. -/
  | argument (callee : Value) (paren : Token) (before : List Value) (after : List Expr)
  /-- A property access waits for its object. -/
  | get (name : Token)
  /-- A property assignment waits for its object. -/
  | setObject (name : Token) (value : Expr)
  /-- A property assignment waits for its value. -/
  | setValue (object : InstanceId) (name : Token)
  /-- An expression statement waits for a value that nothing needs. -/
  | discard
  /-- A `print` waits for its value. -/
  | print
  /-- A declaration waits for its initializer. -/
  | declare (name : Token) (mutable : Bool)
  /-- A `return` waits for its value. -/
  | returning
  /-- An `if` waits for its condition. -/
  | branch (thenBranch : Stmt) (elseBranch : Option Stmt)
  /-- A loop waits for its condition. -/
  | whileTest (condition : Expr) (body : Stmt)
  /-- A loop waits for its body. -/
  | whileBody (condition : Expr) (body : Stmt)
  /-- A class declaration waits for its superclass. -/
  | superclass (name : Token) (superclass : Expr) (methods : List (FunctionDecl Stmt))
  /-- A block waits for a statement; `outer` is what to return to. -/
  | block (rest : List Stmt) (outer : ε)
  /-- A function call waits for its body. -/
  | activation (closure : Closure ε)
  /-- The making of an instance waits for the initializer. -/
  | construct (object : InstanceId)
  /-- A program waits for a statement. -/
  | program (rest : List Stmt)

/-- A moment of a run, with surroundings of type `ε` and a state of type `σ`. -/
structure ConfigOf (ε σ : Type) where
  control : Control
  frames : List (Frame ε)
  state : σ

/-- A moment of a run. -/
abbrev Config := ConfigOf ScopeId State

/-- What a transition does: the new work, the frames that wait for it, and the new state. The frames
below are not touched. -/
structure MoveOf (ε σ : Type) where
  control : Control
  push : List (Frame ε)
  state : σ

/-- What a transition does. -/
abbrev Move := MoveOf ScopeId State

namespace MoveOf

variable {ε σ : Type}

/-- Carry out a transition on top of frames. -/
def onto (move : MoveOf ε σ) (frames : List (Frame ε)) : ConfigOf ε σ :=
  ⟨move.control, move.push ++ frames, move.state⟩

/-- Go on with an expression. -/
def eval (expr : Expr) (push : List (Frame ε)) (state : σ) : MoveOf ε σ :=
  ⟨.eval expr, push, state⟩

/-- Go on with a statement. -/
def exec (stmt : Stmt) (push : List (Frame ε)) (state : σ) : MoveOf ε σ :=
  ⟨.exec stmt, push, state⟩

/-- End with a value. -/
def value (value : Value) (state : σ) : MoveOf ε σ :=
  ⟨.done (.value value), [], state⟩

/-- End a statement. -/
def flow (flow : Flow) (state : σ) : MoveOf ε σ :=
  ⟨.done (.flow flow), [], state⟩

/-- End a statement normally. -/
def normal (state : σ) : MoveOf ε σ :=
  .flow .normal state

/-- Stop with a fault. -/
def fault (fault : Fault) (state : σ) : MoveOf ε σ :=
  ⟨.done (.fault fault), [], state⟩

/-- Stop with a fault at a token. -/
def fail (token : Token) (cause : RuntimeCause) (state : σ) : MoveOf ε σ :=
  .fault (.runtime ⟨token, cause⟩) state

/-- End with a value, or stop with a fault. -/
def result (result : Except RuntimeError Value) (state : σ) : MoveOf ε σ :=
  match result with
  | .ok value => .value value state
  | .error error => .fault (.runtime error) state

end MoveOf

end ScopeScript
