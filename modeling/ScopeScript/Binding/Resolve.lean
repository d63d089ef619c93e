import ScopeScript.Binding.Basic

/-! # Binding references to scopes

One walk over a program enters and leaves the scopes that running it would, records for every
reference how many scopes outward its binding is, and collects everything that is wrong. The walk
never stops early.
-/

namespace ScopeScript

namespace Resolver

/-- Check `this` against the class around it, and bind it. -/
def receiver (r : Resolver) (id : NodeId) (keyword : Token) : Resolver :=
  match r.enclosingClass with
  | .none => r.error keyword .thisOutsideClass
  | _ => r.bind id keyword

/-- Check `super` against the class around it, and bind it. -/
def inherited (r : Resolver) (id : NodeId) (keyword : Token) : Resolver :=
  match r.enclosingClass with
  | .none => r.error keyword .superOutsideClass
  | .plain => r.error keyword .superWithoutSuperclass
  | .derived => r.bind id keyword

/-- Bind a variable that is read, with a warning where it is being initialized. -/
def read (r : Resolver) (id : NodeId) (name : Token) : Resolver :=
  let r := if r.initializing name.lexeme then r.warn name .ownInitializer else r
  r.bind id name

mutual
/-- Walk an expression. The value of an assignment is walked before its target. -/
def expression (r : Resolver) : Expr → Resolver
  | .literal _ => r
  | .grouping inner => r.expression inner
  | .unary _ right => r.expression right
  | .binary left _ right | .logical left _ right => (r.expression left).expression right
  | .variable id name => r.read id name
  | .assign id name value => (r.expression value).bind id name
  | .call callee _ arguments => (r.expression callee).expressions arguments
  | .get object _ => r.expression object
  | .set object _ value => (r.expression value).expression object
  | .thisExpr id keyword => r.receiver id keyword
  | .superExpr id keyword _ => r.inherited id keyword

/-- Walk expressions from left to right. -/
def expressions (r : Resolver) : List Expr → Resolver
  | [] => r
  | e :: rest => (r.expression e).expressions rest
end

/-- Walk an expression that may be missing. -/
def expression? (r : Resolver) : Option Expr → Resolver
  | none => r
  | some e => r.expression e

/-- Declare and define a name. -/
def introduce (r : Resolver) (name : Token) : Resolver :=
  (r.declare name).define name.lexeme

/-- Check a `return` against the function around it. -/
def checkReturn (r : Resolver) (keyword : Token) (hasValue : Bool) : Resolver :=
  let r := if r.enclosingFunction = .none then r.error keyword .returnAtTopLevel else r
  if hasValue ∧ r.enclosingFunction = .initializer then r.error keyword .returnFromInitializer
  else r

/-- Check a `break` against the loops around it. -/
def checkBreak (r : Resolver) (keyword : Token) : Resolver :=
  if r.loopDepth = 0 then r.error keyword .breakOutsideLoop else r

/-- A superclass that is written as the name of the class itself is an error. -/
def checkInheritance (r : Resolver) (name : Token) (superclass : Expr) : Resolver :=
  match superclass with
  | .variable _ superName =>
    if superName.lexeme = name.lexeme then r.error superName .selfInheritance else r
  | _ => r

/-- Walk the head of a class: its name, its superclass and the scopes around its methods. -/
def enterClass (r : Resolver) (name : Token) (superclass : Option Expr) : Resolver :=
  let r := { r with enclosingClass := .plain }.introduce name
  let r := match superclass with
    | none => r
    | some superclass =>
      let r := { r.checkInheritance name superclass with enclosingClass := .derived }
      (r.expression superclass).push.define "super"
  r.push.define "this"

/-- Leave the scopes around the methods of a class, and return to the class around it. -/
def leaveClass (r : Resolver) (superclass : Option Expr) (outer : ClassContext) : Resolver :=
  let r := r.pop
  let r := if superclass.isSome then r.pop else r
  { r with enclosingClass := outer }

/-- Enter a function: a scope with its parameters, outside all loops. -/
def enterFunction (r : Resolver) (context : FunctionContext) (params : List Token) : Resolver :=
  params.foldl introduce { r with enclosingFunction := context, loopDepth := 0 }.push

/-- Leave a function, and return to the function and loops around it. -/
def leaveFunction (r : Resolver) (outer : FunctionContext) (loopDepth : Nat) : Resolver :=
  { r.pop with enclosingFunction := outer, loopDepth }

/-- The context that the body of a method is in. -/
def methodContext (method : FunctionDecl Stmt) : FunctionContext :=
  if method.isInitializer then .initializer else .method

mutual
/-- Walk a statement. -/
def statement (r : Resolver) : Stmt → Resolver
  | .expression value | .print value => r.expression value
  | .varDecl name initializer =>
    ((r.declare name).expression? initializer).define name.lexeme
  | .letDecl name initializer => ((r.declare name).expression initializer).define name.lexeme
  | .block body => (r.push.statements body).pop
  | .ifElse condition thenBranch none => (r.expression condition).statement thenBranch
  | .ifElse condition thenBranch (some elseBranch) =>
    ((r.expression condition).statement thenBranch).statement elseBranch
  | .whileLoop condition body =>
    let r := r.expression condition
    let r := { r with loopDepth := r.loopDepth + 1 }.statement body
    { r with loopDepth := r.loopDepth - 1 }
  | .function declaration => (r.introduce declaration.name).function .function declaration
  | .returnStmt keyword value => (r.checkReturn keyword value.isSome).expression? value
  | .breakStmt keyword => r.checkBreak keyword
  | .classDecl name superclass methods =>
    ((r.enterClass name superclass).methods methods).leaveClass superclass r.enclosingClass

/-- Walk statements in order. -/
def statements (r : Resolver) : List Stmt → Resolver
  | [] => r
  | s :: rest => (r.statement s).statements rest

/-- Walk a function or method. Its parameters and its body share a scope. -/
def function (r : Resolver) (context : FunctionContext) : FunctionDecl Stmt → Resolver
  | ⟨_, params, body⟩ =>
    ((r.enterFunction context params).statements body).leaveFunction
      r.enclosingFunction r.loopDepth

/-- Walk the methods of a class. -/
def methods (r : Resolver) : List (FunctionDecl Stmt) → Resolver
  | [] => r
  | method :: rest => (r.function (methodContext method) method).methods rest
end

end Resolver

/-- What the walk over an accepted program found. -/
structure Resolution where
  locals : Locals
  warnings : List ScopeError

/-- Bind the references of a program, or give all its static errors. -/
def resolve (program : Program) : Except (List ScopeError) Resolution :=
  let r := Resolver.start.statements program
  if r.errors.isEmpty then .ok ⟨r.locals, r.warnings⟩ else .error r.errors

end ScopeScript
