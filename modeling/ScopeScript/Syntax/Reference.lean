import ScopeScript.Syntax.Basic

/-! # The references of a program

The nodes of a program that refer to a binding, in the order of a walk that visits a node before its
parts.
-/

namespace ScopeScript

/-- How a node refers to a binding. -/
inductive ReferenceKind where
  | variable | assign | thisRef | superRef
  deriving DecidableEq

/-- A node that refers to a binding, with the token that names it. -/
structure Reference where
  kind : ReferenceKind
  id : NodeId
  name : Token

mutual
/-- The references of an expression. -/
def Expr.references : Expr → List Reference
  | .literal _ => []
  | .unary _ right => right.references
  | .binary left _ right | .logical left _ right => left.references ++ right.references
  | .grouping inner => inner.references
  | .variable id name => [⟨.variable, id, name⟩]
  | .assign id name value => ⟨.assign, id, name⟩ :: value.references
  | .call callee _ arguments => callee.references ++ Expr.referencesAll arguments
  | .get object _ => object.references
  | .set object _ value => object.references ++ value.references
  | .superExpr id keyword _ => [⟨.superRef, id, keyword⟩]
  | .thisExpr id keyword => [⟨.thisRef, id, keyword⟩]

/-- The references of expressions. -/
def Expr.referencesAll : List Expr → List Reference
  | [] => []
  | e :: rest => e.references ++ Expr.referencesAll rest
end

/-- The references of an expression that may be missing. -/
def Expr.referencesOption : Option Expr → List Reference
  | none => []
  | some e => e.references

mutual
/-- The references of a statement. -/
def Stmt.references : Stmt → List Reference
  | .expression value | .print value => value.references
  | .varDecl _ initializer => Expr.referencesOption initializer
  | .letDecl _ initializer => initializer.references
  | .block body => Stmt.referencesAll body
  | .ifElse condition thenBranch none => condition.references ++ thenBranch.references
  | .ifElse condition thenBranch (some elseBranch) =>
    condition.references ++ thenBranch.references ++ elseBranch.references
  | .whileLoop condition body => condition.references ++ body.references
  | .function declaration => FunctionDecl.references declaration
  | .returnStmt _ value => Expr.referencesOption value
  | .breakStmt _ => []
  | .classDecl _ superclass methods =>
    Expr.referencesOption superclass ++ FunctionDecl.referencesAll methods

/-- The references of statements. -/
def Stmt.referencesAll : List Stmt → List Reference
  | [] => []
  | s :: rest => s.references ++ Stmt.referencesAll rest

/-- The references in the body of a function or method. -/
def FunctionDecl.references : FunctionDecl Stmt → List Reference
  | ⟨_, _, body⟩ => Stmt.referencesAll body

/-- The references in the bodies of methods. -/
def FunctionDecl.referencesAll : List (FunctionDecl Stmt) → List Reference
  | [] => []
  | method :: rest => FunctionDecl.references method ++ FunctionDecl.referencesAll rest
end

end ScopeScript
