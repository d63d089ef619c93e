import ScopeScript.Token.Basic

/-! # Syntax trees

A program is a list of statements. The nodes that refer to a binding, namely variables, assignments,
`this` and `super`, carry a number by which a table outside the tree can say where the binding is.
The tree itself holds no binding.
-/

namespace ScopeScript

/-- The number of a node that refers to a binding. -/
abbrev NodeId := Nat

/-- A constant that is written in a program. -/
inductive Literal where
  | number (value : Float)
  | string (text : String)
  | bool (value : Bool)
  | nil

/-- Expressions. -/
inductive Expr where
  | literal (value : Literal)
  | unary (operator : Token) (right : Expr)
  | binary (left : Expr) (operator : Token) (right : Expr)
  | logical (left : Expr) (operator : Token) (right : Expr)
  | grouping (inner : Expr)
  | variable (id : NodeId) (name : Token)
  | assign (id : NodeId) (name : Token) (value : Expr)
  | call (callee : Expr) (paren : Token) (arguments : List Expr)
  | get (object : Expr) (name : Token)
  | set (object : Expr) (name : Token) (value : Expr)
  | superExpr (id : NodeId) (keyword method : Token)
  | thisExpr (id : NodeId) (keyword : Token)

/-- A function or method, with statements of type `σ` for its body. -/
structure FunctionDecl (σ : Type) where
  name : Token
  params : List Token
  body : List σ

/-- Statements. -/
inductive Stmt where
  | expression (value : Expr)
  | print (value : Expr)
  | varDecl (name : Token) (initializer : Option Expr)
  | letDecl (name : Token) (initializer : Expr)
  | block (body : List Stmt)
  | ifElse (condition : Expr) (thenBranch : Stmt) (elseBranch : Option Stmt)
  | whileLoop (condition : Expr) (body : Stmt)
  | function (declaration : FunctionDecl Stmt)
  | returnStmt (keyword : Token) (value : Option Expr)
  | breakStmt (keyword : Token)
  | classDecl (name : Token) (superclass : Option Expr) (methods : List (FunctionDecl Stmt))

/-- A program. -/
abbrev Program := List Stmt

/-- The name of the method that runs when an instance is made. -/
def initializerName : String := "init"

/-- Whether a method runs when an instance is made. -/
def FunctionDecl.isInitializer {σ : Type} (declaration : FunctionDecl σ) : Bool :=
  declaration.name.lexeme = initializerName

end ScopeScript
