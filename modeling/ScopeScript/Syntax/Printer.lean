import ScopeScript.Number.Layout
import ScopeScript.Syntax.Basic

/-! # The text of a tree

A tree is printed in parentheses with the operator in front. The text shows the shape of the tree;
it is not source text, and node numbers do not appear in it.
-/

namespace ScopeScript

/-- Whole numbers are written out exactly and followed by a zero fraction. -/
def Literal.numberLayout : Number.Layout where
  exactSuffix := ".0"

/-- The text of a constant. -/
def Literal.render : Literal → String
  | .number value => numberLayout.write value
  | .string text => text
  | .bool value => if value then "true" else "false"
  | .nil => "nil"

mutual
/-- The text of an expression. -/
def Expr.render : Expr → String
  | .literal value => value.render
  | .unary operator right => s!"({operator.lexeme} {right.render})"
  | .binary left operator right | .logical left operator right =>
    s!"({operator.lexeme} {left.render} {right.render})"
  | .grouping inner => s!"(group {inner.render})"
  | .variable _ name => name.lexeme
  | .assign _ name value => s!"(= {name.lexeme} {value.render})"
  | .call callee _ arguments => s!"(call {callee.render}{Expr.renderAll arguments})"
  | .get object name => s!"(. {object.render} {name.lexeme})"
  | .set object name value => s!"(.= {object.render} {name.lexeme} {value.render})"
  | .superExpr _ _ method => s!"(super {method.lexeme})"
  | .thisExpr _ _ => "this"

/-- The texts of expressions, a space in front of each. -/
def Expr.renderAll : List Expr → String
  | [] => ""
  | e :: rest => " " ++ e.render ++ Expr.renderAll rest
end

mutual
/-- The text of a statement. -/
def Stmt.render : Stmt → String
  | .expression value => s!"(; {value.render})"
  | .print value => s!"(print {value.render})"
  | .varDecl name none => s!"(var {name.lexeme})"
  | .varDecl name (some value) => s!"(var {name.lexeme} {value.render})"
  | .letDecl name value => s!"(let {name.lexeme} {value.render})"
  | .block body => s!"(block{Stmt.renderAll body})"
  | .ifElse condition thenBranch none => s!"(if {condition.render} {thenBranch.render})"
  | .ifElse condition thenBranch (some elseBranch) =>
    s!"(if {condition.render} {thenBranch.render} {elseBranch.render})"
  | .whileLoop condition body => s!"(while {condition.render} {body.render})"
  | .function declaration => FunctionDecl.render "fun" declaration
  | .returnStmt _ none => "(return)"
  | .returnStmt _ (some value) => s!"(return {value.render})"
  | .breakStmt _ => "(break)"
  | .classDecl name superclass methods =>
    let inheritance := match superclass with
      | none => ""
      | some superclass => s!" < {superclass.render}"
    s!"(class {name.lexeme}{inheritance}{FunctionDecl.renderAll methods})"

/-- The texts of statements, a space in front of each. -/
def Stmt.renderAll : List Stmt → String
  | [] => ""
  | s :: rest => " " ++ s.render ++ Stmt.renderAll rest

/-- The text of a function or method. -/
def FunctionDecl.render (word : String) : FunctionDecl Stmt → String
  | ⟨name, params, body⟩ =>
    let params := " ".intercalate (params.map Token.lexeme)
    s!"({word} {name.lexeme}({params}){Stmt.renderAll body})"

/-- The texts of methods, a space in front of each. -/
def FunctionDecl.renderAll : List (FunctionDecl Stmt) → String
  | [] => ""
  | d :: rest => " " ++ FunctionDecl.render "method" d ++ FunctionDecl.renderAll rest
end

end ScopeScript
