import ScopeScript.Diagnostic

/-! # Syntax errors

A syntax error names the token at which it was noticed and what was missing there. The wording of
every cause stands in one place.
-/

namespace ScopeScript

/-- Whether a declaration is a function or a method. -/
inductive Callee where
  | function | method
  deriving DecidableEq

/-- Why tokens are not a program. -/
inductive SyntaxCause where
  | className
  | superclassName
  | classBodyOpen
  | classBodyClose
  | calleeName (callee : Callee)
  | calleeParen (callee : Callee)
  | calleeBody (callee : Callee)
  | parameterName
  | parametersClose
  | tooManyParameters
  | variableName
  | variableEnd
  | letValue
  | forOpen
  | forConditionEnd
  | forClose
  | ifOpen
  | whileOpen
  | conditionClose
  | printEnd
  | expressionEnd
  | returnEnd
  | breakEnd
  | blockClose
  | assignmentTarget
  | propertyName
  | argumentsClose
  | tooManyArguments
  | superDot
  | superMethodName
  | groupingClose
  | expression
  deriving DecidableEq

/-- A syntax error. -/
structure SyntaxError where
  token : Token
  cause : SyntaxCause

/-- The word for what is declared. -/
def Callee.word : Callee → String
  | .function => "function"
  | .method => "method"

/-- The wording of a cause. -/
def SyntaxCause.message : SyntaxCause → String
  | .className => "Expected class name"
  | .superclassName => "Expected superclass name"
  | .classBodyOpen => "Expected '\x7b' before class body"
  | .classBodyClose => "Expected '\x7d' after class body"
  | .calleeName callee => s!"Expected {callee.word} name"
  | .calleeParen callee => s!"Expected '(' after {callee.word} name"
  | .calleeBody callee => s!"Expected '\x7b' before {callee.word} body"
  | .parameterName => "Expected parameter name"
  | .parametersClose => "Expected ')' after parameters"
  | .tooManyParameters => "Can't have more than 255 parameters"
  | .variableName => "Expected variable name"
  | .variableEnd => "Expected ';' after variable declaration"
  | .letValue => "Expected '=' after 'let' name"
  | .forOpen => "Expected '(' after 'for'"
  | .forConditionEnd => "Expected ';' after loop condition"
  | .forClose => "Expected ')' after for clauses"
  | .ifOpen => "Expected '(' after 'if'"
  | .whileOpen => "Expected '(' after 'while'"
  | .conditionClose => "Expected ')' after condition"
  | .printEnd => "Expected ';' after value"
  | .expressionEnd => "Expected ';' after expression"
  | .returnEnd => "Expected ';' after return value"
  | .breakEnd => "Expected ';' after 'break'"
  | .blockClose => "Expected '\x7d' after block"
  | .assignmentTarget => "Invalid assignment target"
  | .propertyName => "Expected property name after '.'"
  | .argumentsClose => "Expected ')' after arguments"
  | .tooManyArguments => "Can't have more than 255 arguments"
  | .superDot => "Expected '.' after 'super'"
  | .superMethodName => "Expected superclass method name"
  | .groupingClose => "Expected ')' after expression"
  | .expression => "Expected expression"

/-- The report of a syntax error. -/
def SyntaxError.diagnostic (error : SyntaxError) : Diagnostic :=
  .atToken .parse error.token error.cause.message

end ScopeScript
