import ScopeScript.Syntax.Expression

/-! # The grammar of statements

A declaration that fails is noted and dropped; reading resumes at the next statement boundary, so
that the declarations after it are read as well. A `for` loop is read into a block with a `while`
loop in it, and has no node of its own.
-/

namespace ScopeScript

/-- The reserved words that open a statement at which reading may resume. -/
def opensStatement (token : Token) : Bool :=
  token.tag ∈ ([.classKw, .funKw, .varKw, .letKw, .forKw, .ifKw, .whileKw, .printKw,
    .returnKw] : List Keyword).map Tag.keyword

/-- How many tokens there are in front of the next statement boundary: in front of an end token, of
a token that opens a statement, or of one behind a semicolon. -/
def toBoundary (previous : Token) : List Token → Nat
  | [] => 0
  | token :: rest =>
    if token.tag = .eof ∨ previous.tag = .punct .semicolon ∨ opensStatement token then 0
    else toBoundary token rest + 1

/-- Skip the token at which a declaration failed, and go on to the next statement boundary. -/
def Cursor.resume (cursor : Cursor) : Cursor :=
  if cursor.atEnd then cursor
  else
    let skipped := toBoundary cursor.peek (cursor.tokens.toList.drop (cursor.current + 1))
    { cursor with current := cursor.current + 1 + skipped }

/-- Note the error of a rule that fails and resume after it. -/
def recover {α : Type} (rule : Rule α) : Rule (Option α) := fun cursor =>
  match rule cursor with
  | .ok result cursor => .ok (some result) cursor
  | .error (.refused error) cursor => .ok none (cursor.note error).resume
  | .error .exhausted cursor => .error .exhausted cursor

/-- One or more parameters, `count` of them having been read before. -/
def parameters : Nat → Nat → Rule (List Token)
  | 0, _ => Rule.exhausted
  | fuel + 1, count => do
    noteBeyondLimit count .tooManyParameters
    let name ← Rule.expect .identifier .parameterName
    if (← Rule.accept (.punct .comma)).isSome then
      return name :: (← parameters fuel (count + 1))
    else return [name]

/-- The initializer of a variable, which may be missing. -/
def initializer (fuel : Nat) : Rule (Option Expr) := do
  if (← Rule.accept (.punct .equal)).isSome then some <$> expression fuel else return none

/-- What follows `var`. -/
def varRest (fuel : Nat) : Rule Stmt := do
  let name ← Rule.expect .identifier .variableName
  let initializer ← initializer fuel
  let _ ← Rule.expect (.punct .semicolon) .variableEnd
  return .varDecl name initializer

/-- What follows `let`. -/
def letRest (fuel : Nat) : Rule Stmt := do
  let name ← Rule.expect .identifier .variableName
  let _ ← Rule.expect (.punct .equal) .letValue
  let initializer ← expression fuel
  let _ ← Rule.expect (.punct .semicolon) .variableEnd
  return .letDecl name initializer

/-- An expression as a statement. -/
def expressionStatement (fuel : Nat) : Rule Stmt := do
  let value ← expression fuel
  let _ ← Rule.expect (.punct .semicolon) .expressionEnd
  return .expression value

/-- What follows `print`. -/
def printRest (fuel : Nat) : Rule Stmt := do
  let value ← expression fuel
  let _ ← Rule.expect (.punct .semicolon) .printEnd
  return .print value

/-- What follows `return`. -/
def returnRest (fuel : Nat) (keyword : Token) : Rule Stmt := do
  let value ← Rule.unlessNext (.punct .semicolon) none (some <$> expression fuel)
  let _ ← Rule.expect (.punct .semicolon) .returnEnd
  return .returnStmt keyword value

/-- What follows `break`. -/
def breakRest (keyword : Token) : Rule Stmt := do
  let _ ← Rule.expect (.punct .semicolon) .breakEnd
  return .breakStmt keyword

/-- A condition in parentheses. -/
def condition (fuel : Nat) (opening : SyntaxCause) : Rule Expr := do
  let _ ← Rule.expect (.punct .leftParen) opening
  let value ← expression fuel
  let _ ← Rule.expect (.punct .rightParen) .conditionClose
  return value

/-- The clauses of a `for` loop. -/
structure ForClauses where
  initializer : Option Stmt
  condition : Option Expr
  increment : Option Expr

/-- The first clause of a `for` loop with its semicolon. -/
def forInitializer (fuel : Nat) : Rule (Option Stmt) := do
  if (← Rule.accept (.punct .semicolon)).isSome then return none
  else if (← Rule.accept (.keyword .varKw)).isSome then some <$> varRest fuel
  else if (← Rule.accept (.keyword .letKw)).isSome then some <$> letRest fuel
  else some <$> expressionStatement fuel

/-- The clauses of a `for` loop, in their parentheses. -/
def forClauses (fuel : Nat) : Rule ForClauses := do
  let _ ← Rule.expect (.punct .leftParen) .forOpen
  let initializer ← forInitializer fuel
  let condition ← Rule.unlessNext (.punct .semicolon) none (some <$> expression fuel)
  let _ ← Rule.expect (.punct .semicolon) .forConditionEnd
  let increment ← Rule.unlessNext (.punct .rightParen) none (some <$> expression fuel)
  let _ ← Rule.expect (.punct .rightParen) .forClose
  return ⟨initializer, condition, increment⟩

/-- The statement that a `for` loop stands for. An increment shares a block with the body, a missing
condition is always true, and the whole loop has a scope of its own. -/
def ForClauses.loop (clauses : ForClauses) (body : Stmt) : Stmt :=
  let body := match clauses.increment with
    | none => body
    | some increment => .block [body, .expression increment]
  let condition := clauses.condition.getD (.literal (.bool true))
  .block (clauses.initializer.toList ++ [.whileLoop condition body])

/-- The superclass that a class names, if it names one. -/
def superclassClause : Rule (Option Expr) := do
  if (← Rule.accept (.punct .less)).isSome then
    let superName ← Rule.expect .identifier .superclassName
    return some (.variable (← Rule.freshId) superName)
  else return none

mutual
/-- A declaration or statement. -/
def declaration : Nat → Rule Stmt
  | 0 => Rule.exhausted
  | fuel + 1 => do
    if (← Rule.accept (.keyword .classKw)).isSome then classRest fuel
    else if (← Rule.accept (.keyword .funKw)).isSome then
      .function <$> function fuel .function
    else if (← Rule.accept (.keyword .varKw)).isSome then varRest fuel
    else if (← Rule.accept (.keyword .letKw)).isSome then letRest fuel
    else statement fuel

/-- What follows `class`. -/
def classRest : Nat → Rule Stmt
  | 0 => Rule.exhausted
  | fuel + 1 => do
    let name ← Rule.expect .identifier .className
    let superclass ← superclassClause
    let _ ← Rule.expect (.punct .leftBrace) .classBodyOpen
    let methods ← methodList fuel
    let _ ← Rule.expect (.punct .rightBrace) .classBodyClose
    return .classDecl name superclass methods

/-- Methods up to a closing brace. -/
def methodList : Nat → Rule (List (FunctionDecl Stmt))
  | 0 => Rule.exhausted
  | fuel + 1 => do
    if (← Rule.check (.punct .rightBrace)) || (← Rule.atEnd) then return []
    else
      let method ← function fuel .method
      return method :: (← methodList fuel)

/-- A name, parameters and a body. -/
def function : Nat → Callee → Rule (FunctionDecl Stmt)
  | 0, _ => Rule.exhausted
  | fuel + 1, callee => do
    let name ← Rule.expect .identifier (.calleeName callee)
    let _ ← Rule.expect (.punct .leftParen) (.calleeParen callee)
    let params ← Rule.unlessNext (.punct .rightParen) [] (parameters fuel 0)
    let _ ← Rule.expect (.punct .rightParen) .parametersClose
    let _ ← Rule.expect (.punct .leftBrace) (.calleeBody callee)
    let body ← blockRest fuel
    return ⟨name, params, body⟩

/-- A statement. -/
def statement : Nat → Rule Stmt
  | 0 => Rule.exhausted
  | fuel + 1 => do
    if (← Rule.accept (.keyword .forKw)).isSome then
      let clauses ← forClauses fuel
      let body ← statement fuel
      return clauses.loop body
    else if (← Rule.accept (.keyword .ifKw)).isSome then
      let test ← condition fuel .ifOpen
      let thenBranch ← statement fuel
      if (← Rule.accept (.keyword .elseKw)).isSome then
        return .ifElse test thenBranch (some (← statement fuel))
      else return .ifElse test thenBranch none
    else if (← Rule.accept (.keyword .whileKw)).isSome then
      let test ← condition fuel .whileOpen
      let body ← statement fuel
      return .whileLoop test body
    else if let some keyword ← Rule.accept (.keyword .returnKw) then returnRest fuel keyword
    else if let some keyword ← Rule.accept (.keyword .breakKw) then breakRest keyword
    else if (← Rule.accept (.punct .leftBrace)).isSome then .block <$> blockRest fuel
    else if (← Rule.accept (.keyword .printKw)).isSome then printRest fuel
    else expressionStatement fuel

/-- What follows an opening brace: declarations and the closing brace. -/
def blockRest : Nat → Rule (List Stmt)
  | 0 => Rule.exhausted
  | fuel + 1 => do
    let body ← declarationList fuel
    let _ ← Rule.expect (.punct .rightBrace) .blockClose
    return body

/-- Declarations up to a closing brace or the end; those that failed are left out. -/
def declarationList : Nat → Rule (List Stmt)
  | 0 => Rule.exhausted
  | fuel + 1 => do
    if (← Rule.check (.punct .rightBrace)) || (← Rule.atEnd) then return []
    else
      let first ← recover (declaration fuel)
      return first.toList ++ (← declarationList fuel)
end

end ScopeScript
