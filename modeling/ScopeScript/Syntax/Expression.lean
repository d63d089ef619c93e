import ScopeScript.Syntax.Cursor

/-! # The grammar of expressions

Operators fall into six levels of precedence, all grouping to the left; one rule reads any level,
given the levels that bind tighter. Unary operators, calls and properties, and the primary
expressions bind tighter still, and assignment binds loosest. What may be assigned to is decided
from the tree that has been read on the left of the sign.

The rules call one another to a depth that depends on the tokens. Each takes a bound on it as its
first argument, and where the bound is reached a rule fails in a way of its own, which no token can
bring about.
-/

namespace ScopeScript

/-- A level of precedence of binary operators. -/
inductive Level where
  | disjunction | conjunction | equality | comparison | term | factor
  deriving DecidableEq

namespace Level

/-- The operators of a level. -/
def operators : Level → List Tag
  | .disjunction => [.keyword .orKw]
  | .conjunction => [.keyword .andKw]
  | .equality => [.punct .bangEqual, .punct .equalEqual]
  | .comparison =>
    [.punct .greater, .punct .greaterEqual, .punct .less, .punct .lessEqual, .punct .min,
      .punct .max]
  | .term => [.punct .minus, .punct .plus]
  | .factor => [.punct .slash, .punct .star]

/-- The node that an operator of a level makes. -/
def node (level : Level) (left : Expr) (operator : Token) (right : Expr) : Expr :=
  match level with
  | .disjunction | .conjunction => .logical left operator right
  | _ => .binary left operator right

/-- All levels, the loosest first. -/
def all : List Level :=
  [.disjunction, .conjunction, .equality, .comparison, .term, .factor]

end Level

/-- The most parameters or arguments that a function or call may have. -/
def maxArguments : Nat := 255

/-- Note that there are too many parameters or arguments if so many have been read before. -/
def noteBeyondLimit (count : Nat) (cause : SyntaxCause) : Rule Unit := do
  if maxArguments ≤ count then
    Rule.note (← get).peek cause

/-- Turn the tree on the left of an assignment sign into the assignment. Where it cannot be assigned
to, the error is noted and the tree stays as it is. -/
def assignmentTo (target : Expr) (equals : Token) (value : Expr) : Rule Expr :=
  match target with
  | .variable _ name => return .assign (← Rule.freshId) name value
  | .get object name => return .set object name value
  | other => do
    Rule.note equals .assignmentTarget
    return other

/-- A constant, `this` or a variable, each a single token. -/
def atom? (token : Token) : Option (Rule Expr) :=
  match token.kind with
  | .keyword .falseKw => some (return .literal (.bool false))
  | .keyword .trueKw => some (return .literal (.bool true))
  | .keyword .nilKw => some (return .literal .nil)
  | .number value => some (return .literal (.number value))
  | .string text => some (return .literal (.string text))
  | .keyword .thisKw => some do return .thisExpr (← Rule.freshId) token
  | .identifier => some do return .variable (← Rule.freshId) token
  | _ => none

/-- What follows `super`: a dot and a method name. -/
def superRest (keyword : Token) : Rule Expr := do
  let _ ← Rule.expect (.punct .dot) .superDot
  let method ← Rule.expect .identifier .superMethodName
  return .superExpr (← Rule.freshId) keyword method

mutual
/-- An expression: an assignment or anything that binds tighter. -/
def expression : Nat → Rule Expr
  | 0 => Rule.exhausted
  | fuel + 1 => do
    let left ← binary fuel Level.all
    match ← Rule.accept (.punct .equal) with
    | none => return left
    | some equals =>
      let value ← expression fuel
      assignmentTo left equals value

/-- An expression whose loosest operators are those of the first level. -/
def binary : Nat → List Level → Rule Expr
  | 0, _ => Rule.exhausted
  | fuel + 1, [] => unary fuel
  | fuel + 1, level :: tighter => do
    let left ← binary fuel tighter
    binaryRest fuel level tighter left

/-- The operators of a level that follow `left`, and their right operands. -/
def binaryRest : Nat → Level → List Level → Expr → Rule Expr
  | 0, _, _, _ => Rule.exhausted
  | fuel + 1, level, tighter, left => do
    match ← Rule.acceptIf (·.tag ∈ level.operators) with
    | none => return left
    | some operator =>
      let right ← binary fuel tighter
      binaryRest fuel level tighter (level.node left operator right)

/-- Unary operators and what they apply to. -/
def unary : Nat → Rule Expr
  | 0 => Rule.exhausted
  | fuel + 1 => do
    match ← Rule.acceptIf (·.tag ∈ [.punct .bang, .punct .minus]) with
    | none => call fuel
    | some operator => return .unary operator (← unary fuel)

/-- A primary expression with the calls and properties that follow it. -/
def call : Nat → Rule Expr
  | 0 => Rule.exhausted
  | fuel + 1 => do
    let callee ← primary fuel
    callRest fuel callee

/-- The calls and properties that follow `callee`. -/
def callRest : Nat → Expr → Rule Expr
  | 0, _ => Rule.exhausted
  | fuel + 1, callee => do
    if (← Rule.accept (.punct .leftParen)).isSome then
      let arguments ← Rule.unlessNext (.punct .rightParen) [] (arguments fuel 0)
      let paren ← Rule.expect (.punct .rightParen) .argumentsClose
      callRest fuel (.call callee paren arguments)
    else if (← Rule.accept (.punct .dot)).isSome then
      let name ← Rule.expect .identifier .propertyName
      callRest fuel (.get callee name)
    else return callee

/-- One or more arguments, `count` of them having been read before. -/
def arguments : Nat → Nat → Rule (List Expr)
  | 0, _ => Rule.exhausted
  | fuel + 1, count => do
    noteBeyondLimit count .tooManyArguments
    let argument ← expression fuel
    if (← Rule.accept (.punct .comma)).isSome then
      return argument :: (← arguments fuel (count + 1))
    else return [argument]

/-- A constant, a name or an expression in parentheses. -/
def primary : Nat → Rule Expr
  | 0 => Rule.exhausted
  | fuel + 1 => do
    match ← Rule.acceptIf (atom? · |>.isSome) with
    | some token => (atom? token).getD (Rule.fail .expression)
    | none =>
      if let some keyword ← Rule.accept (.keyword .superKw) then superRest keyword
      else if (← Rule.accept (.punct .leftParen)).isSome then
        let inner ← expression fuel
        let _ ← Rule.expect (.punct .rightParen) .groupingClose
        return .grouping inner
      else Rule.fail .expression
end

end ScopeScript
