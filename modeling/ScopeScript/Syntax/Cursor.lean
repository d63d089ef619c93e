import ScopeScript.Syntax.Basic
import ScopeScript.Syntax.Error

/-! # Reading tokens

A grammar rule reads tokens from a cursor, which is a place in a list of tokens. It either gives a
result or fails with one error, and in both cases leaves the cursor where it stopped. Some errors
are only noted, and the rule goes on. An end token is never read, so whatever stands behind the
first one is out of reach; where there is none, one on the line of the last token stands in for it.
-/

namespace ScopeScript

/-- Where reading stands. -/
structure Cursor where
  /-- All tokens, those behind the first end token included. -/
  tokens : Array Token
  /-- The index of the next token. -/
  current : Nat
  /-- The errors noted so far. -/
  errors : List SyntaxError
  /-- The next unused node number. -/
  nextId : NodeId

/-- Why a rule gives no result. -/
inductive Failure where
  /-- The tokens are not those that the rule reads. -/
  | refused (error : SyntaxError)
  /-- The bound on the nesting of rules has been reached. -/
  | exhausted

/-- A rule of the grammar. -/
abbrev Rule := EStateM Failure Cursor

namespace Cursor

/-- The end token that stands in where the tokens have none. -/
def standIn (cursor : Cursor) : Token :=
  ⟨.eof, "", (cursor.tokens.back?.map Token.line).getD 1⟩

/-- The next token, or the one that stands in behind the last. -/
def peek (cursor : Cursor) : Token :=
  cursor.tokens[cursor.current]?.getD cursor.standIn

/-- Whether all tokens have been read. -/
def atEnd (cursor : Cursor) : Bool :=
  cursor.peek.tag = .eof

/-- Go on to the token behind the next one, unless all have been read. -/
def advance (cursor : Cursor) : Cursor :=
  if cursor.atEnd then cursor else { cursor with current := cursor.current + 1 }

/-- Note an error. -/
def note (cursor : Cursor) (error : SyntaxError) : Cursor :=
  { cursor with errors := cursor.errors ++ [error] }

end Cursor

namespace Rule

/-- Whether all tokens have been read. -/
def atEnd : Rule Bool :=
  return (← get).atEnd

/-- Whether a token with the given tag is next. -/
def check (tag : Tag) : Rule Bool := do
  let cursor ← get
  return !cursor.atEnd && cursor.peek.tag = tag

/-- Read the next token if it satisfies a test. -/
def acceptIf (test : Token → Bool) : Rule (Option Token) := do
  let cursor ← get
  if !cursor.atEnd && test cursor.peek then
    set cursor.advance
    return some cursor.peek
  else return none

/-- Read the next token if it has the given tag. -/
def accept (tag : Tag) : Rule (Option Token) :=
  acceptIf (·.tag = tag)

/-- Fail at the next token. -/
def fail {α : Type} (cause : SyntaxCause) : Rule α := do
  throw (.refused ⟨(← get).peek, cause⟩)

/-- Give up for want of levels of nesting. -/
def exhausted {α : Type} : Rule α :=
  throw .exhausted

/-- Read the next token, which must have the given tag. -/
def expect (tag : Tag) (cause : SyntaxCause) : Rule Token := do
  match ← accept tag with
  | some token => return token
  | none => fail cause

/-- Read by a rule, unless a token with the given tag is next. -/
def unlessNext {α : Type} (tag : Tag) (default : α) (rule : Rule α) : Rule α := do
  if ← check tag then return default else rule

/-- Note an error at a token and go on. -/
def note (token : Token) (cause : SyntaxCause) : Rule Unit :=
  modify (·.note ⟨token, cause⟩)

/-- A node number that was never given out before. -/
def freshId : Rule NodeId :=
  modifyGet fun cursor => (cursor.nextId, { cursor with nextId := cursor.nextId + 1 })

end Rule

end ScopeScript
