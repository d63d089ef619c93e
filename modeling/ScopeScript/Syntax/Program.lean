import ScopeScript.Source.Scan
import ScopeScript.Syntax.Statement

/-! # Programs from tokens and from source text

Declarations are read up to the first end token, or up to the last token where there is none. A
program is accepted only if nothing at all was noted while it was read, in the text or in its
tokens.
-/

namespace ScopeScript

/-- The cursor in front of the first token. -/
def Cursor.start (tokens : List Token) (nextId : NodeId) : Cursor :=
  ⟨tokens.toArray, 0, [], nextId⟩

/-- Declarations up to the end; those that failed are left out. -/
def topLevel : Nat → Rule Program
  | 0 => Rule.exhausted
  | fuel + 1 => do
    if ← Rule.atEnd then return []
    else
      let first ← recover (declaration fuel)
      return first.toList ++ (← topLevel fuel)

/-- A bound on the nesting of rules while so many tokens are read. -/
def ruleFuel (tokens : Nat) : Nat :=
  20 * (tokens + 1)

/-- The program that tokens stand for, or everything that is wrong with them, and the next unused
node number. Declarations are recovered from and the bound is never reached, so reading does not
fail. -/
def parseTokens (nextId : NodeId) (tokens : List Token) :
    Except (List SyntaxError) Program × NodeId :=
  match topLevel (ruleFuel tokens.length) (Cursor.start tokens nextId) with
  | .ok program cursor =>
    (if cursor.errors.isEmpty then .ok program else .error cursor.errors, cursor.nextId)
  | .error _ cursor => (.error cursor.errors, cursor.nextId)

/-- The program that a source stands for, or all its lexical errors followed by all its syntax
errors, and the next unused node number. -/
def parseSource (nextId : NodeId) (source : String) : Except Rejection Program × NodeId :=
  let bytes := Utf8.encode source
  let lexical := (Source.errors bytes).map Source.LexError.diagnostic
  match parseTokens nextId (Source.tokens bytes) with
  | (.ok program, nextId) =>
    (if lexical.isEmpty then .ok program else .error (.static lexical), nextId)
  | (.error errors, nextId) =>
    (.error (.static (lexical ++ errors.map SyntaxError.diagnostic)), nextId)

end ScopeScript
