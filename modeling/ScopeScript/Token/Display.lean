import ScopeScript.Number.Layout
import ScopeScript.Text.Json
import ScopeScript.Token.Basic

/-! # The texts of a token

A token is shown as its name, its text and the value it carries, or as a JSON object. The two write
numbers differently.
-/

namespace ScopeScript.Token

/-- Whole numbers that fit 64 signed bits are written as integers without a signed zero, followed by
a zero fraction; all others by their shortest digits. -/
def numberLayout : Number.Layout where
  exactBelow := some (Number.pow2 63)
  exactSuffix := ".0"
  signedZero := false

/-- In JSON every number is written by its shortest digits, positionally while the first digit
stands from five places after the point to fifteen before it; what is not finite is `null`. -/
def jsonLayout : Number.Layout where
  exactBelow := some 0
  wholeSuffix := ".0"
  halfway := .even
  positional := some (-5, 15)
  nan := "null"
  infinite := fun _ => "null"

/-- The value that a token carries. -/
def literal (token : Token) : String :=
  match token.kind with
  | .string text => text
  | .number value => numberLayout.write value
  | _ => "null"

/-- The line that shows a token. -/
def display (token : Token) : String :=
  s!"{token.tag.name} {token.lexeme} {token.literal}"

/-- The JSON form of a kind. -/
def kindJson : Kind → Text.Json
  | .string text => .object [("STRING", .string text)]
  | .number value => .object [("NUMBER", .raw (jsonLayout.write value))]
  | kind => .string kind.tag.name

/-- The JSON form of a token. -/
def json (token : Token) : Text.Json :=
  .object [("token_type", kindJson token.kind), ("lexeme", .string token.lexeme),
    ("line", .raw (toString token.line))]

/-- The JSON text of a token list. -/
def jsonText (tokens : List Token) : String :=
  (Text.Json.array (tokens.map json)).pretty

end ScopeScript.Token
