/-! # JSON text

Values are written over several lines, each level indented by two spaces. Inside strings the quote,
the backslash and the control characters below the space are escaped and nothing else is.
-/

namespace ScopeScript.Text

/-- A value to be written. Numbers come as the text that is written for them. -/
inductive Json where
  | raw (text : String)
  | string (text : String)
  | array (items : List Json)
  | object (fields : List (String × Json))

namespace Json

/-- The escaped form of a character inside a string. -/
def escape (c : Char) : List Char :=
  match c with
  | '"' => ['\\', '"']
  | '\\' => ['\\', '\\']
  | '\n' => ['\\', 'n']
  | '\r' => ['\\', 'r']
  | '\t' => ['\\', 't']
  | '\x08' => ['\\', 'b']
  | '\x0c' => ['\\', 'f']
  | c =>
    if c.toNat < 0x20 then
      ['\\', 'u', '0', '0', Nat.digitChar (c.toNat / 16), Nat.digitChar (c.toNat % 16)]
    else [c]

/-- A string in quotes. -/
def quote (text : String) : String :=
  String.ofList ('"' :: (text.toList.flatMap escape ++ ['"']))

/-- The line break in front of an item at a nesting depth. -/
def newline (depth : Nat) : String :=
  "\n" ++ String.ofList (List.replicate (2 * depth) ' ')

mutual
/-- Write a value behind a text whose last line is already indented. -/
def writeTo (out : String) (depth : Nat) : Json → String
  | .raw text => out ++ text
  | .string text => out ++ quote text
  | .array [] => out ++ "[]"
  | .array items => writeItems (out ++ "[") depth items ++ newline depth ++ "]"
  | .object [] => out ++ "\x7b\x7d"
  | .object fields => writeFields (out ++ "\x7b") depth fields ++ newline depth ++ "\x7d"

/-- Write the items of an array, each on a line of its own. -/
def writeItems (out : String) (depth : Nat) : List Json → String
  | [] => out
  | [item] => writeTo (out ++ newline (depth + 1)) (depth + 1) item
  | item :: rest =>
    writeItems (writeTo (out ++ newline (depth + 1)) (depth + 1) item ++ ",") depth rest

/-- Write the fields of an object, each on a line of its own. -/
def writeFields (out : String) (depth : Nat) : List (String × Json) → String
  | [] => out
  | [field] => writeField (out ++ newline (depth + 1)) depth field
  | field :: rest =>
    writeFields (writeField (out ++ newline (depth + 1)) depth field ++ ",") depth rest

/-- Write one field of an object. -/
def writeField (out : String) (depth : Nat) : String × Json → String
  | (key, value) => writeTo (out ++ quote key ++ ": ") (depth + 1) value
end

/-- The text of a value. -/
def pretty (json : Json) : String :=
  json.writeTo "" 0

end Json

end ScopeScript.Text
