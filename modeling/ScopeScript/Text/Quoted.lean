import ScopeScript.Text.Hidden

/-! # Quoted text

A text in double quotes, with escapes for what would not be seen as it is.
-/

namespace ScopeScript.Text

/-- The escaped form of a character inside double quotes. -/
def escapeQuoted (c : Char) : String :=
  match c with
  | '\x00' => "\\0"
  | '\t' => "\\t"
  | '\n' => "\\n"
  | '\r' => "\\r"
  | '"' => "\\\""
  | '\\' => "\\\\"
  | c =>
    if isHidden c then
      "\\u\x7b" ++ String.ofList (Nat.toDigits 16 c.toNat) ++ "\x7d"
    else c.toString

/-- A text in quotes. -/
def quoted (text : String) : String :=
  "\"" ++ String.join (text.toList.map escapeQuoted) ++ "\""

end ScopeScript.Text
