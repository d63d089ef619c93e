import ScopeScript.Number.Read
import ScopeScript.Token.Basic
import ScopeScript.Utf8

/-! # Cutting a source into pieces

A source is a list of bytes. It is cut from the front into pieces, each a blank, a comment, the text
of a token or a fault, and every byte belongs to exactly one piece. Nothing is assumed of the bytes:
where no token starts, the offending bytes become a fault and cutting goes on after them.
-/

namespace ScopeScript.Source

/-- Why bytes are not a token. -/
inductive LexCause where
  /-- No token starts with this text. -/
  | unexpected (text : String)
  /-- A string has no closing quote. -/
  | unterminated
  deriving DecidableEq

/-- A piece of a source, with the bytes it takes. -/
inductive Piece where
  | blank (byte : UInt8)
  | comment (bytes : List UInt8)
  | lexeme (kind : Kind) (bytes : List UInt8)
  | fault (cause : LexCause) (bytes : List UInt8)

/-- The bytes that a piece takes. -/
def Piece.bytes : Piece → List UInt8
  | .blank byte => [byte]
  | .comment bytes | .lexeme _ bytes | .fault _ bytes => bytes

/-- The byte of an ASCII character. -/
def ascii (c : Char) : UInt8 :=
  c.toNat.toUInt8

/-- Blanks separate tokens and mean nothing else. -/
def isBlank (byte : UInt8) : Bool :=
  byte = ascii ' ' || byte = ascii '\r' || byte = ascii '\t' || byte = ascii '\n'

/-- The decimal digits. -/
def isDigit (byte : UInt8) : Bool :=
  ascii '0' ≤ byte && byte ≤ ascii '9'

/-- The bytes that may start a name. -/
def isNameStart (byte : UInt8) : Bool :=
  (ascii 'a' ≤ byte && byte ≤ ascii 'z') || (ascii 'A' ≤ byte && byte ≤ ascii 'Z')
    || byte = ascii '_'

/-- The bytes that may continue a name. -/
def isNameByte (byte : UInt8) : Bool :=
  isNameStart byte || isDigit byte

/-- The bytes that continue a character of several bytes. -/
def isContinuation (byte : UInt8) : Bool :=
  byte &&& 0xC0 = 0x80

/-- The operator or delimiter that is one byte long whatever follows. -/
def single? (byte : UInt8) : Option Punct :=
  if byte = ascii '(' then some .leftParen
  else if byte = ascii ')' then some .rightParen
  else if byte = ascii '\x7b' then some .leftBrace
  else if byte = ascii '\x7d' then some .rightBrace
  else if byte = ascii ',' then some .comma
  else if byte = ascii '.' then some .dot
  else if byte = ascii '-' then some .minus
  else if byte = ascii '+' then some .plus
  else if byte = ascii ';' then some .semicolon
  else if byte = ascii '*' then some .star
  else none

/-- The operator that a byte starts and a second byte may extend: the short one, the extending byte
and the long one. -/
def double? (byte : UInt8) : Option (Punct × UInt8 × Punct) :=
  if byte = ascii '!' then some (.bang, ascii '=', .bangEqual)
  else if byte = ascii '=' then some (.equal, ascii '=', .equalEqual)
  else if byte = ascii '<' then some (.less, ascii '=', .lessEqual)
  else if byte = ascii '>' then some (.greater, ascii '=', .greaterEqual)
  else if byte = ascii '~' then some (.min, ascii '~', .max)
  else none

/-- Split bytes behind the first `*/`, or behind their end if there is none. The search stops only
at stars. -/
def splitComment (bytes : List UInt8) : List UInt8 × List UInt8 :=
  match _ : bytes.dropWhile (· ≠ ascii '*') with
  | [] => (bytes, [])
  | star :: rest =>
    let run := bytes.takeWhile (· ≠ ascii '*')
    match rest with
    | [] => (bytes, [])
    | next :: after =>
      if next = ascii '/' then (run ++ [star, next], after)
      else
        let (inside, outside) := splitComment (next :: after)
        (run ++ star :: inside, outside)
termination_by bytes.length
decreasing_by
  have shorter := (List.dropWhile_sublist (· ≠ ascii '*') (l := bytes)).length_le
  rw [‹bytes.dropWhile _ = _›] at shorter
  simp only [List.length_cons] at shorter ⊢
  omega

/-- Split bytes behind the digits at their front and the fraction after them, if digits follow the
point. -/
def splitNumber (bytes : List UInt8) : List UInt8 × List UInt8 :=
  let whole := bytes.takeWhile isDigit
  let rest := bytes.dropWhile isDigit
  match rest with
  | point :: digit :: after =>
    if point = ascii '.' ∧ isDigit digit then
      let fraction := (digit :: after).takeWhile isDigit
      (whole ++ point :: fraction, (digit :: after).dropWhile isDigit)
    else (whole, rest)
  | _ => (whole, rest)

/-- The kind of a name: a reserved word or an identifier. -/
def nameKind (bytes : List UInt8) : Kind :=
  match Keyword.ofSpelling? (Utf8.lossy bytes) with
  | some keyword => .keyword keyword
  | none => .identifier

/-- The number that a run of digits with its fraction stands for. -/
def numberKind (bytes : List UInt8) : Kind :=
  .number ((Number.parse? (Utf8.lossy bytes)).getD 0.0)

/-- The piece that starts with a slash, and the bytes after it. -/
def cutSlash (slash : UInt8) (rest : List UInt8) : Piece × List UInt8 :=
  match rest with
  | [] => (.lexeme (.punct .slash) [slash], [])
  | next :: after =>
    if next = ascii '/' then
      (.comment (slash :: next :: after.takeWhile (· ≠ ascii '\n')),
        after.dropWhile (· ≠ ascii '\n'))
    else if next = ascii '*' then
      let (inside, outside) := splitComment after
      (.comment (slash :: next :: inside), outside)
    else (.lexeme (.punct .slash) [slash], next :: after)

/-- The piece that starts with a quote, and the bytes after it. -/
def cutString (quote : UInt8) (rest : List UInt8) : Piece × List UInt8 :=
  let inside := rest.takeWhile (· ≠ quote)
  match rest.dropWhile (· ≠ quote) with
  | [] => (.fault .unterminated (quote :: inside), [])
  | closing :: after =>
    (.lexeme (.string (Utf8.lossy inside)) (quote :: inside ++ [closing]), after)

/-- The piece that starts with an operator of one or two bytes, and the bytes after it. -/
def cutDouble (short : Punct) (extending : UInt8) (long : Punct) (byte : UInt8)
    (rest : List UInt8) : Piece × List UInt8 :=
  match rest with
  | [] => (.lexeme (.punct short) [byte], [])
  | next :: after =>
    if next = extending then (.lexeme (.punct long) [byte, next], after)
    else (.lexeme (.punct short) [byte], next :: after)

/-- The fault at a byte that starts no token. A byte outside ASCII takes the continuation bytes
after it along, so that one character gives one fault. -/
def cutUnexpected (byte : UInt8) (rest : List UInt8) : Piece × List UInt8 :=
  if byte < 0x80 then (.fault (.unexpected (Utf8.lossy [byte])) [byte], rest)
  else
    let bytes := byte :: rest.takeWhile isContinuation
    (.fault (.unexpected (Utf8.lossy bytes)) bytes, rest.dropWhile isContinuation)

/-- The first piece of a source that starts with `byte`, and the bytes after it. -/
def cutFirst (byte : UInt8) (rest : List UInt8) : Piece × List UInt8 :=
  if isBlank byte then (.blank byte, rest)
  else if byte = ascii '/' then cutSlash byte rest
  else if byte = ascii '"' then cutString byte rest
  else if isDigit byte then
    let (digits, after) := splitNumber (byte :: rest)
    (.lexeme (numberKind digits) digits, after)
  else if isNameStart byte then
    let name := byte :: rest.takeWhile isNameByte
    (.lexeme (nameKind name) name, rest.dropWhile isNameByte)
  else
    match single? byte with
    | some punct => (.lexeme (.punct punct) [byte], rest)
    | none =>
      match double? byte with
      | some (short, extending, long) => cutDouble short extending long byte rest
      | none => cutUnexpected byte rest

end ScopeScript.Source
