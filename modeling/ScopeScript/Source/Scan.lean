import ScopeScript.Diagnostic
import ScopeScript.Source.Piece

/-! # The tokens of a source

Cutting a source loses no byte: the pieces put end to end are the source again. Every piece takes at
least one byte, so cutting comes to an end. Tokens and faults carry the line on which they end, and
one end token follows the last of them.
-/

namespace ScopeScript.Source

theorem splitComment_append (bytes : List UInt8) :
    (splitComment bytes).1 ++ (splitComment bytes).2 = bytes := by
  fun_induction splitComment bytes with
  | case1 => simp
  | case2 => simp
  | case3 bytes star run after found =>
    have := List.takeWhile_append_dropWhile (p := (· ≠ ascii '*')) (l := bytes)
    rw [found] at this
    simpa [run] using this
  | case4 bytes star run next after found close inside outside split _ ih =>
    have := List.takeWhile_append_dropWhile (p := (· ≠ ascii '*')) (l := bytes)
    rw [found, ← ih, split] at this
    simpa [run] using this

theorem splitNumber_append (bytes : List UInt8) :
    (splitNumber bytes).1 ++ (splitNumber bytes).2 = bytes := by
  have whole := List.takeWhile_append_dropWhile (p := isDigit) (l := bytes)
  unfold splitNumber
  simp only
  split
  next point digit after rest =>
    split
    next =>
      have fraction := List.takeWhile_append_dropWhile (p := isDigit) (l := digit :: after)
      rw [List.append_assoc, List.cons_append, fraction, ← rest, whole]
    next => exact whole
  next => exact whole

theorem cutSlash_append (slash : UInt8) (rest : List UInt8) :
    (cutSlash slash rest).1.bytes ++ (cutSlash slash rest).2 = slash :: rest := by
  unfold cutSlash
  split
  next => rfl
  next next after =>
    split
    next => simp [Piece.bytes]
    next =>
      split
      next => simp [Piece.bytes, splitComment_append]
      next => rfl

theorem cutString_append (quote : UInt8) (rest : List UInt8) :
    (cutString quote rest).1.bytes ++ (cutString quote rest).2 = quote :: rest := by
  have inside := List.takeWhile_append_dropWhile (p := (· ≠ quote)) (l := rest)
  unfold cutString
  simp only
  split
  next h =>
    rw [h] at inside
    simpa [Piece.bytes] using inside
  next closing after h =>
    rw [h] at inside
    simpa [Piece.bytes] using inside

theorem cutDouble_append (short : Punct) (extending : UInt8) (long : Punct) (byte : UInt8)
    (rest : List UInt8) :
    (cutDouble short extending long byte rest).1.bytes
      ++ (cutDouble short extending long byte rest).2 = byte :: rest := by
  unfold cutDouble
  split
  next => rfl
  next => split <;> rfl

theorem cutUnexpected_append (byte : UInt8) (rest : List UInt8) :
    (cutUnexpected byte rest).1.bytes ++ (cutUnexpected byte rest).2 = byte :: rest := by
  unfold cutUnexpected
  split
  next => rfl
  next => simp [Piece.bytes]

/-- The first piece and the bytes after it are the whole source. -/
theorem cutFirst_append (byte : UInt8) (rest : List UInt8) :
    (cutFirst byte rest).1.bytes ++ (cutFirst byte rest).2 = byte :: rest := by
  unfold cutFirst
  split
  next => rfl
  split
  next => exact cutSlash_append byte rest
  split
  next => exact cutString_append byte rest
  split
  next => exact splitNumber_append (byte :: rest)
  split
  next => simp [Piece.bytes]
  split
  next => rfl
  split
  next => exact cutDouble_append ..
  next => exact cutUnexpected_append byte rest

theorem splitNumber_ne_nil {byte : UInt8} (digit : isDigit byte = true) (rest : List UInt8) :
    (splitNumber (byte :: rest)).1 ≠ [] := by
  unfold splitNumber
  simp only [List.takeWhile_cons, digit, if_true]
  split
  next => split <;> simp
  next => simp

/-- The first piece takes at least one byte. -/
theorem cutFirst_ne_nil (byte : UInt8) (rest : List UInt8) :
    (cutFirst byte rest).1.bytes ≠ [] := by
  unfold cutFirst
  split
  next => simp [Piece.bytes]
  split
  next =>
    unfold cutSlash
    split <;> (try split) <;> (try split) <;> simp [Piece.bytes]
  split
  next =>
    unfold cutString
    simp only
    split <;> simp [Piece.bytes]
  split
  next digit => exact splitNumber_ne_nil digit rest
  split
  next => simp [Piece.bytes]
  split
  next => simp [Piece.bytes]
  split
  next =>
    unfold cutDouble
    split <;> (try split) <;> simp [Piece.bytes]
  next =>
    unfold cutUnexpected
    split <;> simp [Piece.bytes]

theorem cutFirst_length (byte : UInt8) (rest : List UInt8) :
    (cutFirst byte rest).2.length ≤ rest.length := by
  have total := congrArg List.length (cutFirst_append byte rest)
  have taken := List.length_pos_iff.mpr (cutFirst_ne_nil byte rest)
  simp only [List.length_append, List.length_cons] at total
  omega

/-- The pieces of a source, from front to end. -/
def pieces (source : List UInt8) : List Piece :=
  match source with
  | [] => []
  | byte :: rest => (cutFirst byte rest).1 :: pieces (cutFirst byte rest).2
termination_by source.length
decreasing_by
  have := cutFirst_length byte rest
  simp only [List.length_cons]
  omega

/-- The pieces put end to end are the source. -/
theorem pieces_flatMap_bytes (source : List UInt8) :
    (pieces source).flatMap Piece.bytes = source := by
  fun_induction pieces source with
  | case1 => rfl
  | case2 byte rest ih => rw [List.flatMap_cons, ih, cutFirst_append]

/-- A fault of a source. -/
structure LexError where
  line : Nat
  cause : LexCause
  deriving DecidableEq

/-- Where the fault lies, as a diagnostic says it. -/
def LexCause.location : LexCause → String
  | .unexpected text => s!"at '{text}'"
  | .unterminated => "at end"

/-- The wording of a fault. -/
def LexCause.message : LexCause → String
  | .unexpected text => s!"Unexpected character: {text}"
  | .unterminated => "Unterminated string."

/-- The report of a fault. -/
def LexError.diagnostic (error : LexError) : Diagnostic :=
  .located .lex error.line error.cause.location error.cause.message

/-- What a source holds besides blanks and comments. -/
abbrev Item := Except LexError Token

/-- How many line breaks bytes hold. -/
def lineBreaks (bytes : List UInt8) : Nat :=
  bytes.count (ascii '\n')

/-- The item of a piece that ends on a line. -/
def Piece.item? (line : Nat) : Piece → Option Item
  | .blank _ | .comment _ => none
  | .lexeme kind bytes => some (.ok ⟨kind, Utf8.lossy bytes, line⟩)
  | .fault cause _ => some (.error ⟨line, cause⟩)

/-- The items of pieces that start on a line, and the end token after them. -/
def itemsFrom (line : Nat) : List Piece → List Item
  | [] => [.ok ⟨.eof, "", line⟩]
  | piece :: rest =>
    let line' := line + lineBreaks piece.bytes
    (piece.item? line').toList ++ itemsFrom line' rest

/-- The items of a source. -/
def items (source : List UInt8) : List Item :=
  itemsFrom 1 (pieces source)

/-- The tokens of a source. -/
def tokens (source : List UInt8) : List Token :=
  (items source).filterMap Except.toOption

/-- The faults of a source. -/
def errors (source : List UInt8) : List LexError :=
  (items source).filterMap fun
    | .ok _ => none
    | .error e => some e

end ScopeScript.Source
