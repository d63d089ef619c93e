/-! # Reading bytes as UTF-8 text

Bytes are read one at a time by a small automaton. Between characters it has nothing pending;
inside a character it knows how many bytes are still to come and in which range the next one must
lie, so overlong forms and surrogates are refused at the byte that shows them. Nothing assumes
that the bytes are well formed: a malformed part is reported with its length, and reading goes on
with the byte that broke it.
-/

namespace ScopeScript.Utf8

/-- A character that has begun but is not complete. -/
structure Pending where
  /-- The code point bits read so far. -/
  bits : Nat
  /-- How many bytes have been read. -/
  seen : Nat
  /-- How many bytes must follow the next one. -/
  more : Nat
  /-- The least byte that may come next. -/
  least : UInt8
  /-- The greatest byte that may come next. -/
  greatest : UInt8
  deriving DecidableEq

/-- What a byte amounts to where it stands. -/
inductive Reading where
  /-- It completes a character. -/
  | complete (char : Char)
  /-- It leaves a character pending. -/
  | pending (state : Pending)
  /-- No character continues with it. -/
  | refused

/-- Read a byte between two characters. -/
def first (byte : UInt8) : Reading :=
  let code := byte.toNat
  if byte < 0x80 then .complete (Char.ofNat code)
  else if byte < 0xC2 then .refused
  else if byte < 0xE0 then .pending ⟨code % 32, 1, 0, 0x80, 0xBF⟩
  else if byte = 0xE0 then .pending ⟨code % 16, 1, 1, 0xA0, 0xBF⟩
  else if byte = 0xED then .pending ⟨code % 16, 1, 1, 0x80, 0x9F⟩
  else if byte < 0xF0 then .pending ⟨code % 16, 1, 1, 0x80, 0xBF⟩
  else if byte = 0xF0 then .pending ⟨code % 8, 1, 2, 0x90, 0xBF⟩
  else if byte < 0xF4 then .pending ⟨code % 8, 1, 2, 0x80, 0xBF⟩
  else if byte = 0xF4 then .pending ⟨code % 8, 1, 2, 0x80, 0x8F⟩
  else .refused

/-- Read a byte inside a character. -/
def Pending.next (state : Pending) (byte : UInt8) : Reading :=
  if state.least ≤ byte ∧ byte ≤ state.greatest then
    let bits := state.bits * 64 + byte.toNat % 64
    match state.more with
    | 0 => .complete (Char.ofNat bits)
    | more + 1 => .pending ⟨bits, state.seen + 1, more, 0x80, 0xBF⟩
  else .refused

/-- One part of a byte sequence. -/
inductive Part where
  /-- A well formed character. -/
  | char (char : Char)
  /-- A maximal part that no character continues, of the given length. -/
  | malformed (length : Nat)
  /-- A character that the end of the bytes cuts off after the given length. -/
  | truncated (length : Nat)
  deriving DecidableEq

/-- How many bytes a part takes. -/
def Part.length : Part → Nat
  | .char c => c.utf8Size
  | .malformed length | .truncated length => length

/-- The parts that a byte completes between characters, and what it leaves pending. -/
def begin (byte : UInt8) : List Part × Option Pending :=
  match first byte with
  | .complete c => ([.char c], none)
  | .pending state => ([], some state)
  | .refused => ([.malformed 1], none)

/-- The parts that a byte completes, and what it leaves pending. A byte that breaks a character
is read again as the first byte of the next one. -/
def advance (state : Option Pending) (byte : UInt8) : List Part × Option Pending :=
  match state with
  | none => begin byte
  | some state =>
    match state.next byte with
    | .complete c => ([.char c], none)
    | .pending state => ([], some state)
    | .refused =>
      let (parts, state') := begin byte
      (.malformed state.seen :: parts, state')

/-- The parts of a byte sequence that follows what is pending. -/
def partsFrom (state : Option Pending) : List UInt8 → List Part
  | [] => match state with
    | none => []
    | some state => [.truncated state.seen]
  | byte :: rest =>
    let (parts, state') := advance state byte
    parts ++ partsFrom state' rest

/-- The parts of a byte sequence. -/
def parts (bytes : List UInt8) : List Part :=
  partsFrom none bytes

/-- The character that stands for a part in text. -/
def Part.replacement : Part → Char
  | .char c => c
  | .malformed _ | .truncated _ => '\uFFFD'

/-- The text of a byte sequence, with one replacement character for each malformed part. -/
def lossy (bytes : List UInt8) : String :=
  String.ofList ((parts bytes).map Part.replacement)

/-- The first place where bytes are not UTF-8. -/
structure Fault where
  /-- How many bytes before it are well formed. -/
  index : Nat
  /-- Its length, or nothing if the end of the bytes cuts a character off. -/
  length : Option Nat
  deriving DecidableEq

/-- The wording of a fault. -/
def Fault.message (fault : Fault) : String :=
  match fault.length with
  | some length =>
    s!"invalid utf-8 sequence of {length} bytes from index {fault.index}"
  | none => s!"incomplete utf-8 byte sequence from index {fault.index}"

/-- The text of parts that start at an index, or the first fault among them. -/
def collect (index : Nat) : List Part → Except Fault (List Char)
  | [] => .ok []
  | .char c :: rest => (collect (index + c.utf8Size) rest).map (c :: ·)
  | .malformed length :: _ => .error ⟨index, some length⟩
  | .truncated _ :: _ => .error ⟨index, none⟩

/-- The text of well formed bytes, or their first fault. -/
def decode (bytes : List UInt8) : Except Fault String :=
  (collect 0 (parts bytes)).map String.ofList

/-- The bytes of a text. -/
def encode (text : String) : List UInt8 :=
  text.toUTF8.data.toList

end ScopeScript.Utf8
