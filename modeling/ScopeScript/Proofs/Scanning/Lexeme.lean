import Mathlib.Data.List.TakeWhile
import ScopeScript.Source.Scan

/-!
# The table of tokens

Which bytes spell which token is said without a scanner: operators and delimiters and reserved words
by their texts, numbers, strings and names by their shapes. The first byte tells the kinds of tokens
apart. From that follows, for every byte that a source can start with, that what is cut off is the
longest token there, and that a byte at which a fault is reported starts no token.
-/

namespace ScopeScript

/-- The text of an operator or delimiter. -/
def Punct.spelling : Punct → String
  | .leftParen => "("
  | .rightParen => ")"
  | .leftBrace => "\x7b"
  | .rightBrace => "\x7d"
  | .comma => ","
  | .dot => "."
  | .minus => "-"
  | .plus => "+"
  | .semicolon => ";"
  | .slash => "/"
  | .star => "*"
  | .bang => "!"
  | .bangEqual => "!="
  | .equal => "="
  | .equalEqual => "=="
  | .greater => ">"
  | .greaterEqual => ">="
  | .less => "<"
  | .lessEqual => "<="
  | .min => "~"
  | .max => "~~"

namespace Source

/-- The bytes of an ASCII text. -/
def spell (text : String) : List UInt8 :=
  text.toList.map ascii

/-- Digits, and maybe a point and more digits. -/
inductive IsNumber : List UInt8 → Prop
  | whole {digits : List UInt8} : digits ≠ [] → (∀ byte ∈ digits, isDigit byte) → IsNumber digits
  | decimal {digits fraction : List UInt8} : digits ≠ [] → (∀ byte ∈ digits, isDigit byte) →
      fraction ≠ [] → (∀ byte ∈ fraction, isDigit byte) →
      IsNumber (digits ++ ascii '.' :: fraction)

/-- The table of tokens: which bytes spell a token of some kind. -/
inductive Spells : Kind → List UInt8 → Prop
  | punct (punct : Punct) : Spells (.punct punct) (spell punct.spelling)
  | number {bytes : List UInt8} {value : Float} : IsNumber bytes →
      Number.parse? (Utf8.lossy bytes) = some value → Spells (.number value) bytes
  | string {inside : List UInt8} : ascii '"' ∉ inside →
      Spells (.string (Utf8.lossy inside)) (ascii '"' :: inside ++ [ascii '"'])
  | keyword {word : String} {keyword : Keyword} : (word, keyword) ∈ Keyword.spellings →
      Spells (.keyword keyword) (spell word)
  | identifier {first : UInt8} {rest : List UInt8} : isNameStart first →
      (∀ byte ∈ rest, isNameByte byte) →
      (∀ entry ∈ Keyword.spellings, first :: rest ≠ spell entry.1) →
      Spells .identifier (first :: rest)

/-! ## Bytes -/

/-- A property of bytes is checked byte by byte. -/
theorem forall_byte {p : UInt8 → Prop} (h : ∀ code : Fin 256, p (UInt8.ofNat code)) (byte : UInt8) :
    p byte := by
  simpa using h ⟨byte.toNat, byte.toNat_lt⟩

/-- The character of an ASCII byte. -/
def character (byte : UInt8) : Char :=
  Char.ofNat byte.toNat

theorem ascii_character : ∀ byte, byte < 0x80 → ascii (character byte) = byte :=
  forall_byte (by decide +kernel)

/-- A digit starts neither a name nor a string, and in a text it is neither a sign nor the first
letter of a name of a number. -/
theorem digit_byte : ∀ byte, isDigit byte →
    byte < 0x80 ∧ isNameStart byte = false ∧ byte ≠ ascii '"' ∧ (character byte).isDigit = true
      ∧ character byte ≠ '-' ∧ character byte ≠ '+'
      ∧ (character byte).toLower ≠ 'i' ∧ (character byte).toLower ≠ 'n' :=
  forall_byte (by decide +kernel)

/-- A byte of a name starts no string, and the first one starts no number. -/
theorem name_byte : ∀ byte, isNameByte byte →
    byte < 0x80 ∧ byte ≠ ascii '"' ∧ (isNameStart byte → isDigit byte = false) :=
  forall_byte (by decide +kernel)

theorem nameByte_of_start {byte : UInt8} (h : isNameStart byte) : isNameByte byte := by
  simp [isNameByte, h]

/-- ASCII bytes are read as they are. -/
theorem lossy_ascii {bytes : List UInt8} (h : ∀ byte ∈ bytes, byte < 0x80) :
    Utf8.lossy bytes = String.ofList (bytes.map character) := by
  have hparts : Utf8.parts bytes = bytes.map fun byte => .char (character byte) := by
    unfold Utf8.parts
    induction bytes with
    | nil => rfl
    | cons byte rest ih =>
        obtain ⟨hbyte, hrest⟩ := List.forall_mem_cons.mp h
        have hread : Utf8.advance none byte = ([.char (character byte)], none) := by
          simp only [Utf8.advance, Utf8.begin, Utf8.first, hbyte, if_true, character]
        rw [Utf8.partsFrom, hread]
        exact congrArg _ (ih hrest)
  rw [Utf8.lossy, hparts, List.map_map]
  rfl

theorem spell_ofList {bytes : List UInt8} (h : ∀ byte ∈ bytes, byte < 0x80) :
    spell (String.ofList (bytes.map character)) = bytes := by
  rw [spell, String.toList_ofList, List.map_map]
  exact (List.map_congr_left fun byte hbyte => ascii_character byte (h byte hbyte)).trans
    (List.map_id' bytes)

/-! ## Numbers and names -/

theorem IsNumber.cons {bytes : List UInt8} (h : IsNumber bytes) :
    ∃ byte rest, bytes = byte :: rest ∧ isDigit byte := by
  cases h with
  | whole hne hdigits =>
      cases bytes with
      | nil => exact absurd rfl hne
      | cons byte rest => exact ⟨byte, rest, rfl, hdigits byte List.mem_cons_self⟩
  | @decimal digits fraction hne hdigits =>
      cases digits with
      | nil => exact absurd rfl hne
      | cons byte rest => exact ⟨byte, _, rfl, hdigits byte List.mem_cons_self⟩

theorem IsNumber.all_ascii {bytes : List UInt8} (h : IsNumber bytes) :
    ∀ byte ∈ bytes, byte < 0x80 := by
  intro byte hbyte
  cases h with
  | whole _ hdigits => exact (digit_byte byte (hdigits byte hbyte)).1
  | decimal _ hdigits _ hfraction =>
      simp only [List.mem_append, List.mem_cons] at hbyte
      rcases hbyte with hbyte | rfl | hbyte
      · exact (digit_byte byte (hdigits byte hbyte)).1
      · decide
      · exact (digit_byte byte (hfraction byte hbyte)).1

theorem all_character {digits : List UInt8} (h : ∀ byte ∈ digits, isDigit byte) :
    ∀ c ∈ digits.map character, c.isDigit = true := by
  intro c hc
  obtain ⟨byte, hbyte, rfl⟩ := List.mem_map.mp hc
  obtain ⟨-, -, -, hdigit, -⟩ := digit_byte byte (h byte hbyte)
  exact hdigit

/-- Every number stands for a double. -/
theorem IsNumber.unsigned? {bytes : List UInt8} (h : IsNumber bytes) :
    ∃ value, Number.unsigned? (bytes.map character) = some value := by
  cases h with
  | whole hne hdigits =>
      have hall := all_character hdigits
      have htake := List.takeWhile_eq_self_iff.mpr hall
      have hdrop := List.dropWhile_eq_nil_iff.mpr hall
      simp [Number.unsigned?, htake, hdrop, hne]
  | @decimal digits fraction hne hdigits _ hfraction =>
      have hall := all_character hdigits
      have htext : (digits ++ ascii '.' :: fraction).map character =
          digits.map character ++ '.' :: fraction.map character := by
        rw [List.map_append, List.map_cons]
        rfl
      have hpoint : '.'.isDigit = false := rfl
      have htake := List.takeWhile_eq_self_iff.mpr (all_character hfraction)
      have hdrop := List.dropWhile_eq_nil_iff.mpr (all_character hfraction)
      rw [htext]
      simp [Number.unsigned?, List.takeWhile_append_of_pos hall, List.dropWhile_append_of_pos hall,
        hpoint, htake, hdrop, hne]

theorem ofList_cons_ne {first c : Char} (rest text : List Char) (h : first ≠ c) :
    String.ofList (first :: rest) ≠ String.ofList (c :: text) := by
  intro heq
  have hlist := congrArg String.toList heq
  rw [String.toList_ofList, String.toList_ofList] at hlist
  exact h (List.cons.inj hlist).1

theorem IsNumber.parse? {bytes : List UInt8} (h : IsNumber bytes) :
    ∃ value, Number.parse? (Utf8.lossy bytes) = some value := by
  obtain ⟨value, hvalue⟩ := h.unsigned?
  rw [lossy_ascii h.all_ascii]
  obtain ⟨byte, rest, rfl, hdigit⟩ := h.cons
  obtain ⟨-, -, -, -, hminus, hplus, hi, hn⟩ := digit_byte byte hdigit
  have hmagnitude : Number.magnitude? ((byte :: rest).map character) = some value := by
    have hinf : String.ofList (((byte :: rest).map character).map Char.toLower) ≠ "inf" :=
      ofList_cons_ne _ ['n', 'f'] hi
    have hinfinity : String.ofList (((byte :: rest).map character).map Char.toLower) ≠ "infinity" :=
      ofList_cons_ne _ ['n', 'f', 'i', 'n', 'i', 't', 'y'] hi
    have hnan : String.ofList (((byte :: rest).map character).map Char.toLower) ≠ "nan" :=
      ofList_cons_ne _ ['a', 'n'] hn
    simp only [Number.magnitude?, hinf, hinfinity, hnan, or_self, if_false, hvalue]
  refine ⟨value, ?_⟩
  unfold Number.parse?
  rw [String.toList_ofList]
  split
  next hsign => exact absurd (List.cons.inj hsign).1 hminus
  next hsign => exact absurd (List.cons.inj hsign).1 hplus
  next => exact hmagnitude

/-- Bytes in front of a list that all have a property are among those that come first with it. -/
theorem length_le_takeWhile {p : UInt8 → Bool} {bytes list : List UInt8} (hfront : bytes <+: list)
    (h : ∀ byte ∈ bytes, p byte) : bytes.length ≤ (list.takeWhile p).length := by
  obtain ⟨rest, rfl⟩ := hfront
  rw [List.takeWhile_append_of_pos h, List.length_append]
  exact Nat.le_add_right _ _

theorem splitNumber_isNumber {byte : UInt8} (hdigit : isDigit byte) (rest : List UInt8) :
    IsNumber (splitNumber (byte :: rest)).1 := by
  have hwhole : (byte :: rest).takeWhile isDigit ≠ [] := by simp [hdigit]
  have hdigits : ∀ b ∈ (byte :: rest).takeWhile isDigit, isDigit b :=
    fun b hb => List.mem_takeWhile_imp hb
  unfold splitNumber
  dsimp only
  split
  next point digit after hrest =>
    split
    next hfraction =>
      obtain ⟨rfl, hdigit'⟩ := hfraction
      exact .decimal hwhole hdigits (by simp [hdigit']) fun b hb => List.mem_takeWhile_imp hb
    next => exact .whole hwhole hdigits
  next => exact .whole hwhole hdigits

/-- No longer number starts where a number is cut off. -/
theorem length_le_splitNumber {bytes list : List UInt8} (hfront : bytes <+: list)
    (h : IsNumber bytes) : bytes.length ≤ (splitNumber list).1.length := by
  have hwhole : (list.takeWhile isDigit).length ≤ (splitNumber list).1.length := by
    unfold splitNumber
    dsimp only
    split
    next =>
      split
      next => simp
      next => exact Nat.le_refl _
    next => exact Nat.le_refl _
  cases h with
  | whole _ hdigits => exact (length_le_takeWhile hfront hdigits).trans hwhole
  | @decimal digits fraction _ hdigits hne hfraction =>
      obtain ⟨rest, rfl⟩ := hfront
      cases fraction with
      | nil => exact absurd rfl hne
      | cons digit fraction =>
          have hdigit := hfraction digit List.mem_cons_self
          have hpoint : isDigit (ascii '.') = false := rfl
          have htake : (digits ++ ascii '.' :: digit :: fraction ++ rest).takeWhile isDigit =
              digits := by
            rw [List.append_assoc, List.takeWhile_append_of_pos hdigits]
            simp [hpoint]
          have hdrop : (digits ++ ascii '.' :: digit :: fraction ++ rest).dropWhile isDigit =
              ascii '.' :: digit :: (fraction ++ rest) := by
            rw [List.append_assoc, List.dropWhile_append_of_pos hdigits]
            simp [hpoint]
          have hmore := length_le_takeWhile (List.prefix_append (digit :: fraction) rest) hfraction
          rw [List.cons_append] at hmore
          simp only [splitNumber, htake, hdrop, hdigit, and_self, if_true, List.length_append,
            List.length_cons]
          simp only [List.length_cons] at hmore
          omega

theorem keyword_plain : ∀ entry ∈ Keyword.spellings, Utf8.lossy (spell entry.1) = entry.1
    ∧ Keyword.ofSpelling? entry.1 = some entry.2
    ∧ (spell entry.1).head?.any isNameStart ∧ (spell entry.1).tail.all isNameByte := by
  decide +kernel

/-- A name is a reserved word exactly if it is in the table, and otherwise an identifier. -/
theorem nameKind_spells {first : UInt8} {rest : List UInt8} (hfirst : isNameStart first)
    (hrest : ∀ byte ∈ rest, isNameByte byte) :
    Spells (nameKind (first :: rest)) (first :: rest) := by
  have hascii : ∀ byte ∈ first :: rest, byte < 0x80 := by
    intro byte hbyte
    rcases List.mem_cons.mp hbyte with rfl | hlater
    · exact (name_byte byte (nameByte_of_start hfirst)).1
    · exact (name_byte byte (hrest byte hlater)).1
  unfold nameKind
  split
  next keyword hkeyword =>
    obtain ⟨before, after, hsplit, -⟩ := List.lookup_eq_some_iff.mp hkeyword
    have hmem : (Utf8.lossy (first :: rest), keyword) ∈ Keyword.spellings := by
      rw [hsplit]
      simp
    have hspell : spell (Utf8.lossy (first :: rest)) = first :: rest := by
      rw [lossy_ascii hascii, spell_ofList hascii]
    have hspells := Spells.keyword hmem
    rwa [hspell] at hspells
  next hnone =>
    refine .identifier hfirst hrest ?_
    intro entry hentry heq
    obtain ⟨hlossy, hlookup, -⟩ := keyword_plain entry hentry
    rw [heq, hlossy, hlookup] at hnone
    cases hnone

/-! ## Operators and delimiters -/

theorem single?_spells : ∀ byte, ∀ punct ∈ single? byte, spell punct.spelling = [byte]
    ∧ isDigit byte = false ∧ isNameStart byte = false ∧ byte ≠ ascii '"' ∧ byte ≠ ascii '/'
    ∧ double? byte = none :=
  forall_byte (by decide +kernel)

theorem double?_spells : ∀ byte, ∀ entry ∈ double? byte,
    spell entry.1.spelling = [byte] ∧ spell entry.2.2.spelling = [byte, entry.2.1]
    ∧ isDigit byte = false ∧ isNameStart byte = false ∧ byte ≠ ascii '"' ∧ byte ≠ ascii '/' :=
  forall_byte (by decide +kernel)

/-- Every operator or delimiter is one that is cut off at its first byte. -/
theorem punct_cut (punct : Punct) :
    (∃ byte, spell punct.spelling = [byte] ∧ (byte = ascii '/' ∨ single? byte = some punct
      ∨ ∃ extending long, double? byte = some (punct, extending, long)))
    ∨ ∃ byte extending short, spell punct.spelling = [byte, extending]
      ∧ double? byte = some (short, extending, punct) := by
  cases punct with
  | slash => exact .inl ⟨_, rfl, .inl rfl⟩
  | leftParen | rightParen | leftBrace | rightBrace | comma | dot | minus | plus | semicolon
  | star => exact .inl ⟨_, rfl, .inr (.inl rfl)⟩
  | bang | equal | greater | less | min => exact .inl ⟨_, rfl, .inr (.inr ⟨_, _, rfl⟩)⟩
  | bangEqual | equalEqual | greaterEqual | lessEqual | max => exact .inr ⟨_, _, _, rfl, rfl⟩

theorem punct_head {punct : Punct} {byte : UInt8} {tail : List UInt8}
    (h : spell punct.spelling = byte :: tail) :
    isDigit byte = false ∧ isNameStart byte = false ∧ byte ≠ ascii '"' := by
  cases punct <;> (obtain ⟨rfl, -⟩ := List.cons.inj h; decide)

/-! ## The first byte of a token -/

namespace Spells

variable {kind : Kind} {byte : UInt8} {tail : List UInt8}

theorem ne_nil {bytes : List UInt8} (h : Spells kind bytes) : bytes ≠ [] := by
  cases h with
  | punct punct => cases punct <;> exact nofun
  | number hnumber =>
      obtain ⟨byte, tail, rfl, -⟩ := hnumber.cons
      simp
  | string => simp
  | @keyword word keyword hmem =>
      obtain ⟨-, -, hhead, -⟩ := keyword_plain _ hmem
      rintro hnil
      simp [hnil] at hhead
  | identifier => simp

/-- The four ways in which a token may start. -/
theorem start (h : Spells kind (byte :: tail)) :
    (∃ punct : Punct, spell punct.spelling = byte :: tail)
    ∨ (isDigit byte ∧ IsNumber (byte :: tail))
    ∨ (byte = ascii '"' ∧ ∃ inside, ascii '"' ∉ inside ∧ tail = inside ++ [ascii '"'])
    ∨ (isNameStart byte ∧ ∀ b ∈ tail, isNameByte b) := by
  generalize hbytes : byte :: tail = bytes at h
  cases h with
  | punct punct => exact .inl ⟨punct, rfl⟩
  | number hnumber =>
      obtain ⟨_, _, heq, hdigit⟩ := hnumber.cons
      obtain ⟨rfl, rfl⟩ := List.cons.inj (hbytes.trans heq)
      exact .inr (.inl ⟨hdigit, hnumber⟩)
  | string hinside =>
      obtain ⟨rfl, rfl⟩ := List.cons.inj hbytes
      exact .inr (.inr (.inl ⟨rfl, _, hinside, rfl⟩))
  | keyword hmem =>
      obtain ⟨-, -, hhead, htail⟩ := keyword_plain _ hmem
      rw [← hbytes] at hhead htail
      exact .inr (.inr (.inr ⟨hhead, List.all_eq_true.mp htail⟩))
  | identifier hfirst hrest =>
      obtain ⟨rfl, rfl⟩ := List.cons.inj hbytes
      exact .inr (.inr (.inr ⟨hfirst, hrest⟩))

theorem of_digit (h : Spells kind (byte :: tail)) (hdigit : isDigit byte) :
    IsNumber (byte :: tail) := by
  obtain ⟨-, hname, hquote, -⟩ := digit_byte byte hdigit
  rcases h.start with ⟨punct, hpunct⟩ | ⟨-, hnumber⟩ | ⟨rfl, -⟩ | ⟨hstart, -⟩
  · rw [(punct_head hpunct).1] at hdigit
    cases hdigit
  · exact hnumber
  · exact absurd rfl hquote
  · rw [hname] at hstart
    cases hstart

theorem of_nameStart (h : Spells kind (byte :: tail)) (hname : isNameStart byte) :
    ∀ b ∈ tail, isNameByte b := by
  obtain ⟨-, hquote, hapart⟩ := name_byte byte (nameByte_of_start hname)
  rcases h.start with ⟨punct, hpunct⟩ | ⟨hnumber, -⟩ | ⟨rfl, -⟩ | ⟨-, htail⟩
  · rw [(punct_head hpunct).2.1] at hname
    cases hname
  · rw [hapart hname] at hnumber
    cases hnumber
  · exact absurd rfl hquote
  · exact htail

theorem of_quote (h : Spells kind (ascii '"' :: tail)) :
    ∃ inside, ascii '"' ∉ inside ∧ tail = inside ++ [ascii '"'] := by
  rcases h.start with ⟨punct, hpunct⟩ | ⟨hnumber, -⟩ | ⟨-, hstring⟩ | ⟨hname, -⟩
  · exact absurd rfl (punct_head hpunct).2.2
  · exact absurd hnumber (by decide)
  · exact hstring
  · exact absurd hname (by decide)

/-- A token that starts with none of a digit, a letter and a quote is an operator or delimiter. -/
theorem of_other (h : Spells kind (byte :: tail)) (hdigit : isDigit byte = false)
    (hname : isNameStart byte = false) (hquote : byte ≠ ascii '"') :
    ∃ punct : Punct, spell punct.spelling = byte :: tail := by
  rcases h.start with hpunct | ⟨hnumber, -⟩ | ⟨rfl, -⟩ | ⟨hstart, -⟩
  · exact hpunct
  · rw [hdigit] at hnumber
    cases hnumber
  · exact absurd rfl hquote
  · rw [hname] at hstart
    cases hstart

end Spells

end Source

end ScopeScript
