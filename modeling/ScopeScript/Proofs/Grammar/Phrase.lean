import ScopeScript.Token.Basic

/-!
# The grammar of the language

The grammar is a table with one phrase for each symbol. Phrases are built from tokens and symbols by
sequence, choice and repetition, and a relation says which lists of tokens a phrase stands for. No
rule of reading occurs here, so the table can be compared with what the rules accept.

The lengths that comma lists may have are a parameter of the relation. The bare grammar allows every
length.
-/

namespace ScopeScript.Grammar

/-- The symbols of the grammar. -/
inductive Symbol where
  | program | declaration | classDecl | funDecl | function | parameters | varDecl | letDecl
  | statement | exprStmt | printStmt | forStmt | ifStmt | whileStmt | breakStmt | returnStmt
  | block
  | expression | assignment | logicOr | logicAnd | equality | comparison | term | factor | unary
  | call | arguments | primary
  deriving DecidableEq

/-- Phrases over tokens and symbols. -/
inductive Phrase where
  | empty
  | never
  | token (tag : Tag)
  | symbol (symbol : Symbol)
  | seq (first second : Phrase)
  | either (left right : Phrase)
  | many (body : Phrase)
  /-- One or more items with commas between them. -/
  | items (item : Phrase)

namespace Phrase

/-- Phrases one after another. -/
def sequence (parts : List Phrase) : Phrase :=
  parts.foldr seq empty

/-- Any one of some phrases. -/
def choice (parts : List Phrase) : Phrase :=
  parts.foldr either never

/-- A phrase that may be left out. -/
def optional (body : Phrase) : Phrase :=
  either body empty

/-- A reserved word. -/
def word (keyword : Keyword) : Phrase :=
  token (.keyword keyword)

/-- An operator or delimiter. -/
def mark (punct : Punct) : Phrase :=
  token (.punct punct)

/-- A name. -/
def name : Phrase :=
  token .identifier

/-- Operands with operators between them. -/
def operation (operand : Symbol) (operators : List Tag) : Phrase :=
  seq (symbol operand) (many (seq (choice (operators.map token)) (symbol operand)))

end Phrase

open Phrase

/-- What each symbol stands for. -/
def Symbol.phrase : Symbol → Phrase
  | program => sequence [many (symbol declaration), token .eof]
  | declaration =>
    choice [symbol classDecl, symbol funDecl, symbol varDecl, symbol letDecl, symbol statement]
  | classDecl =>
    sequence [word .classKw, name, Phrase.optional (sequence [mark .less, name]),
      mark .leftBrace, many (symbol function), mark .rightBrace]
  | funDecl => sequence [word .funKw, symbol function]
  | function =>
    sequence [name, mark .leftParen, Phrase.optional (symbol parameters), mark .rightParen,
      symbol block]
  | parameters => items name
  | varDecl =>
    sequence [word .varKw, name, Phrase.optional (sequence [mark .equal, symbol expression]),
      mark .semicolon]
  | letDecl =>
    sequence [word .letKw, name, mark .equal, symbol expression, mark .semicolon]
  | statement =>
    choice [symbol exprStmt, symbol printStmt, symbol forStmt, symbol ifStmt, symbol whileStmt,
      symbol breakStmt, symbol returnStmt, symbol block]
  | exprStmt => sequence [symbol expression, mark .semicolon]
  | printStmt => sequence [word .printKw, symbol expression, mark .semicolon]
  | forStmt =>
    sequence [word .forKw, mark .leftParen,
      choice [symbol varDecl, symbol letDecl, symbol exprStmt, mark .semicolon],
      Phrase.optional (symbol expression), mark .semicolon,
      Phrase.optional (symbol expression), mark .rightParen, symbol statement]
  | ifStmt =>
    sequence [word .ifKw, mark .leftParen, symbol expression, mark .rightParen,
      symbol statement, Phrase.optional (sequence [word .elseKw, symbol statement])]
  | whileStmt =>
    sequence [word .whileKw, mark .leftParen, symbol expression, mark .rightParen,
      symbol statement]
  | breakStmt => sequence [word .breakKw, mark .semicolon]
  | returnStmt =>
    sequence [word .returnKw, Phrase.optional (symbol expression), mark .semicolon]
  | block => sequence [mark .leftBrace, many (symbol declaration), mark .rightBrace]
  | expression => symbol assignment
  | assignment =>
    choice [
      sequence [Phrase.optional (sequence [symbol call, mark .dot]), name, mark .equal,
        symbol assignment],
      symbol logicOr]
  | logicOr => operation logicAnd [.keyword .orKw]
  | logicAnd => operation equality [.keyword .andKw]
  | equality => operation comparison [.punct .bangEqual, .punct .equalEqual]
  | comparison =>
    operation term [.punct .greater, .punct .greaterEqual, .punct .less, .punct .lessEqual,
      .punct .min, .punct .max]
  | term => operation factor [.punct .minus, .punct .plus]
  | factor => operation unary [.punct .slash, .punct .star]
  | unary =>
    choice [sequence [choice [mark .bang, mark .minus], symbol unary], symbol call]
  | call =>
    sequence [symbol primary,
      many (choice [
        sequence [mark .leftParen, Phrase.optional (symbol arguments), mark .rightParen],
        sequence [mark .dot, name]])]
  | arguments => items (symbol expression)
  | primary =>
    choice [token .number, token .string, word .trueKw, word .falseKw, word .nilKw,
      word .thisKw, name, sequence [mark .leftParen, symbol expression, mark .rightParen],
      sequence [word .superKw, mark .dot, name]]

/-- The tokens that a phrase stands for, where comma lists have only lengths that are allowed. -/
inductive Derives (allowed : Nat → Prop) : Phrase → List Token → Prop
  | empty : Derives allowed .empty []
  | token (t : Token) : Derives allowed (.token t.tag) [t]
  | symbol {s : Symbol} {ts : List Token} :
      Derives allowed s.phrase ts → Derives allowed (.symbol s) ts
  | seq {p q : Phrase} {first second : List Token} :
      Derives allowed p first → Derives allowed q second →
      Derives allowed (.seq p q) (first ++ second)
  | left {p q : Phrase} {ts : List Token} :
      Derives allowed p ts → Derives allowed (.either p q) ts
  | right {p q : Phrase} {ts : List Token} :
      Derives allowed q ts → Derives allowed (.either p q) ts
  | many {p : Phrase} {parts : List (List Token)} :
      (∀ part ∈ parts, Derives allowed p part) → Derives allowed (.many p) parts.flatten
  | items {item : Phrase} {first : List Token} {others : List (List Token)} :
      Derives allowed item first →
      (∀ part ∈ others, Derives allowed (.seq (.token (.punct .comma)) item) part) →
      allowed (others.length + 1) →
      Derives allowed (.items item) (first ++ others.flatten)

variable {allowed : Nat → Prop} {ts : List Token}

@[simp] theorem derives_empty : Derives allowed .empty ts ↔ ts = [] := by
  constructor
  · rintro ⟨⟩
    rfl
  · rintro rfl
    exact .empty

@[simp] theorem not_derives_never : ¬ Derives allowed .never ts := by
  rintro ⟨⟩

@[simp] theorem derives_token {tag : Tag} :
    Derives allowed (.token tag) ts ↔ ∃ t, t.tag = tag ∧ ts = [t] := by
  constructor
  · rintro ⟨⟩
    exact ⟨_, rfl, rfl⟩
  · rintro ⟨t, rfl, rfl⟩
    exact .token t

theorem derives_symbol {s : Symbol} :
    Derives allowed (.symbol s) ts ↔ Derives allowed s.phrase ts := by
  constructor
  · rintro ⟨⟩
    assumption
  · exact .symbol

@[simp] theorem derives_seq {p q : Phrase} :
    Derives allowed (.seq p q) ts ↔
      ∃ first second, Derives allowed p first ∧ Derives allowed q second
        ∧ ts = first ++ second := by
  constructor
  · rintro ⟨⟩
    exact ⟨_, _, by assumption, by assumption, rfl⟩
  · rintro ⟨first, second, hfirst, hsecond, rfl⟩
    exact .seq hfirst hsecond

@[simp] theorem derives_either {p q : Phrase} :
    Derives allowed (.either p q) ts ↔ Derives allowed p ts ∨ Derives allowed q ts := by
  constructor
  · rintro ⟨⟩
    · exact .inl (by assumption)
    · exact .inr (by assumption)
  · rintro (h | h)
    · exact .left h
    · exact .right h

theorem derives_many {p : Phrase} :
    Derives allowed (.many p) ts ↔
      ∃ parts : List (List Token), (∀ part ∈ parts, Derives allowed p part)
        ∧ ts = parts.flatten := by
  constructor
  · rintro ⟨⟩
    exact ⟨_, by assumption, rfl⟩
  · rintro ⟨parts, hparts, rfl⟩
    exact .many hparts

theorem derives_items {item : Phrase} :
    Derives allowed (.items item) ts ↔
      ∃ (first : List Token) (others : List (List Token)), Derives allowed item first
        ∧ (∀ part ∈ others, Derives allowed (.seq (.token (.punct .comma)) item) part)
        ∧ allowed (others.length + 1) ∧ ts = first ++ others.flatten := by
  constructor
  · rintro ⟨⟩
    exact ⟨_, _, by assumption, by assumption, by assumption, rfl⟩
  · rintro ⟨first, others, hfirst, hothers, hlength, rfl⟩
    exact .items hfirst hothers hlength

@[simp] theorem derives_sequence_nil : Derives allowed (sequence []) ts ↔ ts = [] :=
  derives_empty

@[simp] theorem derives_sequence_cons {p : Phrase} {parts : List Phrase} :
    Derives allowed (sequence (p :: parts)) ts ↔
      ∃ first second, Derives allowed p first ∧ Derives allowed (sequence parts) second
        ∧ ts = first ++ second :=
  derives_seq

theorem derives_token_seq {tag : Tag} {p : Phrase} :
    Derives allowed (.seq (.token tag) p) ts ↔
      ∃ t us, t.tag = tag ∧ Derives allowed p us ∧ ts = t :: us := by
  rw [derives_seq]
  constructor
  · rintro ⟨_, us, htoken, hus, rfl⟩
    obtain ⟨t, ht, rfl⟩ := derives_token.mp htoken
    exact ⟨t, us, ht, hus, rfl⟩
  · rintro ⟨t, us, ht, hus, rfl⟩
    exact ⟨[t], us, derives_token.mpr ⟨t, ht, rfl⟩, hus, rfl⟩

theorem derives_sequence_token {tag : Tag} {parts : List Phrase} :
    Derives allowed (sequence (.token tag :: parts)) ts ↔
      ∃ t us, t.tag = tag ∧ Derives allowed (sequence parts) us ∧ ts = t :: us :=
  derives_token_seq

theorem derives_sequence_last {p : Phrase} :
    Derives allowed (sequence [p]) ts ↔ Derives allowed p ts := by
  simp

@[simp] theorem derives_choice {parts : List Phrase} :
    Derives allowed (choice parts) ts ↔ ∃ p ∈ parts, Derives allowed p ts := by
  induction parts with
  | nil => simp [choice]
  | cons p rest ih =>
      change Derives allowed (.either p (choice rest)) ts ↔ _
      rw [derives_either, ih]
      simp

theorem derives_choice_token {tags : List Tag} :
    Derives allowed (choice (tags.map .token)) ts ↔ ∃ t, t.tag ∈ tags ∧ ts = [t] := by
  rw [derives_choice]
  constructor
  · rintro ⟨p, hp, hts⟩
    obtain ⟨tag, htag, rfl⟩ := List.mem_map.mp hp
    obtain ⟨t, rfl, rfl⟩ := derives_token.mp hts
    exact ⟨t, htag, rfl⟩
  · rintro ⟨t, ht, rfl⟩
    exact ⟨_, List.mem_map_of_mem ht, .token t⟩

@[simp] theorem derives_optional {p : Phrase} :
    Derives allowed (Phrase.optional p) ts ↔ Derives allowed p ts ∨ ts = [] := by
  rw [Phrase.optional, derives_either, derives_empty]

@[simp] theorem derives_word {keyword : Keyword} :
    Derives allowed (word keyword) ts ↔ ∃ t, t.tag = .keyword keyword ∧ ts = [t] :=
  derives_token

@[simp] theorem derives_mark {punct : Punct} :
    Derives allowed (mark punct) ts ↔ ∃ t, t.tag = .punct punct ∧ ts = [t] :=
  derives_token

@[simp] theorem derives_name :
    Derives allowed name ts ↔ ∃ t, t.tag = .identifier ∧ ts = [t] :=
  derives_token

theorem derives_sequence_append {parts others : List Phrase} {ts : List Token} :
    Derives allowed (sequence (parts ++ others)) ts ↔
      ∃ first second, Derives allowed (sequence parts) first
        ∧ Derives allowed (sequence others) second ∧ ts = first ++ second := by
  induction parts generalizing ts with
  | nil => simp
  | cons p parts ih =>
      simp only [List.cons_append, derives_sequence_cons, ih]
      constructor
      · rintro ⟨first, _, hp, ⟨second, third, hparts, hothers, rfl⟩, rfl⟩
        exact ⟨first ++ second, third, ⟨first, second, hp, hparts, rfl⟩, hothers, by simp⟩
      · rintro ⟨_, third, ⟨first, second, hp, hparts, rfl⟩, hothers, rfl⟩
        exact ⟨first, second ++ third, hp, ⟨second, third, hparts, hothers, rfl⟩, by simp⟩

section Building

variable {p q : Phrase} {parts : List Phrase} {first : List Token} {t : Token} {tag : Tag}

theorem Derives.tagged (ht : t.tag = tag) : Derives allowed (.token tag) [t] :=
  derives_token.mpr ⟨t, ht, rfl⟩

theorem Derives.token_seq (ht : t.tag = tag) (h : Derives allowed p ts) :
    Derives allowed (.seq (.token tag) p) (t :: ts) :=
  .seq (.tagged ht) h

theorem Derives.sequence_nil : Derives allowed (sequence []) [] :=
  .empty

theorem Derives.sequence_cons (hfirst : Derives allowed p first)
    (hrest : Derives allowed (sequence parts) ts) :
    Derives allowed (sequence (p :: parts)) (first ++ ts) :=
  .seq hfirst hrest

theorem Derives.sequence_token (ht : t.tag = tag) (hrest : Derives allowed (sequence parts) ts) :
    Derives allowed (sequence (.token tag :: parts)) (t :: ts) :=
  .token_seq ht hrest

theorem Derives.sequence_last (h : Derives allowed p ts) : Derives allowed (sequence [p]) ts :=
  derives_sequence_cons.mpr ⟨ts, [], h, .sequence_nil, by simp⟩

theorem Derives.optional_some (h : Derives allowed p ts) :
    Derives allowed (Phrase.optional p) ts :=
  .left h

theorem Derives.optional_none : Derives allowed (Phrase.optional p) [] :=
  .right .empty

theorem Derives.sequence_skip (h : Derives allowed (sequence parts) ts) :
    Derives allowed (sequence (Phrase.optional p :: parts)) ts :=
  derives_sequence_cons.mpr ⟨[], ts, .optional_none, h, rfl⟩

theorem Derives.choice (hp : p ∈ parts) (h : Derives allowed p ts) :
    Derives allowed (choice parts) ts :=
  derives_choice.mpr ⟨p, hp, h⟩

theorem Derives.many_nil : Derives allowed (.many p) [] :=
  derives_many.mpr ⟨[], by simp, rfl⟩

theorem Derives.many_cons (hfirst : Derives allowed p first)
    (hrest : Derives allowed (.many p) ts) :
    Derives allowed (.many p) (first ++ ts) := by
  obtain ⟨parts, hparts, rfl⟩ := derives_many.mp hrest
  exact derives_many.mpr ⟨first :: parts, by simpa using ⟨hfirst, hparts⟩, rfl⟩

/-- A repetition may be one part longer. -/
theorem Derives.many_append {last : List Token} (hfirst : Derives allowed (.many p) first)
    (hlast : Derives allowed p last) : Derives allowed (.many p) (first ++ last) := by
  obtain ⟨parts, hparts, rfl⟩ := derives_many.mp hfirst
  refine derives_many.mpr ⟨parts ++ [last], ?_, by simp⟩
  intro part hpart
  rcases List.mem_append.mp hpart with hmem | hmem
  · exact hparts part hmem
  · rw [List.mem_singleton.mp hmem]
    exact hlast

theorem Derives.operation_one {operand : Symbol} {operators : List Tag}
    (h : Derives allowed (.symbol operand) ts) :
    Derives allowed (operation operand operators) ts := by
  have hoperation := h.seq (.many_nil (p := .seq (Phrase.choice (operators.map .token))
    (.symbol operand)))
  rw [List.append_nil] at hoperation
  exact hoperation

/-- An operation may have one operator more on its right. -/
theorem Derives.operation_append {operand : Symbol} {operators : List Tag} {last : List Token}
    (hfirst : Derives allowed (operation operand operators) first) (ht : t.tag ∈ operators)
    (hlast : Derives allowed (.symbol operand) last) :
    Derives allowed (operation operand operators) (first ++ t :: last) := by
  obtain ⟨head, others, hhead, hothers, rfl⟩ := derives_seq.mp hfirst
  have hoperator : Derives allowed (Phrase.choice (operators.map .token)) [t] :=
    derives_choice_token.mpr ⟨t, ht, rfl⟩
  rw [List.append_assoc]
  exact .seq hhead (hothers.many_append (.seq hoperator hlast))

end Building

end ScopeScript.Grammar
