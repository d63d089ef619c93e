/-! # Tokens

A token is a kind, the text it was read from and a line. Strings and numbers carry the value they
stand for. Kinds are compared by their tag, which forgets that value.
-/

namespace ScopeScript

/-- Operators and delimiters. -/
inductive Punct where
  | leftParen | rightParen | leftBrace | rightBrace
  | comma | dot | minus | plus | semicolon | slash | star
  | bang | bangEqual | equal | equalEqual
  | greater | greaterEqual | less | lessEqual
  | min | max
  deriving DecidableEq

/-- Reserved words. -/
inductive Keyword where
  | andKw | breakKw | classKw | elseKw | falseKw | funKw | forKw | ifKw | letKw
  | nilKw | orKw | printKw | returnKw | superKw | thisKw | trueKw | varKw | whileKw
  deriving DecidableEq

/-- What a token is, without the value it carries. -/
inductive Tag where
  | punct (punct : Punct)
  | keyword (keyword : Keyword)
  | identifier
  | string
  | number
  | eof
  deriving DecidableEq

/-- What a token is. -/
inductive Kind where
  | punct (punct : Punct)
  | keyword (keyword : Keyword)
  | identifier
  | string (text : String)
  | number (value : Float)
  | eof

/-- Forget the value that a kind carries. -/
def Kind.tag : Kind → Tag
  | .punct p => .punct p
  | .keyword k => .keyword k
  | .identifier => .identifier
  | .string _ => .string
  | .number _ => .number
  | .eof => .eof

/-- A token of the language. Its text need not match its kind. -/
structure Token where
  kind : Kind
  lexeme : String
  line : Nat

/-- The tag of a token. -/
def Token.tag (token : Token) : Tag :=
  token.kind.tag

/-- Tokens are compared by tag, text and line. -/
instance : BEq Token where
  beq a b := a.tag = b.tag && a.lexeme = b.lexeme && a.line = b.line

/-- The name of an operator or delimiter. -/
def Punct.name : Punct → String
  | .leftParen => "LEFT_PAREN"
  | .rightParen => "RIGHT_PAREN"
  | .leftBrace => "LEFT_BRACE"
  | .rightBrace => "RIGHT_BRACE"
  | .comma => "COMMA"
  | .dot => "DOT"
  | .minus => "MINUS"
  | .plus => "PLUS"
  | .semicolon => "SEMICOLON"
  | .slash => "SLASH"
  | .star => "STAR"
  | .bang => "BANG"
  | .bangEqual => "BANG_EQUAL"
  | .equal => "EQUAL"
  | .equalEqual => "EQUAL_EQUAL"
  | .greater => "GREATER"
  | .greaterEqual => "GREATER_EQUAL"
  | .less => "LESS"
  | .lessEqual => "LESS_EQUAL"
  | .min => "MIN"
  | .max => "MAX"

/-- The name of a reserved word. -/
def Keyword.name : Keyword → String
  | .andKw => "AND"
  | .breakKw => "BREAK"
  | .classKw => "CLASS"
  | .elseKw => "ELSE"
  | .falseKw => "FALSE"
  | .funKw => "FUN"
  | .forKw => "FOR"
  | .ifKw => "IF"
  | .letKw => "LET"
  | .nilKw => "NIL"
  | .orKw => "OR"
  | .printKw => "PRINT"
  | .returnKw => "RETURN"
  | .superKw => "SUPER"
  | .thisKw => "THIS"
  | .trueKw => "TRUE"
  | .varKw => "VAR"
  | .whileKw => "WHILE"

/-- The name of a tag. -/
def Tag.name : Tag → String
  | .punct p => p.name
  | .keyword k => k.name
  | .identifier => "IDENTIFIER"
  | .string => "STRING"
  | .number => "NUMBER"
  | .eof => "EOF"

/-- All operators and delimiters. -/
def Punct.all : List Punct :=
  [.leftParen, .rightParen, .leftBrace, .rightBrace, .comma, .dot, .minus, .plus, .semicolon,
    .slash, .star, .bang, .bangEqual, .equal, .equalEqual, .greater, .greaterEqual, .less,
    .lessEqual, .min, .max]

/-- The reserved words as they are spelled. The absent value has two spellings. -/
def Keyword.spellings : List (String × Keyword) :=
  [("and", .andKw), ("break", .breakKw), ("class", .classKw), ("else", .elseKw),
    ("false", .falseKw), ("fun", .funKw), ("for", .forKw), ("if", .ifKw), ("let", .letKw),
    ("nil", .nilKw), ("nyl", .nilKw), ("or", .orKw), ("print", .printKw),
    ("return", .returnKw), ("super", .superKw), ("this", .thisKw), ("true", .trueKw),
    ("var", .varKw), ("while", .whileKw)]

/-- The reserved word with a given spelling. -/
def Keyword.ofSpelling? (word : String) : Option Keyword :=
  Keyword.spellings.lookup word

/-- All tags. -/
def Tag.all : List Tag :=
  Punct.all.map .punct ++ [.identifier, .string, .number]
    ++ Keyword.spellings.map (.keyword ·.2) ++ [.eof]

/-- The tag with a given name. -/
def Tag.ofName? (name : String) : Option Tag :=
  Tag.all.find? (·.name = name)

end ScopeScript
