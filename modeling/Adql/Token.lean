import Adql.Keyword
import Adql.Position

/-!
# Tokens

A token is a kind, the text it was read from and the place of that text.  Kinds carry no text of
their own, so they are totally ordered: reserved words first, in their own order, then the other
kinds in the order of their declaration.  Sets of expected kinds are listed in this order.
-/

namespace Adql

/-- The kind of a token. -/
inductive TokenKind
  | keyword (word : Keyword)
  | identifier | delimitedIdentifier
  | integer | real | string
  | plus | minus | star | slash | percent
  | eq | notEq | lt | ltEq | gt | gtEq
  | concat | bitAnd | bitOr | bitXor | bitNot
  | leftParen | rightParen | comma | dot | semicolon
  | eof
  deriving DecidableEq

/-- A coarse classification of token kinds. -/
inductive TokenCategory
  | keyword | identifier | integer | real | string | operator | punctuation | eof
  deriving DecidableEq

namespace TokenKind

/-- The kinds that are no reserved words, in their order. -/
def unreserved : List TokenKind :=
  [.identifier, .delimitedIdentifier, .integer, .real, .string,
   .plus, .minus, .star, .slash, .percent, .eq, .notEq, .lt, .ltEq, .gt, .gtEq,
   .concat, .bitAnd, .bitOr, .bitXor, .bitNot,
   .leftParen, .rightParen, .comma, .dot, .semicolon, .eof]

/-- All kinds in their order. -/
def all : List TokenKind :=
  Keyword.all.map .keyword ++ unreserved

/-- The place of the kind in the order. -/
def index : TokenKind → Nat
  | .keyword word => word.index
  | .identifier => 61
  | .delimitedIdentifier => 62
  | .integer => 63
  | .real => 64
  | .string => 65
  | .plus => 66
  | .minus => 67
  | .star => 68
  | .slash => 69
  | .percent => 70
  | .eq => 71
  | .notEq => 72
  | .lt => 73
  | .ltEq => 74
  | .gt => 75
  | .gtEq => 76
  | .concat => 77
  | .bitAnd => 78
  | .bitOr => 79
  | .bitXor => 80
  | .bitNot => 81
  | .leftParen => 82
  | .rightParen => 83
  | .comma => 84
  | .dot => 85
  | .semicolon => 86
  | .eof => 87

/-- The text by which diagnostics name the kind. -/
def display : TokenKind → String
  | .keyword word => word.spelling
  | .identifier => "identifier"
  | .delimitedIdentifier => "delimited identifier"
  | .integer => "integer"
  | .real => "real"
  | .string => "string"
  | .plus => "'+'"
  | .minus => "'-'"
  | .star => "'*'"
  | .slash => "'/'"
  | .percent => "'%'"
  | .eq => "'='"
  | .notEq => "'<>'"
  | .lt => "'<'"
  | .ltEq => "'<='"
  | .gt => "'>'"
  | .gtEq => "'>='"
  | .concat => "'||'"
  | .bitAnd => "'&'"
  | .bitOr => "'|'"
  | .bitXor => "'^'"
  | .bitNot => "'~'"
  | .leftParen => "'('"
  | .rightParen => "')'"
  | .comma => "','"
  | .dot => "'.'"
  | .semicolon => "';'"
  | .eof => "EOF"

/-- The coarse class of the kind. -/
def category : TokenKind → TokenCategory
  | .keyword _ => .keyword
  | .identifier | .delimitedIdentifier => .identifier
  | .integer => .integer
  | .real => .real
  | .string => .string
  | .plus | .minus | .star | .slash | .percent | .eq | .notEq | .lt | .ltEq | .gt | .gtEq
  | .concat | .bitAnd | .bitOr | .bitXor | .bitNot => .operator
  | .leftParen | .rightParen | .comma | .dot | .semicolon => .punctuation
  | .eof => .eof

/-- Does the kind name something, with or without quotes? -/
def isIdentifier : TokenKind → Bool
  | .identifier | .delimitedIdentifier => true
  | _ => false

/-- Every kind is listed at its place in the order. -/
theorem getElem?_all_index (kind : TokenKind) : all[kind.index]? = some kind := by
  cases kind with
  | keyword word => cases word <;> rfl
  | _ => rfl

/-- Every kind is listed. -/
theorem mem_all (kind : TokenKind) : kind ∈ all :=
  List.mem_of_getElem? (getElem?_all_index kind)

/-- No two kinds have one place in the order. -/
theorem index_injective {first second : TokenKind} (h : first.index = second.index) :
    first = second := by
  have hlisted := getElem?_all_index first
  rw [h, getElem?_all_index second] at hlisted
  exact (Option.some.inj hlisted).symm

end TokenKind

/-- A token with its text and place. -/
structure Token where
  /-- The kind of the token. -/
  kind : TokenKind
  /-- The text of the token, quotes included; the end marker has none. -/
  lexeme : String
  /-- The bytes of the text. -/
  span : Span
  /-- The line of the first character. -/
  line : Nat
  /-- The column of the first character. -/
  column : Nat
  deriving DecidableEq

namespace Token

/-- The end marker at a position. -/
def endAt (place : Position) : Token :=
  ⟨.eof, "", ⟨place.offset, place.offset⟩, place.line, place.column⟩

/-- Is the token an end marker? -/
def isEnd (token : Token) : Bool :=
  token.kind = .eof

/-- The reserved word of a token that is one. -/
def keyword? (token : Token) : Option Keyword :=
  match token.kind with
  | .keyword word => some word
  | _ => none

/-- A token has a reserved word if it is of the kind of the word. -/
theorem keyword?_eq_some {token : Token} {keyword : Keyword} :
    token.keyword? = some keyword ↔ token.kind = .keyword keyword := by
  unfold keyword?
  cases token.kind <;> simp

/-- The position of the first character. -/
def position (token : Token) : Position :=
  ⟨token.span.start, token.line, token.column⟩

end Token

end Adql
