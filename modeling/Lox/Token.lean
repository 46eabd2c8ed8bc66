import Lox.Number.Format
import Lox.Place
import Lox.Text.Quoted
/-!
# `Token` — the words of the language

A mark is a token whose spelling is fixed: a bracket, a separator, an operator or a reserved word.
Names, strings and numbers are the tokens that carry something of their own. The kind of a token is
what the parsers look at.
-/
namespace Lox

/-! ## Marks -/

/-- The tokens of fixed spelling. -/
inductive Mark where
  | leftParen | rightParen | leftBrace | rightBrace | comma | dot | semicolon
  | minus | plus | slash | star
  | bang | notEqual | assign | equal | greater | greaterEqual | less | lessEqual
  | andWord | orWord
  | classWord | elseWord | funWord | forWord | ifWord | printWord | returnWord | superWord | thisWord
  | varWord | whileWord
  | trueWord | falseWord | nilWord
  deriving DecidableEq, Repr

namespace Mark

/-- How a mark is written. -/
def spelling : Mark → String
  | leftParen => "(" | rightParen => ")" | leftBrace => "\x7b" | rightBrace => "\x7d"
  | comma => "," | dot => "." | semicolon => ";"
  | minus => "-" | plus => "+" | slash => "/" | star => "*"
  | bang => "!" | notEqual => "!=" | assign => "=" | equal => "=="
  | greater => ">" | greaterEqual => ">=" | less => "<" | lessEqual => "<="
  | andWord => "and" | orWord => "or"
  | classWord => "class" | elseWord => "else" | funWord => "fun" | forWord => "for" | ifWord => "if"
  | printWord => "print" | returnWord => "return" | superWord => "super" | thisWord => "this"
  | varWord => "var" | whileWord => "while"
  | trueWord => "true" | falseWord => "false" | nilWord => "nil"

/-- What a listing calls a mark. -/
def name : Mark → String
  | leftParen => "LPAR" | rightParen => "RPAR" | leftBrace => "LBRACE" | rightBrace => "RBRACE"
  | comma => "COMMA" | dot => "DOT" | semicolon => "SEMI"
  | minus => "MINUS" | plus => "PLUS" | slash => "SLASH" | star => "STAR"
  | bang => "BANG" | notEqual => "NEQ" | assign => "ASSIGN" | equal => "EQ"
  | greater => "GT" | greaterEqual => "GTE" | less => "LT" | lessEqual => "LTE"
  | andWord => "AND" | orWord => "OR"
  | classWord => "CLASS" | elseWord => "ELSE" | funWord => "FUN" | forWord => "FOR" | ifWord => "IF"
  | printWord => "PRINT" | returnWord => "RETURN" | superWord => "SUPER" | thisWord => "THIS"
  | varWord => "VAR" | whileWord => "WHILE"
  | trueWord => "TRUE" | falseWord => "FALSE" | nilWord => "NIL"

/-- The marks made of signs. One that another one begins with comes after it. -/
def signs : List Mark :=
  [equal, notEqual, lessEqual, greaterEqual, plus, minus, star, slash, less, greater, bang, assign,
    leftParen, rightParen,
    leftBrace, rightBrace, dot, comma, semicolon]

/-- The marks that look like names. -/
def words : List Mark :=
  [andWord, classWord, elseWord, falseWord, funWord, forWord, ifWord, nilWord, orWord, printWord,
    returnWord, superWord,
    thisWord, trueWord, varWord, whileWord]

/-- The sign at the head of a text: the longest that fits. -/
def signAt? (cs : List Char) : Option Mark := signs.find? (·.spelling.toList.isPrefixOf cs)

/-- The reserved word that is spelled so. -/
def word? (s : String) : Option Mark := words.find? (·.spelling == s)

/-- No sign is empty. -/
theorem spelling_length_pos {m : Mark} (h : m ∈ signs) : 0 < m.spelling.toList.length := by
  revert m; decide

end Mark

/-! ## Kinds -/

/-- What a token is, apart from what it carries. -/
inductive Kind where
  | mark (m : Mark)
  | identifier
  | string
  | number
  | endOfInput
  deriving DecidableEq, Repr

/-- The four families of kinds. The end of input belongs to none. -/
inductive Family where
  | punctuation
  | operator
  | keyword
  | literal
  deriving DecidableEq, Repr

/-- The family of a mark. -/
def Mark.family : Mark → Family
  | leftParen | rightParen | leftBrace | rightBrace | comma | dot | semicolon => .punctuation
  | minus | plus | slash | star | bang | notEqual | assign | equal | greater | greaterEqual | less
  | lessEqual | andWord | orWord => .operator
  | classWord | elseWord | funWord | forWord | ifWord | printWord | returnWord | superWord | thisWord
  | varWord | whileWord => .keyword
  | trueWord | falseWord | nilWord => .literal

namespace Kind

/-- What a listing calls a kind. -/
def name : Kind → String
  | mark m => m.name
  | identifier => "IDENT"
  | string => "STRING"
  | number => "NUMBER"
  | endOfInput => "EOF"

/-- All kinds. -/
def all : List Kind := (Mark.signs ++ Mark.words).map mark ++ [identifier, string, number, endOfInput]

/-- The kind that a listing calls so. -/
def ofName? (s : String) : Option Kind := all.find? (·.name == s)

/-- The family of a kind. -/
def family? : Kind → Option Family
  | mark m => some m.family
  | identifier | string | number => some .literal
  | endOfInput => none

end Kind

/-! ## Tokens -/

/-- What a token stands for. -/
inductive Meaning where
  | mark (m : Mark)
  | identifier (name : String)
  | string (contents : String)
  | number (value : Float)
  | endOfInput
  deriving DecidableEq

/-- The kind of what a token stands for. -/
def Meaning.kind : Meaning → Kind
  | mark m => .mark m
  | identifier _ => .identifier
  | string _ => .string
  | number _ => .number
  | endOfInput => .endOfInput

/-- A token: what it stands for, where it starts, and the text that it was read from. -/
structure Token where
  meaning : Meaning
  place : Place
  lexeme : String
  deriving DecidableEq

namespace Token

/-- The kind of a token. -/
def kind (t : Token) : Kind := t.meaning.kind

/-- Is the token the end of input? -/
def isEnd (t : Token) : Bool := t.kind == .endOfInput

/-- Where the text goes on behind a token. -/
def behind (t : Token) : Place := t.place.after t.lexeme.toList

/-- What a token carries, as a listing shows it. -/
def carried (t : Token) : String :=
  match t.meaning with
  | .mark m => Text.display m.spelling
  | .identifier s | .string s => Text.display s
  | .number v => Number.tokenFormat.text v
  | .endOfInput => "None"

/-- The line of a token in a listing. -/
def listing (t : Token) : String :=
  "Tok(" ++ t.kind.name ++ ", " ++ t.carried ++ ", " ++ toString t.place.row ++ ":" ++
    toString t.place.col ++ ")"

end Token
end Lox
