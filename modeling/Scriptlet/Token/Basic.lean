/-! Tokens: the words and marks that a source consists of.

A token knows its kind, the span of source it covers and the text that stands
there. The list of a source's tokens is kept in two parts: the tokens themselves,
none of which is an end marker, and the one end marker behind them. -/
namespace Scriptlet

/-- The kinds of token. -/
inductive Kind where
  | leftParen | rightParen | leftBracket | rightBracket | leftBrace | rightBrace
  | comma | dot | minus | plus | semicolon | slash | star
  | not | notEqual | equal | equalEqual | greater | greaterEqual | less | lessEqual
  | identifier | string | number
  | andWord | elseWord | falseWord | forWord | funWord | ifWord | inWord | nilWord | orWord
  | printWord | returnWord | trueWord | letWord
  /-- A character that begins no token. -/
  | unknown
  /-- The end of the source. -/
  | eof
  deriving DecidableEq, Repr

namespace Kind

/-- The name by which diagnostics and dumps mention a kind. -/
def name : Kind → String
  | .leftParen => "LEFT_PAREN"
  | .rightParen => "RIGHT_PAREN"
  | .leftBracket => "LEFT_BRACKET"
  | .rightBracket => "RIGHT_BRACKET"
  | .leftBrace => "LEFT_BRACE"
  | .rightBrace => "RIGHT_BRACE"
  | .comma => "COMMA"
  | .dot => "DOT"
  | .minus => "MINUS"
  | .plus => "PLUS"
  | .semicolon => "SEMICOLON"
  | .slash => "SLASH"
  | .star => "STAR"
  | .not => "NOT"
  | .notEqual => "NOT_EQUAL"
  | .equal => "EQUAL"
  | .equalEqual => "EQUAL_EQUAL"
  | .greater => "GREATER"
  | .greaterEqual => "GREATER_EQUAL"
  | .less => "LESS"
  | .lessEqual => "LESS_EQUAL"
  | .identifier => "IDENTIFIER"
  | .string => "STRING"
  | .number => "NUMBER"
  | .andWord => "AND"
  | .elseWord => "ELSE"
  | .falseWord => "FALSE"
  | .forWord => "FOR"
  | .funWord => "FUN"
  | .ifWord => "IF"
  | .inWord => "IN"
  | .nilWord => "NIL"
  | .orWord => "OR"
  | .printWord => "PRINT"
  | .returnWord => "RETURN"
  | .trueWord => "TRUE"
  | .letWord => "LET"
  | .unknown => "ERROR"
  | .eof => "EOF"

/-- Every kind of token. -/
def all : List Kind :=
  [.leftParen, .rightParen, .leftBracket, .rightBracket, .leftBrace, .rightBrace, .comma, .dot,
    .minus, .plus, .semicolon, .slash, .star, .not, .notEqual, .equal, .equalEqual, .greater,
    .greaterEqual, .less, .lessEqual, .identifier, .string, .number, .andWord, .elseWord,
    .falseWord, .forWord, .funWord, .ifWord, .inWord, .nilWord, .orWord, .printWord,
    .returnWord, .trueWord, .letWord, .unknown, .eof]

/-- The kind of a name in diagnostics and dumps. -/
def ofName? (name : String) : Option Kind :=
  all.find? (·.name == name)

/-- How a kind is written in a source, for the kinds that are written one way
only; the others have their name. -/
def spelling : Kind → String
  | .leftParen => "("
  | .rightParen => ")"
  | .leftBracket => "["
  | .rightBracket => "]"
  | .leftBrace => "\x7b"
  | .rightBrace => "\x7d"
  | .comma => ","
  | .dot => "."
  | .minus => "-"
  | .plus => "+"
  | .semicolon => ";"
  | .slash => "/"
  | .star => "*"
  | .not => "!"
  | .notEqual => "!="
  | .equal => "="
  | .equalEqual => "=="
  | .greater => ">"
  | .greaterEqual => ">="
  | .less => "<"
  | .lessEqual => "<="
  | .andWord => "and"
  | .elseWord => "else"
  | .falseWord => "false"
  | .forWord => "for"
  | .funWord => "fun"
  | .ifWord => "if"
  | .inWord => "in"
  | .nilWord => "nil"
  | .orWord => "or"
  | .printWord => "print"
  | .returnWord => "return"
  | .trueWord => "true"
  | .letWord => "let"
  | kind => kind.name

/-- The words that are not free to be names. -/
def keywords : List Kind :=
  [.andWord, .elseWord, .falseWord, .forWord, .funWord, .ifWord, .inWord, .nilWord, .orWord,
    .printWord, .returnWord, .trueWord, .letWord]

/-- The kind of a word: a keyword's own, or a name's. -/
def ofWord (word : String) : Kind :=
  (keywords.find? (·.spelling == word)).getD .identifier

/-- The kind of a mark that is one character and nothing more. -/
def ofMark? : Char → Option Kind
  | '(' => some .leftParen
  | ')' => some .rightParen
  | '[' => some .leftBracket
  | ']' => some .rightBracket
  | '{' => some .leftBrace
  | '}' => some .rightBrace
  | ',' => some .comma
  | '.' => some .dot
  | '-' => some .minus
  | '+' => some .plus
  | ';' => some .semicolon
  | '/' => some .slash
  | '*' => some .star
  | _ => none

/-- The kinds of a mark that may be followed by an equals sign: without it and
with it. -/
def ofMarkBeforeEqual? : Char → Option (Kind × Kind)
  | '!' => some (.not, .notEqual)
  | '=' => some (.equal, .equalEqual)
  | '>' => some (.greater, .greaterEqual)
  | '<' => some (.less, .lessEqual)
  | _ => none

end Kind

/-- A token. Both `start` and `stop` are offsets of characters that belong to it. -/
structure Token where
  kind : Kind
  start : Nat
  stop : Nat
  text : String
  deriving DecidableEq, Repr

namespace Token

/-- How diagnostics and dumps write a token. -/
def label (t : Token) : String :=
  "Token(" ++ t.kind.name ++ ", " ++ Nat.repr t.start ++ ", " ++ Nat.repr t.stop ++ ")"

/-- Whether a string token has its closing quote; the opening one alone does not
close it. -/
def isClosed (t : Token) : Bool :=
  let chars := t.text.toList
  1 < chars.length && chars.getLast? == some '"'

def isUnterminated (t : Token) : Bool :=
  t.kind == .string && !t.isClosed

/-- The text between the quotes; an unterminated string runs to its end. -/
def stringValue (t : Token) : String :=
  let inner := t.text.toList.drop 1
  String.ofList (if t.isClosed then inner.dropLast else inner)

end Token

/-- The tokens of a source. -/
structure Tokens where
  body : List Token
  final : Token
  deriving DecidableEq, Repr

namespace Tokens

def toList (ts : Tokens) : List Token :=
  ts.body ++ [ts.final]

/-- The strings that lack their closing quote. -/
def unterminated (ts : Tokens) : List Token :=
  ts.body.filter Token.isUnterminated

/-- How many braces are opened more than closed; below zero, if more are closed. -/
def openBraces (ts : Tokens) : Int :=
  (ts.body.countP (·.kind == .leftBrace) : Int) - ts.body.countP (·.kind == .rightBrace)

end Tokens

end Scriptlet
