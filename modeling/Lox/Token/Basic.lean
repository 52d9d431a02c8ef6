import Lox.Source.Span
import Lox.Number.Layout
/-!
# Tokens

The words of the language: numbers, strings, identifiers, sixteen reserved words, nineteen symbols,
and the mark at the end of every list of tokens.
-/

namespace Lox

inductive Keyword where
  | and | cls | else | false | for | fun | if | nil | or | print | return | super | this | true
  | var | while
deriving DecidableEq, Repr

namespace Keyword

def text : Keyword → String
  | .and => "and"
  | .cls => "class"
  | .else => "else"
  | .false => "false"
  | .for => "for"
  | .fun => "fun"
  | .if => "if"
  | .nil => "nil"
  | .or => "or"
  | .print => "print"
  | .return => "return"
  | .super => "super"
  | .this => "this"
  | .true => "true"
  | .var => "var"
  | .while => "while"

/-- The reserved words in alphabetical order. -/
def all : List Keyword :=
  [.and, .cls, .else, .false, .for, .fun, .if, .nil, .or, .print, .return, .super,
    .this, .true, .var,
    .while]

/-- The reserved word with the spelling `s`. -/
def ofText? (s : String) : Option Keyword := all.find? (·.text == s)

end Keyword

inductive Symbol where
  | plus | minus | star | slash
  | bang | bangEq | eq | eqEq | less | lessEq | greater | greaterEq
  | leftParen | rightParen | leftBrace | rightBrace | comma | dot | semicolon
deriving DecidableEq, Repr

namespace Symbol

def text : Symbol → String
  | plus => "+"
  | minus => "-"
  | star => "*"
  | slash => "/"
  | bang => "!"
  | bangEq => "!="
  | eq => "="
  | eqEq => "=="
  | less => "<"
  | lessEq => "<="
  | greater => ">"
  | greaterEq => ">="
  | leftParen => "("
  | rightParen => ")"
  | leftBrace => "\x7b"
  | rightBrace => "\x7d"
  | comma => ","
  | dot => "."
  | semicolon => ";"

/-- The symbol that a single character is. -/
def ofChar? (c : Char) : Option Symbol :=
  match c with
  | '+' => some plus
  | '-' => some minus
  | '*' => some star
  | '/' => some slash
  | '!' => some bang
  | '=' => some eq
  | '<' => some less
  | '>' => some greater
  | '(' => some leftParen
  | ')' => some rightParen
  | '\x7b' => some leftBrace
  | '\x7d' => some rightBrace
  | ',' => some comma
  | '.' => some dot
  | ';' => some semicolon
  | _ => none

/-- The symbol that a symbol makes with an equals sign after it. -/
def withEq? : Symbol → Option Symbol
  | bang => some bangEq
  | eq => some eqEq
  | less => some lessEq
  | greater => some greaterEq
  | _ => none

end Symbol

inductive TokenKind where
  | number (value : Float)
  | string (value : String)
  | identifier (name : String)
  | keyword (word : Keyword)
  | symbol (sign : Symbol)
  | eof

namespace TokenKind

/-- A token as it is shown to a reader. -/
def text : TokenKind → String
  | number x => Number.plain.text x
  | string s => "\"" ++ s ++ "\""
  | identifier s => s
  | keyword w => w.text
  | symbol s => s.text
  | eof => "end of file"

def isKeyword : TokenKind → Bool
  | keyword _ => true
  | _ => false

def isEof : TokenKind → Bool
  | eof => true
  | _ => false

end TokenKind

structure Token where
  kind : TokenKind
  span : Span

end Lox
