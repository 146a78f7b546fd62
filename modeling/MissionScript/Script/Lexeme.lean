import MissionScript.Source.Span
import MissionScript.Decimal.Layout

/-!
# Lexemes and tokens

A lexeme is a literal, a name, a reserved word, a symbol or a piece of layout: the end of a logical
line, a block opening or closing, the end of the text. A token is a lexeme with its span.
-/

namespace MissionScript

inductive Keyword where
  | ifWord
  | elifWord
  | elseWord
  | forWord
  | inWord
  | defWord
  | returnWord
  | breakWord
  | continueWord
  | passWord
  | andWord
  | orWord
  | notWord
  | trueWord
  | falseWord
  | noneWord
deriving DecidableEq

namespace Keyword

def text : Keyword → String
  | ifWord => "if"
  | elifWord => "elif"
  | elseWord => "else"
  | forWord => "for"
  | inWord => "in"
  | defWord => "def"
  | returnWord => "return"
  | breakWord => "break"
  | continueWord => "continue"
  | passWord => "pass"
  | andWord => "and"
  | orWord => "or"
  | notWord => "not"
  | trueWord => "True"
  | falseWord => "False"
  | noneWord => "None"

def all : List Keyword :=
  [ifWord, elifWord, elseWord, forWord, inWord, defWord, returnWord, breakWord, continueWord,
   passWord, andWord, orWord, notWord, trueWord, falseWord, noneWord]

/-- The reserved word spelled `s`. -/
def ofText? (s : String) : Option Keyword := all.find? (·.text = s)

end Keyword

inductive Symbol where
  | plus
  | minus
  | star
  | slash
  | slashSlash
  | percent
  | eqEq
  | bangEq
  | less
  | greater
  | lessEq
  | greaterEq
  | eq
  | plusEq
  | minusEq
  | starEq
  | lparen
  | rparen
  | lbracket
  | rbracket
  | lbrace
  | rbrace
  | comma
  | colon
  | dot
deriving DecidableEq

namespace Symbol

def text : Symbol → String
  | plus => "+"
  | minus => "-"
  | star => "*"
  | slash => "/"
  | slashSlash => "//"
  | percent => "%"
  | eqEq => "=="
  | bangEq => "!="
  | less => "<"
  | greater => ">"
  | lessEq => "<="
  | greaterEq => ">="
  | eq => "="
  | plusEq => "+="
  | minusEq => "-="
  | starEq => "*="
  | lparen => "("
  | rparen => ")"
  | lbracket => "["
  | rbracket => "]"
  | lbrace => "\x7b"
  | rbrace => "\x7d"
  | comma => ","
  | colon => ":"
  | dot => "."

/-- The symbols of two characters. -/
def ofPair? (a b : Char) : Option Symbol :=
  match a, b with
  | '+', '=' => some plusEq
  | '-', '=' => some minusEq
  | '*', '=' => some starEq
  | '/', '/' => some slashSlash
  | '=', '=' => some eqEq
  | '!', '=' => some bangEq
  | '<', '=' => some lessEq
  | '>', '=' => some greaterEq
  | _, _ => none

/-- The symbols of one character. -/
def ofChar? : Char → Option Symbol
  | '+' => some plus
  | '-' => some minus
  | '*' => some star
  | '/' => some slash
  | '%' => some percent
  | '=' => some eq
  | '<' => some less
  | '>' => some greater
  | '(' => some lparen
  | ')' => some rparen
  | '[' => some lbracket
  | ']' => some rbracket
  | '\x7b' => some lbrace
  | '\x7d' => some rbrace
  | ',' => some comma
  | ':' => some colon
  | '.' => some dot
  | _ => none

def opens : Symbol → Bool
  | lparen | lbracket | lbrace => true
  | _ => false

def closes : Symbol → Bool
  | rparen | rbracket | rbrace => true
  | _ => false

end Symbol

inductive Lexeme where
  | int (n : Int64)
  | float (x : Float)
  | str (s : String)
  | name (s : String)
  | keyword (k : Keyword)
  | symbol (s : Symbol)
  | newline
  | indent
  | dedent
  | eof
deriving DecidableEq

namespace Lexeme

/-- Layout says where lines and blocks end; it stands for no characters of its own. -/
def isLayout : Lexeme → Bool
  | newline | indent | dedent | eof => true
  | _ => false

/-- How a lexeme is named in messages. -/
def text : Lexeme → String
  | int n => toString n.toInt
  | float x => Decimal.inTokens.write x
  | str s => "'" ++ s ++ "'"
  | name s => s
  | keyword k => k.text
  | symbol s => s.text
  | newline => "end of line"
  | indent => "indent"
  | dedent => "dedent"
  | eof => "end of file"

end Lexeme

structure Token where
  lexeme : Lexeme
  span : Span
deriving DecidableEq

end MissionScript
