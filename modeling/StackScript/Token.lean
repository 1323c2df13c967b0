import StackScript.Span
import StackScript.Text.Quoted

/-!
# Tokens

The words of the language.  A token is a literal, a keyword, a symbol, a name,
or one of the marks that only the layout of the source needs: a comment, the
end of a line and the end of the input.
-/

namespace StackScript

/-- The reserved words, the literals `true`, `false` and `null` apart. -/
inductive Keyword where
  | varWord
  | fnWord
  | ifWord
  | elseWord
  | whileWord
  | returnWord
  deriving DecidableEq, Repr

namespace Keyword

def all : List Keyword :=
  [varWord, fnWord, ifWord, elseWord, whileWord, returnWord]

def text : Keyword -> String
  | varWord => "var"
  | fnWord => "fn"
  | ifWord => "if"
  | elseWord => "else"
  | whileWord => "while"
  | returnWord => "return"

def name : Keyword -> String
  | varWord => "Var"
  | fnWord => "Fn"
  | ifWord => "If"
  | elseWord => "Else"
  | whileWord => "While"
  | returnWord => "Return"

end Keyword

inductive Symbol where
  | assign
  | plus
  | minus
  | star
  | slash
  | andAnd
  | orOr
  | bang
  | eqEq
  | notEq
  | less
  | lessEq
  | greater
  | greaterEq
  | dot
  | comma
  | semicolon
  | leftParen
  | rightParen
  | leftBrace
  | rightBrace
  deriving DecidableEq, Repr

namespace Symbol

def chars : Symbol -> List Char
  | assign => ['=']
  | plus => ['+']
  | minus => ['-']
  | star => ['*']
  | slash => ['/']
  | andAnd => ['&', '&']
  | orOr => ['|', '|']
  | bang => ['!']
  | eqEq => ['=', '=']
  | notEq => ['!', '=']
  | less => ['<']
  | lessEq => ['<', '=']
  | greater => ['>']
  | greaterEq => ['>', '=']
  | dot => ['.']
  | comma => [',']
  | semicolon => [';']
  | leftParen => ['(']
  | rightParen => [')']
  | leftBrace => ['\x7b']
  | rightBrace => ['\x7d']

def text (symbol : Symbol) : String :=
  String.ofList symbol.chars

def name : Symbol -> String
  | assign => "Assign"
  | plus => "Plus"
  | minus => "Minus"
  | star => "Star"
  | slash => "Slash"
  | andAnd => "AndAnd"
  | orOr => "OrOr"
  | bang => "Bang"
  | eqEq => "EqEq"
  | notEq => "NotEq"
  | less => "Lt"
  | lessEq => "LtEq"
  | greater => "Gt"
  | greaterEq => "GtEq"
  | dot => "Dot"
  | comma => "Comma"
  | semicolon => "Semi"
  | leftParen => "LParen"
  | rightParen => "RParen"
  | leftBrace => "LBrace"
  | rightBrace => "RBrace"

end Symbol

inductive Token where
  | integer (value : Int32)
  | string (text : String)
  | bool (value : Bool)
  | null
  | keyword (word : Keyword)
  | symbol (symbol : Symbol)
  | ident (name : String)
  | comment (text : String)
  | newline
  | endOfInput
  deriving DecidableEq, Repr

def integerText (n : Int32) : String :=
  toString n.toInt

def boolText (b : Bool) : String :=
  if b then "true" else "false"

namespace Token

/-- The token as it is written, with the text of a string as it stands. -/
def text : Token -> String
  | integer n => integerText n
  | string s => "\"" ++ s ++ "\""
  | bool b => boolText b
  | null => "null"
  | keyword k => k.text
  | symbol s => s.text
  | ident name => name
  | comment c => "// " ++ c
  | newline => "\\n"
  | endOfInput => "EOF"

/-- The token as a named value, with its payload in parentheses. -/
def valueText : Token -> String
  | integer n => "Integer(" ++ integerText n ++ ")"
  | string s => "String(" ++ Text.quoted s ++ ")"
  | bool b => "Bool(" ++ boolText b ++ ")"
  | null => "Null"
  | keyword k => k.name
  | symbol s => s.name
  | ident name => "Ident(" ++ Text.quoted name ++ ")"
  | comment c => "Comment(" ++ Text.quoted c ++ ")"
  | newline => "Newline"
  | endOfInput => "Eof"

/-- Whether the token can only stand at the start of a statement. -/
def startsStatement : Token -> Bool
  | keyword .elseWord => false
  | keyword _ => true
  | symbol .leftBrace => true
  | _ => false

/-- Whether the token matters to the grammar; comments and line ends do not. -/
def isSignificant : Token -> Bool
  | comment _ => false
  | newline => false
  | _ => true

end Token

structure Located where
  token : Token
  span : Span
  deriving DecidableEq, Repr

end StackScript
