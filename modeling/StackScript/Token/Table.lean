import StackScript.Token
import StackScript.Text.Padding

/-!
# Token tables

A listing of tokens, one to a line: the position, the class of the token and
its text, in the terminal color of the class where colors are wanted.
-/

namespace StackScript

inductive TokenClass where
  | newline
  | comment
  | endOfInput
  | integer
  | string
  | literal
  | ident
  | paren
  | brace
  | punctuation
  | operator
  | comparison
  | keyword
  deriving DecidableEq, Repr

namespace TokenClass

def ofSymbol : Symbol -> TokenClass
  | .leftParen | .rightParen => paren
  | .leftBrace | .rightBrace => brace
  | .comma | .semicolon => punctuation
  | .eqEq | .notEq | .less | .lessEq | .greater | .greaterEq => comparison
  | .plus | .minus | .star | .slash | .dot | .assign | .bang | .andAnd | .orOr => operator

def ofToken : Token -> TokenClass
  | .integer _ => integer
  | .string _ => string
  | .bool _ | .null => literal
  | .keyword _ => keyword
  | .symbol s => ofSymbol s
  | .ident _ => ident
  | .comment _ => comment
  | .newline => newline
  | .endOfInput => endOfInput

def label : TokenClass -> String
  | newline => "NEWLINE"
  | comment => "COMMENT"
  | endOfInput => "EOF"
  | integer => "INT"
  | string => "STRING"
  | literal => "LITERAL"
  | ident => "IDENT"
  | paren => "PAREN"
  | brace => "BRACE"
  | punctuation => "PUNCT"
  | operator => "OP"
  | comparison => "CMP"
  | keyword => "KEYWORD"

def plainColor : String := "\x1b[0m"

def color : TokenClass -> String
  | newline | comment | endOfInput => "\x1b[2m"
  | string => "\x1b[32m"
  | integer | literal => "\x1b[36m"
  | ident => "\x1b[33m"
  | keyword => "\x1b[34m"
  | operator | comparison => "\x1b[35m"
  | paren | brace | punctuation => plainColor

end TokenClass

/-- How a token table is written: with terminal colors or without, and with
the tokens as source text or as named values. -/
structure TokenTable where
  colored : Bool := true
  sourceText : Bool := false
  deriving DecidableEq, Repr

namespace TokenTable

def tokenText (table : TokenTable) (t : Token) : String :=
  if table.sourceText then
    match t with
    | .endOfInput => "<eof>"
    | _ => t.text
  else
    t.valueText

def line (table : TokenTable) (entry : Located) : String :=
  let cls := TokenClass.ofToken entry.token
  let opening := if table.colored then cls.color else ""
  let closing := if table.colored then TokenClass.plainColor else ""
  "[" ++ Text.zeroPadded 2 entry.span.line ++ ":" ++ Text.zeroPadded 2 entry.span.column ++ "] "
    ++ opening ++ Text.spacePadded 8 cls.label ++ " " ++ table.tokenText entry.token
    ++ closing ++ "\n"

def render (table : TokenTable) (entries : List Located) : String :=
  String.join (entries.map table.line)

end TokenTable
end StackScript
