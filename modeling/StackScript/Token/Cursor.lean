import StackScript.Diagnostic
import StackScript.Text.Alphabetic
import StackScript.Text.Blank
import StackScript.Token

/-!
# Reading tokens

A cursor is the text still to be read and the position of its first character.
Reading gives a token or a fault, and in both cases the cursor where it
stopped, so that reading can go on behind a fault.
-/

namespace StackScript

inductive LexFault where
  | unexpectedChar (c : Char)
  | unknownEscape (c : Char)
  | escapeAtEnd
  | newlineInString
  | unterminatedString
  | malformedNumber (digits : List Char) (next : Char)
  | numberTooLarge (digits : List Char)
  deriving DecidableEq, Repr

def LexFault.message : LexFault -> String
  | unexpectedChar c => "unexpected character: '" ++ String.singleton c ++ "'"
  | unknownEscape c => "unknown escape sequence: \\" ++ String.singleton c
  | escapeAtEnd => "unexpected EOF in escape sequence"
  | newlineInString => "unterminated string (newline before closing quote)"
  | unterminatedString => "unterminated string literal"
  | malformedNumber digits next =>
      "invalid number literal: " ++ String.ofList (digits ++ [next])
  | numberTooLarge digits => "integer literal out of range: " ++ String.ofList digits

structure LexError where
  span : Span
  fault : LexFault
  deriving DecidableEq, Repr

def LexError.diagnostic (e : LexError) : Diagnostic where
  span := e.span
  message := e.fault.message

structure Cursor where
  rest : List Char
  span : Span
  deriving DecidableEq, Repr

structure Reading (α : Type) where
  outcome : Except LexError α
  cursor : Cursor

namespace Cursor

def ofSource (source : String) : Cursor where
  rest := source.toList
  span := .start

def skip (c : Cursor) (count : Nat) : Cursor where
  rest := c.rest.drop count
  span := c.span.after (c.rest.take count)

def splitWhile (c : Cursor) (p : Char -> Bool) : List Char × Cursor :=
  let run := c.rest.takeWhile p
  (run, { rest := c.rest.dropWhile p, span := c.span.after run })

/-- Spaces, tabs and carriage returns stand between tokens and mean nothing. -/
def isGap (c : Char) : Bool :=
  c = ' ' || c = '\t' || c = '\r'

/-- Letters, digits and the underscore make up names. -/
def isWordChar (c : Char) : Bool :=
  c.isAlphanum || c = '_'

/-!
## Strings
-/

def escaped? : Char -> Option Char
  | 'n' => some '\n'
  | 't' => some '\t'
  | 'r' => some '\r'
  | '\\' => some '\\'
  | '"' => some '"'
  | '0' => some '\x00'
  | _ => none

/-- The rest of a string literal, up to and with its closing quote.  The
characters read so far are held in reverse; `opening` is where the literal
starts, and faults of the whole literal point there. -/
def stringBody (opening : Span) (decoded : List Char) (span : Span) :
    List Char -> Reading Token
  | [] =>
      { outcome := .error { span := opening, fault := .unterminatedString }
        cursor := { rest := [], span := span } }
  | '"' :: rest =>
      { outcome := .ok (.string (String.ofList decoded.reverse))
        cursor := { rest := rest, span := span.next '"' } }
  | '\n' :: rest =>
      { outcome := .error { span := opening, fault := .newlineInString }
        cursor := { rest := '\n' :: rest, span := span } }
  | ['\\'] =>
      { outcome := .error { span := span.next '\\', fault := .escapeAtEnd }
        cursor := { rest := [], span := span.next '\\' } }
  | '\\' :: c :: rest =>
      match escaped? c with
      | some d => stringBody opening (d :: decoded) ((span.next '\\').next c) rest
      | none =>
          { outcome := .error { span := span.next '\\', fault := .unknownEscape c }
            cursor := { rest := c :: rest, span := span.next '\\' } }
  | c :: rest => stringBody opening (c :: decoded) (span.next c) rest

/-!
## Numbers and words
-/

def decimalValue (digits : List Char) : Nat :=
  digits.foldl (fun value d => 10 * value + (d.toNat - '0'.toNat)) 0

def maxInteger : Nat := 2147483647

/-- A run of digits, which no letter may follow. -/
def number (c : Cursor) : Reading Token :=
  let (digits, behind) := c.splitWhile Char.isDigit
  let fail (fault : LexFault) : Reading Token :=
    { outcome := .error { span := c.span, fault := fault }, cursor := behind }
  let valued : Reading Token :=
    if decimalValue digits ≤ maxInteger then
      { outcome := .ok (.integer (Int32.ofNat (decimalValue digits))), cursor := behind }
    else
      fail (.numberTooLarge digits)
  match behind.rest with
  | [] => valued
  | next :: _ =>
      if Text.isAlphabetic next || next = '_' then
        fail (.malformedNumber digits next)
      else
        valued

def wordToken (word : String) : Token :=
  match word with
  | "true" => .bool true
  | "false" => .bool false
  | "null" => .null
  | _ =>
      match Keyword.all.find? fun k => k.text == word with
      | some k => .keyword k
      | none => .ident word

def word (c : Cursor) : Reading Token :=
  let (letters, behind) := c.splitWhile isWordChar
  { outcome := .ok (wordToken (String.ofList letters)), cursor := behind }

/-- A comment runs to the end of its line; its text is kept without the blanks
at its ends. -/
def comment (c : Cursor) : Reading Token :=
  let (text, behind) := (c.skip 2).splitWhile (· != '\n')
  { outcome := .ok (.comment (String.ofList (Text.trim text))), cursor := behind }

/-!
## Symbols
-/

def pairSymbol? : Char -> Char -> Option Symbol
  | '&', '&' => some .andAnd
  | '|', '|' => some .orOr
  | '=', '=' => some .eqEq
  | '!', '=' => some .notEq
  | '<', '=' => some .lessEq
  | '>', '=' => some .greaterEq
  | _, _ => none

def singleSymbol? : Char -> Option Symbol
  | '=' => some .assign
  | '!' => some .bang
  | '<' => some .less
  | '>' => some .greater
  | '+' => some .plus
  | '-' => some .minus
  | '*' => some .star
  | '/' => some .slash
  | '.' => some .dot
  | ',' => some .comma
  | ';' => some .semicolon
  | '(' => some .leftParen
  | ')' => some .rightParen
  | '\x7b' => some .leftBrace
  | '\x7d' => some .rightBrace
  | _ => none

/-- The longest symbol that the text starts with. -/
def symbol? : List Char -> Option Symbol
  | [] => none
  | [c] => singleSymbol? c
  | c :: d :: _ => (pairSymbol? c d).or (singleSymbol? c)

def symbol (c : Cursor) (first : Char) : Reading Token :=
  match symbol? c.rest with
  | some s => { outcome := .ok (.symbol s), cursor := c.skip s.chars.length }
  | none =>
      { outcome := .error { span := c.span, fault := .unexpectedChar first }, cursor := c }

/-!
## Tokens
-/

/-- The token at the cursor, which stands in front of no gap. -/
def token (c : Cursor) : Reading Token :=
  match c.rest with
  | [] => { outcome := .ok .endOfInput, cursor := c }
  | '\n' :: _ => { outcome := .ok .newline, cursor := c.skip 1 }
  | '/' :: '/' :: _ => c.comment
  | '"' :: rest => stringBody c.span [] (c.span.next '"') rest
  | first :: _ =>
      if first.isDigit then
        c.number
      else if first.isAlpha || first = '_' then
        c.word
      else
        c.symbol first

end Cursor
end StackScript
