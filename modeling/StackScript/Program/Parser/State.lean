import StackScript.Program
import StackScript.Program.SyntaxError

/-!
# The state of a parse

Parsing consumes tokens from the front, gives out the numbers of names and
blocks, and collects the errors of statements that were given up.  A step that
fails still leaves a state behind: the tokens and numbers that it used stay
used.
-/

namespace StackScript

structure ParseState where
  /-- The tokens not yet consumed. -/
  rest : List Located
  /-- Where the last consumed token stood. -/
  last : Span := .start
  /-- The errors so far, the latest first. -/
  errors : List SyntaxError := []
  nextBlock : BlockId := 0
  nextIdent : IdentId := 0

namespace ParseState

/-- The state in front of a list of tokens, of which only the significant ones
are kept. -/
def ofTokens (tokens : List Located) : ParseState where
  rest := tokens.filter (·.token.isSignificant)

def token? (s : ParseState) : Option Token :=
  s.rest.head?.map (·.token)

/-- The position of the next token, or of the last one when none is left. -/
def span (s : ParseState) : Span :=
  match s.rest with
  | [] => s.last
  | t :: _ => t.span

def atEnd (s : ParseState) : Bool :=
  match s.token? with
  | none => true
  | some t => t = .endOfInput

def isAt (s : ParseState) (t : Token) : Bool :=
  s.token? = some t

def found (s : ParseState) : Option Token :=
  s.token?.filter (· ≠ .endOfInput)

def advance (s : ParseState) : ParseState :=
  match s.rest with
  | [] => s
  | t :: rest => { s with rest := rest, last := t.span }

def record (s : ParseState) (e : SyntaxError) : ParseState :=
  { s with errors := e :: s.errors }

end ParseState

abbrev Parser (α : Type) := EStateM SyntaxError ParseState α

namespace Parser

variable {α : Type}

def fail (fault : Option Token -> SyntaxFault) : Parser α := do
  let s ← get
  throw { span := s.span, fault := fault s.found }

def failExpected (what : String) : Parser α :=
  fail (.expected what)

def failTooDeep (what : String) : Parser α :=
  fail (.tooDeep what)

def advance : Parser Unit :=
  modify ParseState.advance

def isAt (t : Token) : Parser Bool :=
  return (← get).isAt t

/-- Consumes the given token if it comes next, and says whether it did. -/
def eat (t : Token) : Parser Bool := do
  if ← isAt t then
    advance
    return true
  else
    return false

def expect (symbol : Symbol) (what : String) : Parser Unit := do
  if ← isAt (.symbol symbol) then
    advance
  else
    failExpected what

def freshBlock : Parser BlockId := do
  let s ← get
  set { s with nextBlock := s.nextBlock + 1 }
  return s.nextBlock

def freshIdentifier (name : String) (span : Span) : Parser Identifier := do
  let s ← get
  set { s with nextIdent := s.nextIdent + 1 }
  return { id := s.nextIdent, name := name, span := span }

def identifier (what : String) : Parser Identifier := do
  let s ← get
  match s.token? with
  | some (.ident name) =>
      advance
      freshIdentifier name s.span
  | _ => failExpected what

/-- The items behind the first, each with a comma in front, behind those read
before, which are held in reverse.  Each comma uses up a token, so one round for
every token left never cuts the list short. -/
def commaItems (item : Parser α) : List Located -> List α -> Parser (List α)
  | [], read => return read.reverse
  | _ :: rounds, read => do
      if ← eat (.symbol .comma) then
        let x ← item
        commaItems item rounds (x :: read)
      else
        return read.reverse

def commaSeparated (item : Parser α) : Parser (List α) := do
  let first ← item
  commaItems item (← get).rest [first]

/-- What stands between parentheses, of which the opening one is consumed:
items with commas between them, or none. -/
def parenthesized (item : Parser α) (closing : String) : Parser (List α) := do
  let items ←
    if ← isAt (.symbol .rightParen) then
      pure []
    else
      commaSeparated item
  expect .rightParen closing
  return items

end Parser
end StackScript
