import StackScript.Program.Parser.Expression
import StackScript.Token.Stream

/-!
# Parsing statements and programs

A statement that cannot be parsed is recorded and given up: parsing goes on at
the next place where a statement may start, so that one run finds as many
errors as it can.
-/

namespace StackScript
namespace Parser

/-!
## Going on behind an error
-/

/-- The tokens from the next statement boundary on, and the position of the
last one skipped.  A semicolon ends a statement and is skipped with it. -/
def skipToBoundary (last : Span) : List Located -> Span × List Located
  | [] => (last, [])
  | t :: rest =>
      if t.token = .endOfInput || t.token = .symbol .rightBrace || t.token.startsStatement then
        (last, t :: rest)
      else if t.token = .symbol .semicolon then
        (t.span, rest)
      else
        skipToBoundary t.span rest

def synchronized (s : ParseState) : ParseState :=
  let (last, rest) := skipToBoundary s.last s.rest
  { s with rest := rest, last := last }

/-- The state to go on from when the statement that started at `start` failed
and left `s`.  At least one token is used up, if one is left. -/
def resumed (start s : ParseState) : ParseState :=
  let next := synchronized s
  if next.rest == start.rest && !next.atEnd then
    next.advance
  else
    next

/-- A statement, or nothing when it was given up. -/
def recovering (statement : Parser Stmt) (start : ParseState) : Option Stmt × ParseState :=
  match statement start with
  | .ok parsed s => (some parsed, s)
  | .error e s => (none, resumed start (s.record e))

/-- Statements up to a closing brace or the end of the input, behind those
read before, which are held in reverse.  Each one uses up a token, so one round
for every token left never cuts the list short. -/
def statementsIn (statement : Parser Stmt) :
    List Located -> List Stmt -> ParseState -> List Stmt × ParseState
  | [], read, s => (read.reverse, s)
  | _ :: rounds, read, s =>
      if s.isAt (.symbol .rightBrace) || s.atEnd then
        (read.reverse, s)
      else
        match recovering statement s with
        | (some parsed, s) => statementsIn statement rounds (parsed :: read) s
        | (none, s) => statementsIn statement rounds read s

def statements (statement : Parser Stmt) : Parser (List Stmt) := fun s =>
  let (parsed, s) := statementsIn statement s.rest [] s
  .ok parsed s

/-!
## The forms of statements

`inside` parses what stands between braces, one level deeper.
-/

def braced (inside : Parser (List Stmt)) (context : String) : Parser (List Stmt) := do
  expect .leftBrace ("'\x7b' " ++ context)
  let body ← inside
  expect .rightBrace "'\x7d' to close block"
  return body

/-- A block, numbered before the blocks in it. -/
def block (inside : Parser (List Stmt)) (context : String) : Parser Block := do
  let id ← freshBlock
  let body ← braced inside context
  return { id := id, statements := body }

def guarded (room : Nat) (inside : Parser (List Stmt)) (word : String) : Parser Branch := do
  expect .leftParen ("'(' after '" ++ word ++ "'")
  let condition ← expression room
  expect .rightParen "')' after condition"
  let body ← block inside ("after '" ++ word ++ "' condition")
  return { condition := condition, body := body }

/-- `var name = value;` -/
def declaration (room : Nat) : Parser Stmt := do
  advance
  let name ← identifier "variable name after 'var'"
  expect .assign "'=' after variable name"
  let value ← expression room
  expect .semicolon "';' after variable declaration"
  return .declare name value

/-- `fn name(parameters) { body }` -/
def function (inside : Parser (List Stmt)) : Parser Stmt := do
  advance
  let name ← identifier "function name after 'fn'"
  expect .leftParen "'(' after function name"
  let params ← parenthesized (identifier "parameter name") "')' after parameters"
  if params.length ≤ maxArguments then
    let body ← braced inside "before function body"
    return .function name params body
  else
    throw { span := name.span, fault := .tooManyParameters name.name params.length }

/-- The `else if` branches behind those read before, which are held in reverse,
and the last `else`.  Each branch uses up a token, so one round for every token
left never cuts them short. -/
def alternatives (room : Nat) (inside : Parser (List Stmt)) :
    List Located -> List Branch -> Parser (List Branch × Option Block)
  | [], read => return (read.reverse, none)
  | _ :: rounds, read => do
      if ← eat (.keyword .elseWord) then
        if ← eat (.keyword .ifWord) then
          let branch ← guarded room inside "if"
          alternatives room inside rounds (branch :: read)
        else
          let body ← block inside "after 'else'"
          return (read.reverse, some body)
      else
        return (read.reverse, none)

/-- `if (condition) { body } else if (condition) { body } else { body }` -/
def choice (room : Nat) (inside : Parser (List Stmt)) : Parser Stmt := do
  advance
  let first ← guarded room inside "if"
  let (branches, otherwise) ← alternatives room inside (← get).rest [first]
  return .choose branches otherwise

/-- `while (condition) { body }` -/
def loop (room : Nat) (inside : Parser (List Stmt)) : Parser Stmt := do
  advance
  let branch ← guarded room inside "while"
  return .loop branch.condition branch.body

/-- `return value;`, where the value may be left out. -/
def giveBack (room : Nat) : Parser Stmt := do
  let span := (← get).span
  advance
  let value ←
    if ← isAt (.symbol .semicolon) then
      pure .null
    else
      expression room
  expect .semicolon "';' after return value"
  return .giveBack value span

/-- `target = value;` or `value;` -/
def assignmentOrExpression (room : Nat) : Parser Stmt := do
  let start := (← get).span
  let first ← expression room
  if ← eat (.symbol .assign) then
    let assigned : Expr -> Stmt ←
      match first with
      | .ident name => pure (.assign name)
      | .field receiver field => pure (.assignField receiver field)
      | _ => throw { span := start, fault := .invalidTarget }
    let value ← expression room
    expect .semicolon "';' after assignment"
    return assigned value
  else
    expect .semicolon "';' after expression"
    return .evaluate first

def statementForm (room : Nat) (inside : Parser (List Stmt)) : Parser Stmt := do
  match (← get).token? with
  | some (.keyword .varWord) => declaration room
  | some (.keyword .fnWord) => function inside
  | some (.keyword .ifWord) => choice room inside
  | some (.keyword .whileWord) => loop room inside
  | some (.keyword .returnWord) => giveBack room
  | some (.symbol .leftBrace) => return .block (← block inside "to open block")
  | _ => assignmentOrExpression room

/-- A statement with room for so many levels in it. -/
def statement : Nat -> Parser Stmt
  | 0 => statementForm 0 (failTooDeep "blocks")
  | room + 1 => statementForm (room + 1) (statements (statement room))

/-!
## Programs
-/

/-- The statements of a whole program, behind those read before, which are held
in reverse.  A closing brace that nothing opened is an error and is skipped. -/
def topLevelIn : List Located -> List Stmt -> ParseState -> List Stmt × ParseState
  | [], read, s => (read.reverse, s)
  | _ :: rounds, read, s =>
      if s.atEnd then
        (read.reverse, s)
      else if s.isAt (.symbol .rightBrace) then
        topLevelIn rounds read
          (s.record { span := s.span, fault := .unmatchedBrace }).advance
      else
        match recovering (statement maxNesting) s with
        | (some parsed, s) => topLevelIn rounds (parsed :: read) s
        | (none, s) => topLevelIn rounds read s

/-- A whole program.  When statements were given up the result is their errors,
in the order in which they were met, which are then no longer held. -/
def program (s : ParseState) : Except (List SyntaxError) Program × ParseState :=
  let (parsed, s) := topLevelIn s.rest [] s
  if s.errors.isEmpty then
    (.ok { statements := parsed }, s)
  else
    (.error s.errors.reverse, { s with errors := [] })

end Parser

namespace Program

def ofTokens (tokens : List Located) : Except (List SyntaxError) Program :=
  (Parser.program (.ofTokens tokens)).1

def parse (source : String) : Except (List SyntaxError) Program :=
  match tokenize source with
  | .ok tokens => ofTokens tokens
  | .error e => .error [.ofLexError e]

end Program
end StackScript
