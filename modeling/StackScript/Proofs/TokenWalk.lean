import StackScript.Program.Parser.Statement

/-!
# Walking through tokens

The parser keeps the tokens that are left, is told how many levels may still be
opened, and goes through its loops once for every token at most.  Here the same
grammar is followed the way a machine does it: by an index into tokens that stay
where they are, with one counter for the open levels, which goes up and has to be
brought down again, and with loops that end by what they meet alone.  What calls
itself is given fuel, and has no result when that is used up; whether some fuel
is enough is not for the definitions to say.
-/

namespace StackScript

structure Walk where
  tokens : List Located
  /-- The index of the next token. -/
  position : Nat := 0
  /-- The number of open levels. -/
  depth : Nat := 0
  /-- Where the last token behind stood. -/
  last : Option Span := none
  /-- The errors so far, the latest first. -/
  errors : List SyntaxError := []
  nextBlock : BlockId := 0
  nextIdent : IdentId := 0

namespace Walk

def ofTokens (tokens : List Located) : Walk where
  tokens := tokens.filter (·.token.isSignificant)

def current? (w : Walk) : Option Located :=
  w.tokens[w.position]?

def token? (w : Walk) : Option Token :=
  w.current?.map (·.token)

def span (w : Walk) : Span :=
  ((w.current?.map (·.span)).or w.last).getD .start

def atEnd (w : Walk) : Bool :=
  match w.token? with
  | none => true
  | some t => t = .endOfInput

def isAt (w : Walk) (t : Token) : Bool :=
  w.token? = some t

def found (w : Walk) : Option Token :=
  w.token?.filter (· ≠ .endOfInput)

/-- One step further.  The index goes up even where no token is left. -/
def advance (w : Walk) : Walk :=
  { w with position := w.position + 1, last := (w.current?.map (·.span)).or w.last }

def record (w : Walk) (e : SyntaxError) : Walk :=
  { w with errors := e :: w.errors }

def deeper (w : Walk) : Walk :=
  { w with depth := w.depth + 1 }

end Walk

/-- A part of a walk.  It can fail, and it can run out of fuel; what it did to the
walk until it failed stays. -/
abbrev Walker (α : Type) := ExceptT SyntaxError (StateT Walk Option) α

namespace Walker

variable {α β : Type}

def from? (step : Walker α) (w : Walk) : Option (Except SyntaxError α × Walk) :=
  step.run.run w

def stopped : Walker α :=
  fun _ => none

/-!
## Single steps
-/

def fail (fault : Option Token -> SyntaxFault) : Walker α := do
  let w ← get
  throw { span := w.span, fault := fault w.found }

def advance : Walker Unit :=
  modify Walk.advance

def isAt (t : Token) : Walker Bool :=
  return (← get).isAt t

def eat (t : Token) : Walker Bool := do
  if ← isAt t then
    advance
    return true
  else
    return false

def expect (symbol : Symbol) (what : String) : Walker Unit := do
  if ← isAt (.symbol symbol) then
    advance
  else
    fail (.expected what)

def freshBlock : Walker BlockId := do
  let w ← get
  set { w with nextBlock := w.nextBlock + 1 }
  return w.nextBlock

def freshIdentifier (name : String) (span : Span) : Walker Identifier := do
  let w ← get
  set { w with nextIdent := w.nextIdent + 1 }
  return { id := w.nextIdent, name := name, span := span }

def identifier (what : String) : Walker Identifier := do
  let w ← get
  match w.token? with
  | some (.ident name) =>
      advance
      freshIdentifier name w.span
  | _ => fail (.expected what)

/-!
## Levels
-/

def deepen (what : String) : Walker Unit := do
  let w ← get
  if maxNesting ≤ w.depth then
    fail (.tooDeep what)
  else
    set w.deeper

def observed (step : Walker α) (next : Except SyntaxError α -> Walker β) : Walker β :=
  bind (m := StateT Walk Option) step next

def restoring (step : Walker α) : Walker α := do
  let base := (← get).depth
  observed step fun outcome => do
    modify fun w => { w with depth := base }
    liftExcept outcome

def nested (what : String) (step : Walker α) : Walker α :=
  restoring do
    deepen what
    step

/-!
## Lists
-/

/-- One round of a loop over items with commas in front, behind those read
before, which are held in reverse.  `more` goes on behind the item. -/
def commaItem (item : Walker α) (more : α -> Walker (List α)) (read : List α) :
    Walker (List α) := do
  if ← eat (.symbol .comma) then
    let x ← item
    more x
  else
    return read.reverse

def parenthesized (items : Walker (List α)) (closing : String) : Walker (List α) := do
  let read ←
    if ← isAt (.symbol .rightParen) then
      pure []
    else
      items
  expect .rightParen closing
  return read

/-!
## Expressions
-/

mutual

def expression : Nat -> Walker Expr
  | 0 => stopped
  | fuel + 1 => nested "expression" (operand fuel Parser.precedence)

def operand : Nat -> List Parser.Level -> Walker Expr
  | 0, _ => stopped
  | fuel + 1, [] => unary fuel
  | fuel + 1, level :: tighter => restoring do
      let left ← operand fuel tighter
      chain fuel level tighter left

/-- Each operator opens a level, which stays open until the chain ends. -/
def chain : Nat -> Parser.Level -> List Parser.Level -> Expr -> Walker Expr
  | 0, _, _, _ => stopped
  | fuel + 1, level, tighter, left => do
      let w ← get
      match level.operator? w.token? with
      | none => return left
      | some op =>
          advance
          deepen "expression"
          let right ← operand fuel tighter
          chain fuel level tighter (.binary op left right w.span)

def unary : Nat -> Walker Expr
  | 0 => stopped
  | fuel + 1 => do
      let w ← get
      match Parser.unaryOperator? w.token? with
      | none => application fuel
      | some op =>
          advance
          let inner ← nested "expression" (unary fuel)
          return .unary op inner w.span

def application : Nat -> Walker Expr
  | 0 => stopped
  | fuel + 1 => restoring do
      let head ← primary fuel
      suffixes fuel head

def suffixes : Nat -> Expr -> Walker Expr
  | 0, _ => stopped
  | fuel + 1, head => do
      let w ← get
      match w.token? with
      | some (.symbol .leftParen) =>
          deepen "expression"
          advance
          let args ← arguments fuel
          suffixes fuel (.call head args w.span)
      | some (.symbol .dot) =>
          deepen "expression"
          advance
          let field ← identifier "field name after '.'"
          suffixes fuel (.field head field)
      | _ => return head

def arguments : Nat -> Walker (List Expr)
  | 0 => stopped
  | fuel + 1 => do
      let start := (← get).span
      let args ← parenthesized (do
        let first ← expression fuel
        moreArguments fuel [first]) "')' after arguments"
      if args.length ≤ maxArguments then
        return args
      else
        throw { span := start, fault := .tooManyArguments args.length }

def moreArguments : Nat -> List Expr -> Walker (List Expr)
  | 0, _ => stopped
  | fuel + 1, read =>
      commaItem (expression fuel) (fun x => moreArguments fuel (x :: read)) read

def primary : Nat -> Walker Expr
  | 0 => stopped
  | fuel + 1 => do
      let w ← get
      match w.token? with
      | some (.ident name) =>
          advance
          return .ident (← freshIdentifier name w.span)
      | some (.symbol .leftParen) =>
          advance
          let inner ← expression fuel
          expect .rightParen "')' after expression"
          return inner
      | t =>
          match Parser.literal? t with
          | some e =>
              advance
              return e
          | none => fail (.expected "expression")

end

/-!
## Going on behind an error
-/

def synchronize : Nat -> Walker Unit
  | 0 => stopped
  | fuel + 1 => do
      let w ← get
      match w.token? with
      | none => return
      | some t =>
          if t = .endOfInput || t = .symbol .rightBrace || t.startsStatement then
            return
          else if t = .symbol .semicolon then
            advance
          else
            advance
            synchronize fuel

/-- One step further if the walk is still where it started, unless that is the
end. -/
def leave (start : Nat) : Walker Unit := do
  let w ← get
  if w.position = start && !w.atEnd then
    advance

/-- What comes behind a statement.  One that failed is given up, and the walk goes
on at the next boundary. -/
def resumed (start fuel : Nat) : Except SyntaxError Stmt -> Walker (Option Stmt)
  | .ok parsed => return some parsed
  | .error e => do
      modify (·.record e)
      synchronize fuel
      leave start
      return none

def recovering (statement : Walker Stmt) (fuel : Nat) : Walker (Option Stmt) := do
  let start := (← get).position
  observed statement (resumed start fuel)

/-!
## Statements
-/

def declaration (fuel : Nat) : Walker Stmt := do
  advance
  let name ← identifier "variable name after 'var'"
  expect .assign "'=' after variable name"
  let value ← expression fuel
  expect .semicolon "';' after variable declaration"
  return .declare name value

def moreParameters : Nat -> List Identifier -> Walker (List Identifier)
  | 0, _ => stopped
  | fuel + 1, read =>
      commaItem (identifier "parameter name") (fun x => moreParameters fuel (x :: read)) read

def giveBack (fuel : Nat) : Walker Stmt := do
  let span := (← get).span
  advance
  let value ←
    if ← isAt (.symbol .semicolon) then
      pure .null
    else
      expression fuel
  expect .semicolon "';' after return value"
  return .giveBack value span

def assignmentOrExpression (fuel : Nat) : Walker Stmt := do
  let start := (← get).span
  let first ← expression fuel
  if ← eat (.symbol .assign) then
    let assigned : Expr -> Stmt ←
      match first with
      | .ident name => pure (.assign name)
      | .field receiver field => pure (.assignField receiver field)
      | _ => throw { span := start, fault := .invalidTarget }
    let value ← expression fuel
    expect .semicolon "';' after assignment"
    return assigned value
  else
    expect .semicolon "';' after expression"
    return .evaluate first

mutual

def statement : Nat -> Walker Stmt
  | 0 => stopped
  | fuel + 1 => do
      match (← get).token? with
      | some (.keyword .varWord) => declaration fuel
      | some (.keyword .fnWord) => function fuel
      | some (.keyword .ifWord) => choice fuel
      | some (.keyword .whileWord) => loop fuel
      | some (.keyword .returnWord) => giveBack fuel
      | some (.symbol .leftBrace) => return .block (← block fuel "to open block")
      | _ => assignmentOrExpression fuel

def statementsFrom : Nat -> List Stmt -> Walker (List Stmt)
  | 0, _ => stopped
  | fuel + 1, read => do
      let w ← get
      if w.isAt (.symbol .rightBrace) || w.atEnd then
        return read.reverse
      else
        let parsed? ← recovering (statement fuel) fuel
        statementsFrom fuel (parsed?.toList ++ read)

def braced : Nat -> String -> Walker (List Stmt)
  | 0, _ => stopped
  | fuel + 1, context => do
      expect .leftBrace ("'\x7b' " ++ context)
      nested "blocks" do
        let body ← statementsFrom fuel []
        expect .rightBrace "'\x7d' to close block"
        return body

def block : Nat -> String -> Walker Block
  | 0, _ => stopped
  | fuel + 1, context => do
      let id ← freshBlock
      let body ← braced fuel context
      return { id := id, statements := body }

def guarded : Nat -> String -> Walker Branch
  | 0, _ => stopped
  | fuel + 1, word => do
      expect .leftParen ("'(' after '" ++ word ++ "'")
      let condition ← expression fuel
      expect .rightParen "')' after condition"
      let body ← block fuel ("after '" ++ word ++ "' condition")
      return { condition := condition, body := body }

def function : Nat -> Walker Stmt
  | 0 => stopped
  | fuel + 1 => do
      advance
      let name ← identifier "function name after 'fn'"
      expect .leftParen "'(' after function name"
      let params ← parenthesized (do
        let first ← identifier "parameter name"
        moreParameters fuel [first]) "')' after parameters"
      if params.length ≤ maxArguments then
        let body ← braced fuel "before function body"
        return .function name params body
      else
        throw { span := name.span, fault := .tooManyParameters name.name params.length }

def alternatives : Nat -> List Branch -> Walker (List Branch × Option Block)
  | 0, _ => stopped
  | fuel + 1, read => do
      if ← eat (.keyword .elseWord) then
        if ← eat (.keyword .ifWord) then
          let branch ← guarded fuel "if"
          alternatives fuel (branch :: read)
        else
          let body ← block fuel "after 'else'"
          return (read.reverse, some body)
      else
        return (read.reverse, none)

def choice : Nat -> Walker Stmt
  | 0 => stopped
  | fuel + 1 => do
      advance
      let first ← guarded fuel "if"
      let (branches, otherwise) ← alternatives fuel [first]
      return .choose branches otherwise

def loop : Nat -> Walker Stmt
  | 0 => stopped
  | fuel + 1 => do
      advance
      let branch ← guarded fuel "while"
      return .loop branch.condition branch.body

end

/-!
## Programs
-/

def topLevelFrom : Nat -> List Stmt -> Walker (List Stmt)
  | 0, _ => stopped
  | fuel + 1, read => do
      let w ← get
      if w.atEnd then
        return read.reverse
      else if w.isAt (.symbol .rightBrace) then
        modify (·.record { span := w.span, fault := .unmatchedBrace })
        advance
        topLevelFrom fuel read
      else
        let parsed? ← recovering (statement fuel) fuel
        topLevelFrom fuel (parsed?.toList ++ read)

def finished (parsed : List Stmt) : Walker (Except (List SyntaxError) Program) := do
  let w ← get
  if w.errors.isEmpty then
    return .ok { statements := parsed }
  else
    set { w with errors := [] }
    return .error w.errors.reverse

def program (fuel : Nat) : Walker (Except (List SyntaxError) Program) := do
  let parsed ← topLevelFrom fuel []
  finished parsed

end Walker
end StackScript
