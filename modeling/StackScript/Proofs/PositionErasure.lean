import StackScript.Proofs.ParserSteps

/-!
# Parsing without positions

Positions are carried along and never looked at.  A parse of tokens whose
positions are all forgotten takes the same steps as one of the tokens
themselves: it reads the same tree, gives out the same numbers and meets the
same errors, again with the positions forgotten.
-/

namespace StackScript

/-!
## Forgetting positions
-/

def Located.unplaced (t : Located) : Located where
  token := t.token
  span := .start

@[simp] theorem Located.token_unplaced (t : Located) : t.unplaced.token = t.token := rfl

def SyntaxError.unplaced (e : SyntaxError) : SyntaxError where
  span := .start
  fault := e.fault

def Identifier.unplaced (name : Identifier) : Identifier where
  id := name.id
  name := name.name
  span := .start

@[simp] theorem Identifier.id_unplaced (name : Identifier) : name.unplaced.id = name.id := rfl

@[simp] theorem Identifier.name_unplaced (name : Identifier) :
    name.unplaced.name = name.name := rfl

mutual

def Expr.unplaced : Expr -> Expr
  | .call callee arguments _ => .call callee.unplaced (unplacedExprs arguments) .start
  | .unary op operand _ => .unary op operand.unplaced .start
  | .binary op left right _ => .binary op left.unplaced right.unplaced .start
  | .string text => .string text
  | .number value => .number value
  | .bool value => .bool value
  | .null => .null
  | .ident name => .ident name.unplaced
  | .field receiver name => .field receiver.unplaced name.unplaced

def unplacedExprs : List Expr -> List Expr
  | [] => []
  | e :: rest => e.unplaced :: unplacedExprs rest

end

mutual

def Stmt.unplaced : Stmt -> Stmt
  | .declare name value => .declare name.unplaced value.unplaced
  | .assign target value => .assign target.unplaced value.unplaced
  | .assignField receiver field value =>
      .assignField receiver.unplaced field.unplaced value.unplaced
  | .function name params body =>
      .function name.unplaced (params.map Identifier.unplaced) (unplacedStmts body)
  | .choose branches none => .choose (unplacedBranches branches) none
  | .choose branches (some otherwise) =>
      .choose (unplacedBranches branches) (some otherwise.unplaced)
  | .loop condition body => .loop condition.unplaced body.unplaced
  | .giveBack value _ => .giveBack value.unplaced .start
  | .evaluate value => .evaluate value.unplaced
  | .block body => .block body.unplaced

def Block.unplaced : Block -> Block
  | { id, statements } => { id := id, statements := unplacedStmts statements }

def unplacedStmts : List Stmt -> List Stmt
  | [] => []
  | s :: rest => s.unplaced :: unplacedStmts rest

def unplacedBranches : List Branch -> List Branch
  | [] => []
  | { condition, body } :: rest =>
      { condition := condition.unplaced, body := body.unplaced } :: unplacedBranches rest

end

def Branch.unplaced (branch : Branch) : Branch where
  condition := branch.condition.unplaced
  body := branch.body.unplaced

def Program.unplaced (program : Program) : Program where
  statements := unplacedStmts program.statements

theorem unplacedExprs_eq_map (es : List Expr) : unplacedExprs es = es.map Expr.unplaced := by
  induction es with
  | nil => rw [unplacedExprs, List.map_nil]
  | cons e rest ih => rw [unplacedExprs, List.map_cons, ih]

theorem unplacedStmts_eq_map (statements : List Stmt) :
    unplacedStmts statements = statements.map Stmt.unplaced := by
  induction statements with
  | nil => rw [unplacedStmts, List.map_nil]
  | cons s rest ih => rw [unplacedStmts, List.map_cons, ih]

theorem unplacedBranches_eq_map (branches : List Branch) :
    unplacedBranches branches = branches.map Branch.unplaced := by
  induction branches with
  | nil => rw [unplacedBranches, List.map_nil]
  | cons first rest ih =>
      rcases first with ⟨condition, body⟩
      rw [unplacedBranches, List.map_cons, ih]
      rfl

theorem Stmt.unplaced_choose (branches : List Branch) (otherwise : Option Block) :
    (Stmt.choose branches otherwise).unplaced =
      .choose (branches.map Branch.unplaced) (otherwise.map Block.unplaced) := by
  cases otherwise with
  | none => rw [Stmt.unplaced, unplacedBranches_eq_map, Option.map_none]
  | some body => rw [Stmt.unplaced, unplacedBranches_eq_map, Option.map_some]

/-!
## States
-/

namespace ParseState

def unplaced (s : ParseState) : ParseState where
  rest := s.rest.map Located.unplaced
  last := .start
  errors := s.errors.map SyntaxError.unplaced
  nextBlock := s.nextBlock
  nextIdent := s.nextIdent

@[simp] theorem rest_unplaced (s : ParseState) :
    s.unplaced.rest = s.rest.map Located.unplaced := rfl

@[simp] theorem errors_unplaced (s : ParseState) :
    s.unplaced.errors = s.errors.map SyntaxError.unplaced := rfl

@[simp] theorem token?_unplaced (s : ParseState) : s.unplaced.token? = s.token? := by
  rcases s with ⟨rest, last, errors, nextBlock, nextIdent⟩
  cases rest <;> rfl

@[simp] theorem span_unplaced (s : ParseState) : s.unplaced.span = .start := by
  rcases s with ⟨rest, last, errors, nextBlock, nextIdent⟩
  cases rest <;> rfl

@[simp] theorem advance_unplaced (s : ParseState) : s.unplaced.advance = s.advance.unplaced := by
  rcases s with ⟨rest, last, errors, nextBlock, nextIdent⟩
  cases rest <;> rfl

@[simp] theorem atEnd_unplaced (s : ParseState) : s.unplaced.atEnd = s.atEnd := by
  rw [atEnd, atEnd, token?_unplaced]

@[simp] theorem isAt_unplaced (s : ParseState) (t : Token) : s.unplaced.isAt t = s.isAt t := by
  rw [isAt, isAt, token?_unplaced]

@[simp] theorem found_unplaced (s : ParseState) : s.unplaced.found = s.found := by
  rw [found, found, token?_unplaced]

theorem record_unplaced (s : ParseState) (e : SyntaxError) :
    s.unplaced.record e.unplaced = (s.record e).unplaced := rfl

end ParseState

/-!
## Steps
-/

namespace Parser

variable {α β : Type} {f : α -> α} {g : β -> β}

def unplacedResult (f : α -> α) :
    EStateM.Result SyntaxError ParseState α -> EStateM.Result SyntaxError ParseState α
  | .ok x s => .ok (f x) s.unplaced
  | .error e s => .error e.unplaced s.unplaced

/-- The second step does without positions what the first does with them.  `f`
forgets the positions in what is read. -/
def Erases (f : α -> α) (step step' : Parser α) : Prop :=
  ∀ s : ParseState, step' s.unplaced = unplacedResult f (step s)

theorem erases_pure {x y : α} (h : f x = y) : Erases f (pure x) (pure y) := by
  intro s
  rw [← h]
  rfl

theorem erases_throw (e : SyntaxError) : Erases f (throw e) (throw e.unplaced) :=
  fun _ => rfl

theorem erases_get : Erases ParseState.unplaced get get :=
  fun _ => rfl

theorem erases_bind {step step' : Parser α} {next next' : α -> Parser β}
    (hstep : Erases f step step') (hnext : ∀ x, Erases g (next x) (next' (f x))) :
    Erases g (step >>= next) (step' >>= next') := by
  intro s
  have hfirst := hstep s
  cases h : step s with
  | ok x s' =>
      rw [h] at hfirst
      rw [bind_of_ok h, bind_of_ok hfirst]
      exact hnext x s'
  | error e s' =>
      rw [h] at hfirst
      rw [bind_of_error h, bind_of_error hfirst]
      rfl

theorem erases_advance : Erases id advance advance := by
  intro s
  show EStateM.Result.ok () s.unplaced.advance = .ok () s.advance.unplaced
  rw [ParseState.advance_unplaced]

theorem erases_fail (fault : Option Token -> SyntaxFault) : Erases f (fail fault) (fail fault) := by
  refine erases_bind erases_get fun s => ?_
  rw [ParseState.span_unplaced, ParseState.found_unplaced]
  exact erases_throw { span := s.span, fault := fault s.found }

theorem erases_isAt (t : Token) : Erases id (isAt t) (isAt t) := by
  refine erases_bind erases_get fun s => ?_
  exact erases_pure (s.isAt_unplaced t).symm

theorem erases_eat (t : Token) : Erases id (eat t) (eat t) := by
  refine erases_bind (erases_isAt t) fun found => ?_
  cases found with
  | true => exact erases_bind erases_advance fun _ => erases_pure rfl
  | false => exact erases_pure rfl

theorem erases_expect (symbol : Symbol) (what : String) :
    Erases id (expect symbol what) (expect symbol what) := by
  refine erases_bind (erases_isAt _) fun found => ?_
  cases found with
  | true => exact erases_advance
  | false => exact erases_fail _

theorem erases_freshBlock : Erases id freshBlock freshBlock :=
  fun _ => rfl

theorem erases_freshIdentifier (name : String) (span : Span) :
    Erases Identifier.unplaced (freshIdentifier name span) (freshIdentifier name .start) :=
  fun _ => rfl

theorem erases_identifier (what : String) :
    Erases Identifier.unplaced (identifier what) (identifier what) := by
  refine erases_bind erases_get fun s => ?_
  rw [ParseState.token?_unplaced, ParseState.span_unplaced]
  split
  · exact erases_bind erases_advance fun _ => erases_freshIdentifier _ _
  · exact erases_fail _

theorem erases_commaItems {item item' : Parser α} (hitem : Erases f item item')
    (rounds : List Located) (read : List α) :
    Erases (List.map f) (commaItems item rounds read)
      (commaItems item' (rounds.map Located.unplaced) (read.map f)) := by
  induction rounds generalizing read with
  | nil => exact erases_pure List.map_reverse
  | cons _ rounds ih =>
      refine erases_bind (erases_eat _) fun found => ?_
      cases found with
      | true => exact erases_bind hitem fun x => ih (x :: read)
      | false => exact erases_pure List.map_reverse

theorem erases_commaSeparated {item item' : Parser α} (hitem : Erases f item item') :
    Erases (List.map f) (commaSeparated item) (commaSeparated item') :=
  erases_bind hitem fun first => erases_bind erases_get fun s =>
    erases_commaItems hitem s.rest [first]

theorem erases_parenthesized {item item' : Parser α} (hitem : Erases f item item')
    (closing : String) :
    Erases (List.map f) (parenthesized item closing) (parenthesized item' closing) := by
  have hclose : ∀ items : List α, Erases (List.map f)
      (expect .rightParen closing >>= fun _ => pure items)
      (expect .rightParen closing >>= fun _ => pure (items.map f)) :=
    fun items => erases_bind (erases_expect _ _) fun _ => erases_pure rfl
  refine erases_bind (erases_isAt _) fun found => ?_
  cases found with
  | true => exact erases_bind (erases_pure rfl) hclose
  | false => exact erases_bind (erases_commaSeparated hitem) hclose

/-!
### Expressions
-/

theorem unplaced_of_literal {t : Option Token} {e : Expr} (h : literal? t = some e) :
    e.unplaced = e := by
  cases t with
  | none => cases h
  | some t =>
      cases t with
      | integer value =>
          cases h
          rfl
      | string text =>
          cases h
          rfl
      | bool value =>
          cases h
          rfl
      | null =>
          cases h
          rfl
      | _ => cases h

mutual

theorem erases_expression : ∀ room : Nat,
    Erases Expr.unplaced (expression room) (expression room)
  | 0 => by
      rw [expression]
      exact erases_fail _
  | room + 1 => by
      rw [expression]
      exact erases_operand precedence room
termination_by room => (room, 0)

theorem erases_operand : ∀ (levels : List Level) (room : Nat),
    Erases Expr.unplaced (operand levels room) (operand levels room)
  | [], room => by
      rw [operand]
      exact erases_unary room
  | level :: tighter, room => by
      rw [operand]
      exact erases_bind (erases_operand tighter room) fun left =>
        erases_chain level tighter room left
termination_by levels room => (room, 4 + levels.length)

theorem erases_chain (level : Level) (tighter : List Level) (room : Nat) (left : Expr) :
    Erases Expr.unplaced (chain level tighter room left)
      (chain level tighter room left.unplaced) := by
  rw [chain, chain]
  refine erases_bind erases_get fun s => ?_
  rw [ParseState.token?_unplaced, ParseState.span_unplaced]
  cases level.operator? s.token? with
  | none => exact erases_pure rfl
  | some op =>
      refine erases_bind erases_advance fun _ => ?_
      cases room with
      | zero => exact erases_fail _
      | succ room =>
          exact erases_bind (erases_operand tighter room) fun right =>
            erases_chain level tighter room (.binary op left right s.span)
termination_by (room, 0)

theorem erases_unary (room : Nat) : Erases Expr.unplaced (unary room) (unary room) := by
  rw [unary]
  refine erases_bind erases_get fun s => ?_
  rw [ParseState.token?_unplaced, ParseState.span_unplaced]
  cases unaryOperator? s.token? with
  | none => exact erases_application room
  | some op =>
      refine erases_bind erases_advance fun _ => ?_
      cases room with
      | zero => exact erases_fail _
      | succ room => exact erases_bind (erases_unary room) fun _ => erases_pure rfl
termination_by (room, 3)

theorem erases_application (room : Nat) :
    Erases Expr.unplaced (application room) (application room) := by
  rw [application]
  exact erases_bind (erases_primary room) fun head => erases_suffixes room head
termination_by (room, 2)

theorem erases_suffixes (room : Nat) (head : Expr) :
    Erases Expr.unplaced (suffixes room head) (suffixes room head.unplaced) := by
  rw [suffixes.eq_def, suffixes.eq_def room head.unplaced]
  refine erases_bind erases_get fun s => ?_
  rw [ParseState.token?_unplaced, ParseState.span_unplaced]
  split
  · cases room with
    | zero => exact erases_fail _
    | succ room =>
        refine erases_bind erases_advance fun _ =>
          erases_bind (erases_arguments room) fun args => ?_
        rw [← unplacedExprs_eq_map]
        exact erases_suffixes room (.call head args s.span)
  · cases room with
    | zero => exact erases_fail _
    | succ room =>
        exact erases_bind erases_advance fun _ => erases_bind (erases_identifier _) fun field =>
          erases_suffixes room (.field head field)
  · exact erases_pure rfl
termination_by (room, 0)

theorem erases_arguments (room : Nat) :
    Erases (List.map Expr.unplaced) (arguments room) (arguments room) := by
  rw [arguments]
  refine erases_bind erases_get fun s => ?_
  refine erases_bind (erases_parenthesized (erases_expression room) _) fun args => ?_
  rw [List.length_map, ParseState.span_unplaced]
  split
  · exact erases_pure rfl
  · exact erases_throw { span := s.span, fault := .tooManyArguments args.length }
termination_by (room, 1)

theorem erases_primary (room : Nat) : Erases Expr.unplaced (primary room) (primary room) := by
  rw [primary]
  refine erases_bind erases_get fun s => ?_
  rw [ParseState.token?_unplaced, ParseState.span_unplaced]
  split
  · exact erases_bind erases_advance fun _ => erases_bind (erases_freshIdentifier _ _) fun _ =>
      erases_pure rfl
  · exact erases_bind erases_advance fun _ => erases_bind (erases_expression room) fun _ =>
      erases_bind (erases_expect _ _) fun _ => erases_pure rfl
  · split
    · next hliteral =>
        exact erases_bind erases_advance fun _ => erases_pure (unplaced_of_literal hliteral)
    · exact erases_fail _
termination_by (room, 1)

end

/-!
### Going on behind an error
-/

theorem skipToBoundary_unplaced (last : Span) (tokens : List Located) :
    skipToBoundary .start (tokens.map Located.unplaced) =
      (.start, (skipToBoundary last tokens).2.map Located.unplaced) := by
  induction tokens generalizing last with
  | nil => rfl
  | cons t rest ih =>
      rw [List.map_cons, skipToBoundary, skipToBoundary, Located.token_unplaced]
      split
      · rfl
      · split
        · rfl
        · exact ih t.span

theorem synchronized_unplaced (s : ParseState) :
    synchronized s.unplaced = (synchronized s).unplaced := by
  have hlast : s.unplaced.last = .start := rfl
  unfold synchronized
  rw [hlast, ParseState.rest_unplaced, skipToBoundary_unplaced s.last]
  rfl

/-- Of two lists, one of which is an end of the other, the lengths alone say
whether they are equal. -/
theorem beq_map_of_suffix {xs ys : List Located} (h : xs <:+ ys) (f : Located -> Located) :
    (xs.map f == ys.map f) = (xs == ys) := by
  rw [Bool.eq_iff_iff, beq_iff_eq, beq_iff_eq]
  constructor
  · intro hmap
    apply h.eq_of_length
    rw [← List.length_map f, hmap, List.length_map]
  · intro heq
    rw [heq]

/-- Whether nothing was consumed does not depend on positions: no token is ever
put back. -/
theorem resumed_unplaced {start s : ParseState} (h : start.Leads s) :
    resumed start.unplaced s.unplaced = (resumed start s).unplaced := by
  have hsuffix := (h.trans (leads_synchronized s)).rest
  unfold resumed
  dsimp only
  rw [synchronized_unplaced, ParseState.rest_unplaced, ParseState.rest_unplaced,
    beq_map_of_suffix hsuffix, ParseState.atEnd_unplaced, ParseState.advance_unplaced]
  split
  · rfl
  · rfl

/-!
### Statements
-/

section Statements

variable {statement statement' : Parser Stmt} {inside inside' : Parser (List Stmt)}

theorem recovering_unplaced (hgrows : Grows statement)
    (hstatement : Erases Stmt.unplaced statement statement') (s : ParseState) :
    recovering statement' s.unplaced =
      ((recovering statement s).1.map Stmt.unplaced, (recovering statement s).2.unplaced) := by
  have hstep := hstatement s
  unfold recovering
  cases h : statement s with
  | ok parsed s' =>
      rw [h] at hstep
      rw [hstep]
      rfl
  | error e s' =>
      rw [h] at hstep
      rw [hstep]
      have hresumed :=
        resumed_unplaced ((hgrows.of_error h).trans (s'.leads_record e))
      rw [← ParseState.record_unplaced] at hresumed
      show (none, resumed s.unplaced (s'.unplaced.record e.unplaced)) = _
      rw [hresumed]
      rfl

theorem statementsIn_unplaced (hgrows : Grows statement)
    (hstatement : Erases Stmt.unplaced statement statement') (rounds : List Located)
    (read : List Stmt) (s : ParseState) :
    statementsIn statement' (rounds.map Located.unplaced) (read.map Stmt.unplaced) s.unplaced =
      ((statementsIn statement rounds read s).1.map Stmt.unplaced,
        (statementsIn statement rounds read s).2.unplaced) := by
  induction rounds generalizing read s with
  | nil => exact Prod.ext List.map_reverse.symm rfl
  | cons _ rounds ih =>
      rw [List.map_cons, statementsIn, statementsIn, ParseState.isAt_unplaced,
        ParseState.atEnd_unplaced, recovering_unplaced hgrows hstatement]
      split
      · exact Prod.ext List.map_reverse.symm rfl
      · cases recovering statement s with
        | mk parsed? s' =>
            cases parsed? with
            | some parsed => exact ih (parsed :: read) s'
            | none => exact ih read s'

theorem erases_statements (hgrows : Grows statement)
    (hstatement : Erases Stmt.unplaced statement statement') :
    Erases (List.map Stmt.unplaced) (statements statement) (statements statement') := by
  intro s
  have hall := statementsIn_unplaced hgrows hstatement s.rest [] s
  rw [List.map_nil] at hall
  unfold statements
  rw [ParseState.rest_unplaced, hall]
  rfl

theorem erases_braced (hinside : Erases (List.map Stmt.unplaced) inside inside')
    (context : String) :
    Erases (List.map Stmt.unplaced) (braced inside context) (braced inside' context) :=
  erases_bind (erases_expect _ _) fun _ => erases_bind hinside fun _ =>
    erases_bind (erases_expect _ _) fun _ => erases_pure rfl

theorem erases_block (hinside : Erases (List.map Stmt.unplaced) inside inside')
    (context : String) :
    Erases Block.unplaced (block inside context) (block inside' context) := by
  refine erases_bind erases_freshBlock fun id =>
    erases_bind (erases_braced hinside context) fun body => erases_pure ?_
  rw [Block.unplaced, unplacedStmts_eq_map]
  rfl

theorem erases_guarded (room : Nat) (hinside : Erases (List.map Stmt.unplaced) inside inside')
    (word : String) :
    Erases Branch.unplaced (guarded room inside word) (guarded room inside' word) :=
  erases_bind (erases_expect _ _) fun _ => erases_bind (erases_expression room) fun _ =>
    erases_bind (erases_expect _ _) fun _ => erases_bind (erases_block hinside _) fun _ =>
      erases_pure rfl

theorem erases_declaration (room : Nat) :
    Erases Stmt.unplaced (declaration room) (declaration room) :=
  erases_bind erases_advance fun _ => erases_bind (erases_identifier _) fun _ =>
    erases_bind (erases_expect _ _) fun _ => erases_bind (erases_expression room) fun _ =>
      erases_bind (erases_expect _ _) fun _ => erases_pure rfl

theorem erases_function (hinside : Erases (List.map Stmt.unplaced) inside inside') :
    Erases Stmt.unplaced (function inside) (function inside') := by
  refine erases_bind erases_advance fun _ => erases_bind (erases_identifier _) fun name =>
    erases_bind (erases_expect _ _) fun _ =>
      erases_bind (erases_parenthesized (erases_identifier _) _) fun params => ?_
  rw [List.length_map]
  split
  · refine erases_bind (erases_braced hinside _) fun body => erases_pure ?_
    rw [Stmt.unplaced, unplacedStmts_eq_map]
  · exact erases_throw
      { span := name.span, fault := .tooManyParameters name.name params.length }

theorem erases_alternatives (room : Nat)
    (hinside : Erases (List.map Stmt.unplaced) inside inside') (rounds : List Located)
    (read : List Branch) :
    Erases (Prod.map (List.map Branch.unplaced) (Option.map Block.unplaced))
      (alternatives room inside rounds read)
      (alternatives room inside' (rounds.map Located.unplaced) (read.map Branch.unplaced)) := by
  induction rounds generalizing read with
  | nil => exact erases_pure (Prod.ext List.map_reverse rfl)
  | cons _ rounds ih =>
      refine erases_bind (erases_eat _) fun found => ?_
      cases found with
      | false => exact erases_pure (Prod.ext List.map_reverse rfl)
      | true =>
          refine erases_bind (erases_eat _) fun found => ?_
          cases found with
          | true =>
              exact erases_bind (erases_guarded room hinside _) fun branch => ih (branch :: read)
          | false =>
              exact erases_bind (erases_block hinside _) fun _ =>
                erases_pure (Prod.ext List.map_reverse rfl)

theorem erases_choice (room : Nat) (hinside : Erases (List.map Stmt.unplaced) inside inside') :
    Erases Stmt.unplaced (choice room inside) (choice room inside') :=
  erases_bind erases_advance fun _ => erases_bind (erases_guarded room hinside _) fun first =>
    erases_bind erases_get fun s =>
      erases_bind (erases_alternatives room hinside s.rest [first]) fun found =>
        erases_pure (Stmt.unplaced_choose found.1 found.2)

theorem erases_loop (room : Nat) (hinside : Erases (List.map Stmt.unplaced) inside inside') :
    Erases Stmt.unplaced (loop room inside) (loop room inside') :=
  erases_bind erases_advance fun _ => erases_bind (erases_guarded room hinside _) fun _ =>
    erases_pure rfl

theorem erases_giveBack (room : Nat) : Erases Stmt.unplaced (giveBack room) (giveBack room) := by
  have hclose : ∀ (span : Span) (value : Expr), Erases Stmt.unplaced
      (expect .semicolon "';' after return value" >>= fun _ => pure (.giveBack value span))
      (expect .semicolon "';' after return value" >>= fun _ =>
        pure (.giveBack value.unplaced .start)) :=
    fun _ _ => erases_bind (erases_expect _ _) fun _ => erases_pure rfl
  refine erases_bind erases_get fun s => ?_
  rw [ParseState.span_unplaced]
  refine erases_bind erases_advance fun _ => erases_bind (erases_isAt _) fun found => ?_
  cases found with
  | true => exact erases_bind (erases_pure rfl) (hclose s.span)
  | false => exact erases_bind (erases_expression room) (hclose s.span)

theorem erases_assignmentOrExpression (room : Nat) :
    Erases Stmt.unplaced (assignmentOrExpression room) (assignmentOrExpression room) := by
  have hvalue : ∀ assigned assigned' : Expr -> Stmt,
      (∀ value, (assigned value).unplaced = assigned' value.unplaced) ->
      Erases Stmt.unplaced
        (expression room >>= fun value => expect .semicolon "';' after assignment" >>= fun _ =>
          pure (assigned value))
        (expression room >>= fun value => expect .semicolon "';' after assignment" >>= fun _ =>
          pure (assigned' value)) :=
    fun _ _ h => erases_bind (erases_expression room) fun value =>
      erases_bind (erases_expect _ _) fun _ => erases_pure (h value)
  refine erases_bind erases_get fun s => ?_
  rw [ParseState.span_unplaced]
  refine erases_bind (erases_expression room) fun first =>
    erases_bind (erases_eat _) fun found => ?_
  cases found with
  | true =>
      cases first with
      | ident name => exact hvalue (.assign name) (.assign name.unplaced) fun _ => rfl
      | field receiver field =>
          exact hvalue (.assignField receiver field)
            (.assignField receiver.unplaced field.unplaced) fun _ => rfl
      | _ => exact erases_throw { span := s.span, fault := .invalidTarget }
  | false => exact erases_bind (erases_expect _ _) fun _ => erases_pure rfl

theorem erases_statementForm (room : Nat)
    (hinside : Erases (List.map Stmt.unplaced) inside inside') :
    Erases Stmt.unplaced (statementForm room inside) (statementForm room inside') := by
  refine erases_bind erases_get fun s => ?_
  rw [ParseState.token?_unplaced]
  split
  · exact erases_declaration room
  · exact erases_function hinside
  · exact erases_choice room hinside
  · exact erases_loop room hinside
  · exact erases_giveBack room
  · exact erases_bind (erases_block hinside _) fun _ => erases_pure rfl
  · exact erases_assignmentOrExpression room

end Statements

theorem erases_statement (room : Nat) :
    Erases Stmt.unplaced (statement room) (statement room) := by
  induction room with
  | zero => exact erases_statementForm 0 (erases_fail _)
  | succ room ih =>
      exact erases_statementForm (room + 1) (erases_statements (grows_statement room) ih)

/-!
## Programs
-/

theorem topLevelIn_unplaced (rounds : List Located) (read : List Stmt) (s : ParseState) :
    topLevelIn (rounds.map Located.unplaced) (read.map Stmt.unplaced) s.unplaced =
      ((topLevelIn rounds read s).1.map Stmt.unplaced,
        (topLevelIn rounds read s).2.unplaced) := by
  induction rounds generalizing read s with
  | nil => exact Prod.ext List.map_reverse.symm rfl
  | cons _ rounds ih =>
      rw [List.map_cons, topLevelIn, topLevelIn, ParseState.atEnd_unplaced,
        ParseState.isAt_unplaced, ParseState.span_unplaced,
        recovering_unplaced (grows_statement maxNesting) (erases_statement maxNesting)]
      split
      · exact Prod.ext List.map_reverse.symm rfl
      · split
        · rw [← ih read, ← ParseState.advance_unplaced]
          rfl
        · cases recovering (statement maxNesting) s with
          | mk parsed? s' =>
              cases parsed? with
              | some parsed => exact ih (parsed :: read) s'
              | none => exact ih read s'

theorem program_unplaced (s : ParseState) :
    (program s.unplaced).1 =
      ((program s).1.map Program.unplaced).mapError (List.map SyntaxError.unplaced) := by
  have htop := topLevelIn_unplaced s.rest [] s
  rw [List.map_nil] at htop
  unfold program
  dsimp only
  rw [ParseState.rest_unplaced, htop]
  cases topLevelIn s.rest [] s with
  | mk parsed s' =>
      dsimp only
      rw [ParseState.errors_unplaced, List.isEmpty_map]
      split
      · rw [← unplacedStmts_eq_map]
        rfl
      · rw [← List.map_reverse]
        rfl

end Parser
end StackScript
