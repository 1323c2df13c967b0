import StackScript.Program.Parser.Statement
import StackScript.Proofs.Outcomes

/-!
# Steps of a parse

What the smallest steps of a parse do to its state, and what no step ever
undoes: the errors recorded so far are kept, and no token is put back.
-/

namespace StackScript

/-!
## States
-/

namespace ParseState

variable {s s' s'' : ParseState} {t : Token} {ts : List Token}

def tokens (s : ParseState) : List Token :=
  s.rest.map (·.token)

theorem token?_eq (s : ParseState) : s.token? = s.tokens.head? := by
  simp [token?, tokens]

theorem token?_of_tokens (h : s.tokens = t :: ts) : s.token? = some t := by
  rw [token?_eq, h]
  rfl

theorem tokens_of_token? (h : s.token? = some t) : s.tokens = t :: s.advance.tokens := by
  rcases s with ⟨rest, last, errors, nextBlock, nextIdent⟩
  cases rest with
  | nil => cases h
  | cons first others =>
      cases h
      rfl

theorem tokens_advance (h : s.tokens = t :: ts) : s.advance.tokens = ts := by
  rw [tokens_of_token? (token?_of_tokens h)] at h
  exact (List.cons.inj h).2

theorem isAt_iff : s.isAt t = true ↔ s.token? = some t := by
  simp [isAt]

theorem isAt_of_tokens (h : s.tokens = t :: ts) (other : Token) :
    s.isAt other = decide (t = other) := by
  rw [isAt, token?_of_tokens h]
  simp

@[simp] theorem errors_advance (s : ParseState) : s.advance.errors = s.errors := by
  unfold advance
  cases s.rest <;> rfl

theorem rest_advance_suffix (s : ParseState) : s.advance.rest <:+ s.rest := by
  rcases s with ⟨rest, last, errors, nextBlock, nextIdent⟩
  cases rest with
  | nil => exact List.suffix_rfl
  | cons t rest => exact List.suffix_cons t rest

structure Leads (s s' : ParseState) : Prop where
  errors : s.errors <:+ s'.errors
  rest : s'.rest <:+ s.rest

theorem Leads.refl (s : ParseState) : s.Leads s where
  errors := List.suffix_rfl
  rest := List.suffix_rfl

theorem Leads.trans (h : s.Leads s') (h' : s'.Leads s'') : s.Leads s'' where
  errors := h.errors.trans h'.errors
  rest := h'.rest.trans h.rest

theorem Leads.of_eq (herrors : s'.errors = s.errors) (hrest : s'.rest <:+ s.rest) :
    s.Leads s' where
  errors := herrors ▸ List.suffix_rfl
  rest := hrest

theorem Leads.errors_eq_nil (h : s.Leads s') (herrors : s'.errors = []) : s.errors = [] := by
  have hsuffix := h.errors
  rw [herrors] at hsuffix
  exact List.suffix_nil.mp hsuffix

theorem leads_advance (s : ParseState) : s.Leads s.advance :=
  .of_eq s.errors_advance s.rest_advance_suffix

theorem leads_record (s : ParseState) (e : SyntaxError) : s.Leads (s.record e) where
  errors := List.suffix_cons e s.errors
  rest := List.suffix_rfl

end ParseState

/-!
## Steps
-/

namespace Parser

variable {α β : Type}

theorem bind_eq_ok_iff {step : Parser α} {next : α -> Parser β} {s s'' : ParseState} {y : β} :
    (step >>= next) s = .ok y s'' ↔ ∃ x s', step s = .ok x s' ∧ next x s' = .ok y s'' :=
  stateBind_eq_ok_iff

theorem bind_of_ok {step : Parser α} {next : α -> Parser β} {s s' : ParseState} {x : α}
    (h : step s = .ok x s') : (step >>= next) s = next x s' := by
  show EStateM.bind step next s = _
  rw [EStateM.bind, h]

theorem bind_of_error {step : Parser α} {next : α -> Parser β} {s s' : ParseState}
    {e : SyntaxError} (h : step s = .error e s') : (step >>= next) s = .error e s' := by
  show EStateM.bind step next s = _
  rw [EStateM.bind, h]

theorem get_bind (next : ParseState -> Parser α) (s : ParseState) :
    (get >>= next) s = next s s := rfl

theorem advance_bind (next : Unit -> Parser α) (s : ParseState) :
    (advance >>= next) s = next () s.advance := rfl

theorem isAt_bind (t : Token) (next : Bool -> Parser α) (s : ParseState) :
    (isAt t >>= next) s = next (s.isAt t) s := rfl

theorem freshBlock_bind (next : BlockId -> Parser α) (s : ParseState) :
    (freshBlock >>= next) s = next s.nextBlock { s with nextBlock := s.nextBlock + 1 } := rfl

theorem eat_eq_ok {t : Token} {s s' : ParseState} {eaten : Bool} (h : eat t s = .ok eaten s') :
    eaten = true ∧ s.tokens = t :: s'.tokens ∧ s' = s.advance ∨
      eaten = false ∧ s' = s ∧ s.isAt t = false := by
  rw [eat, isAt_bind] at h
  cases hat : s.isAt t with
  | true =>
      rw [hat] at h
      cases h
      exact Or.inl ⟨rfl, ParseState.tokens_of_token? (ParseState.isAt_iff.mp hat), rfl⟩
  | false =>
      rw [hat] at h
      cases h
      exact Or.inr ⟨rfl, rfl, rfl⟩

theorem expect_eq_ok {symbol : Symbol} {what : String} {s s' : ParseState} {u : Unit}
    (h : expect symbol what s = .ok u s') :
    s.tokens = .symbol symbol :: s'.tokens ∧ s' = s.advance := by
  rw [expect, isAt_bind] at h
  cases hat : s.isAt (.symbol symbol) with
  | true =>
      rw [hat] at h
      cases h
      exact ⟨ParseState.tokens_of_token? (ParseState.isAt_iff.mp hat), rfl⟩
  | false =>
      rw [hat] at h
      cases h

theorem expect_of_tokens {symbol : Symbol} {s : ParseState} {ts : List Token}
    (h : s.tokens = .symbol symbol :: ts) (what : String) :
    expect symbol what s = .ok () s.advance := by
  rw [expect, isAt_bind, ParseState.isAt_of_tokens h]
  simp only [decide_true]
  rfl

theorem eat_of_tokens {t : Token} {s : ParseState} {ts : List Token} (h : s.tokens = t :: ts) :
    eat t s = .ok true s.advance := by
  rw [eat, isAt_bind, ParseState.isAt_of_tokens h]
  simp only [decide_true]
  rfl

theorem eat_of_not_isAt {t : Token} {s : ParseState} (h : s.isAt t = false) :
    eat t s = .ok false s := by
  rw [eat, isAt_bind, h]
  rfl

theorem identifier_eq_ok {what : String} {s s' : ParseState} {x : Identifier}
    (h : identifier what s = .ok x s') :
    s.tokens = .ident x.name :: s'.tokens ∧ s'.errors = s.errors := by
  rw [identifier, get_bind] at h
  cases htoken : s.token? with
  | none =>
      rw [htoken] at h
      cases h
  | some t =>
      rw [htoken] at h
      cases t with
      | ident name =>
          cases h
          exact ⟨ParseState.tokens_of_token? htoken, s.errors_advance⟩
      | _ => cases h

theorem identifier_of_tokens {s : ParseState} {name : String} {ts : List Token}
    (h : s.tokens = .ident name :: ts) (what : String) :
    ∃ x s', identifier what s = .ok x s' ∧ x.name = name ∧ s'.tokens = ts ∧
      s'.errors = s.errors := by
  rw [identifier, get_bind, ParseState.token?_of_tokens h]
  exact ⟨_, _, rfl, rfl, ParseState.tokens_advance h, s.errors_advance⟩

/-!
## Steps by the next token
-/

section NextToken

variable {level : Level} {tighter : List Level} {room : Nat} {head left : Expr} {s : ParseState}

theorem chain_of_none (h : level.operator? s.token? = none) :
    chain level tighter room left s = .ok left s := by
  rw [chain, get_bind, h]
  rfl

theorem chain_of_some {op : BinaryOp} (h : level.operator? s.token? = some op) :
    chain level tighter (room + 1) left s =
      (operand tighter room >>= fun right =>
        chain level tighter room (.binary op left right s.span)) s.advance := by
  rw [chain, get_bind, h]
  rfl

theorem chain_zero {op : BinaryOp} (h : level.operator? s.token? = some op) :
    chain level tighter 0 left s = failTooDeep "expression" s.advance := by
  rw [chain, get_bind, h]
  rfl

theorem unary_of_none (h : unaryOperator? s.token? = none) :
    unary room s = application room s := by
  rw [unary, get_bind, h]

theorem unary_of_some {op : UnaryOp} (h : unaryOperator? s.token? = some op) :
    unary (room + 1) s =
      (unary room >>= fun inner => pure (.unary op inner s.span)) s.advance := by
  rw [unary, get_bind, h]
  rfl

theorem unary_zero {op : UnaryOp} (h : unaryOperator? s.token? = some op) :
    unary 0 s = failTooDeep "expression" s.advance := by
  rw [unary, get_bind, h]
  rfl

theorem suffixes_of_call (h : s.token? = some (.symbol .leftParen)) :
    suffixes (room + 1) head s =
      (arguments room >>= fun args => suffixes room (.call head args s.span)) s.advance := by
  rw [suffixes.eq_def, get_bind, h]
  rfl

theorem suffixes_of_field (h : s.token? = some (.symbol .dot)) :
    suffixes (room + 1) head s =
      (identifier "field name after '.'" >>= fun field =>
        suffixes room (.field head field)) s.advance := by
  rw [suffixes.eq_def, get_bind, h]
  rfl

theorem suffixes_zero (h : s.token? = some (.symbol .leftParen) ∨ s.token? = some (.symbol .dot)) :
    suffixes 0 head s = failTooDeep "expression" s := by
  rw [suffixes.eq_def, get_bind]
  rcases h with h | h
  · rw [h]
  · rw [h]

theorem suffixes_of_other (hcall : s.token? ≠ some (.symbol .leftParen))
    (hfield : s.token? ≠ some (.symbol .dot)) : suffixes room head s = .ok head s := by
  rw [suffixes.eq_def, get_bind]
  cases htoken : s.token? with
  | none => rfl
  | some t =>
      rw [htoken] at hcall hfield
      cases t with
      | symbol symbol =>
          cases symbol with
          | leftParen => exact absurd rfl hcall
          | dot => exact absurd rfl hfield
          | _ => rfl
      | _ => rfl

theorem primary_of_ident {name : String} (h : s.token? = some (.ident name)) :
    primary room s =
      (freshIdentifier name s.span >>= fun x => pure (.ident x)) s.advance := by
  rw [primary, get_bind, h]
  rfl

theorem primary_of_leftParen (h : s.token? = some (.symbol .leftParen)) :
    primary room s =
      (expression room >>= fun inner =>
        expect .rightParen "')' after expression" >>= fun _ => pure inner) s.advance := by
  rw [primary, get_bind, h]
  rfl

theorem primary_of_literal {e : Expr} (h : literal? s.token? = some e) :
    primary room s = .ok e s.advance := by
  rw [primary, get_bind]
  cases htoken : s.token? with
  | none =>
      rw [htoken] at h
      cases h
  | some t =>
      rw [htoken] at h
      cases t with
      | integer value =>
          cases h
          rfl
      | string text =>
          cases h
          rfl
      | bool value =>
          cases h
          rfl
      | null =>
          cases h
          rfl
      | _ => cases h

theorem primary_of_other (hident : ∀ name, s.token? ≠ some (.ident name))
    (hparen : s.token? ≠ some (.symbol .leftParen)) (hliteral : literal? s.token? = none) :
    primary room s = failExpected "expression" s := by
  rw [primary, get_bind]
  cases htoken : s.token? with
  | none => rfl
  | some t =>
      rw [htoken] at hident hparen hliteral
      cases t with
      | ident name => exact absurd rfl (hident name)
      | symbol symbol =>
          cases symbol with
          | leftParen => exact absurd rfl hparen
          | _ => rfl
      | integer value => cases hliteral
      | string text => cases hliteral
      | bool value => cases hliteral
      | null => cases hliteral
      | _ => rfl

end NextToken

/-!
## What is never undone
-/

def finalState : EStateM.Result SyntaxError ParseState α -> ParseState
  | .ok _ s => s
  | .error _ s => s

def Grows (step : Parser α) : Prop :=
  ∀ s : ParseState, s.Leads (finalState (step s))

theorem Grows.of_ok {step : Parser α} (hstep : Grows step) {s s' : ParseState} {x : α}
    (h : step s = .ok x s') : s.Leads s' := by
  have hleads := hstep s
  rw [h] at hleads
  exact hleads

theorem Grows.of_error {step : Parser α} (hstep : Grows step) {s s' : ParseState}
    {e : SyntaxError} (h : step s = .error e s') : s.Leads s' := by
  have hleads := hstep s
  rw [h] at hleads
  exact hleads

theorem grows_pure (x : α) : Grows (pure x) :=
  fun s => .refl s

theorem grows_throw (e : SyntaxError) : Grows (throw e : Parser α) :=
  fun s => .refl s

theorem grows_get : Grows get :=
  fun s => .refl s

theorem grows_advance : Grows advance :=
  ParseState.leads_advance

theorem grows_bind {step : Parser α} {next : α -> Parser β} (hstep : Grows step)
    (hnext : ∀ x, Grows (next x)) : Grows (step >>= next) := by
  intro s
  cases h : step s with
  | ok x s' =>
      rw [bind_of_ok h]
      exact (hstep.of_ok h).trans (hnext x s')
  | error e s' =>
      rw [bind_of_error h]
      exact hstep.of_error h

theorem grows_fail (fault : Option Token -> SyntaxFault) : Grows (fail fault : Parser α) :=
  fun s => .refl s

theorem grows_isAt (t : Token) : Grows (isAt t) :=
  fun s => .refl s

theorem grows_eat (t : Token) : Grows (eat t) := by
  refine grows_bind (grows_isAt t) fun found => ?_
  cases found with
  | true => exact grows_bind grows_advance fun _ => grows_pure _
  | false => exact grows_pure _

theorem grows_expect (symbol : Symbol) (what : String) : Grows (expect symbol what) := by
  refine grows_bind (grows_isAt _) fun found => ?_
  cases found with
  | true => exact grows_advance
  | false => exact grows_fail _

theorem grows_freshBlock : Grows freshBlock :=
  fun _ => .of_eq rfl List.suffix_rfl

theorem grows_freshIdentifier (name : String) (span : Span) :
    Grows (freshIdentifier name span) :=
  fun _ => .of_eq rfl List.suffix_rfl

theorem grows_identifier (what : String) : Grows (identifier what) := by
  refine grows_bind grows_get fun s => ?_
  split
  · exact grows_bind grows_advance fun _ => grows_freshIdentifier _ _
  · exact grows_fail _

theorem grows_commaItems {item : Parser α} (hitem : Grows item) (rounds : List Located)
    (read : List α) : Grows (commaItems item rounds read) := by
  induction rounds generalizing read with
  | nil => exact grows_pure _
  | cons _ rounds ih =>
      refine grows_bind (grows_eat _) fun found => ?_
      cases found with
      | true => exact grows_bind hitem fun x => ih (x :: read)
      | false => exact grows_pure _

theorem grows_commaSeparated {item : Parser α} (hitem : Grows item) :
    Grows (commaSeparated item) :=
  grows_bind hitem fun first => grows_bind grows_get fun s =>
    grows_commaItems hitem s.rest [first]

theorem grows_parenthesized {item : Parser α} (hitem : Grows item) (closing : String) :
    Grows (parenthesized item closing) := by
  have hclose : ∀ items : List α, Grows (expect .rightParen closing >>= fun _ => pure items) :=
    fun items => grows_bind (grows_expect _ _) fun _ => grows_pure items
  refine grows_bind (grows_isAt _) fun found => ?_
  cases found with
  | true => exact grows_bind (grows_pure _) hclose
  | false => exact grows_bind (grows_commaSeparated hitem) hclose

/-!
### Expressions
-/

mutual

theorem grows_expression : ∀ room : Nat, Grows (expression room)
  | 0 => by
      rw [expression]
      exact grows_fail _
  | room + 1 => by
      rw [expression]
      exact grows_operand precedence room
termination_by room => (room, 0)

theorem grows_operand : ∀ (levels : List Level) (room : Nat), Grows (operand levels room)
  | [], room => by
      rw [operand]
      exact grows_unary room
  | level :: tighter, room => by
      rw [operand]
      exact grows_bind (grows_operand tighter room) fun left =>
        grows_chain level tighter room left
termination_by levels room => (room, 4 + levels.length)

theorem grows_chain (level : Level) (tighter : List Level) (room : Nat) (left : Expr) :
    Grows (chain level tighter room left) := by
  rw [chain]
  refine grows_bind grows_get fun s => ?_
  cases level.operator? s.token? with
  | none => exact grows_pure _
  | some op =>
      refine grows_bind grows_advance fun _ => ?_
      cases room with
      | zero => exact grows_fail _
      | succ room =>
          exact grows_bind (grows_operand tighter room) fun right =>
            grows_chain level tighter room _
termination_by (room, 0)

theorem grows_unary (room : Nat) : Grows (unary room) := by
  rw [unary]
  refine grows_bind grows_get fun s => ?_
  cases unaryOperator? s.token? with
  | none => exact grows_application room
  | some op =>
      refine grows_bind grows_advance fun _ => ?_
      cases room with
      | zero => exact grows_fail _
      | succ room => exact grows_bind (grows_unary room) fun _ => grows_pure _
termination_by (room, 3)

theorem grows_application (room : Nat) : Grows (application room) := by
  rw [application]
  exact grows_bind (grows_primary room) fun head => grows_suffixes room head
termination_by (room, 2)

theorem grows_suffixes (room : Nat) (head : Expr) : Grows (suffixes room head) := by
  rw [suffixes.eq_def]
  refine grows_bind grows_get fun s => ?_
  split
  · cases room with
    | zero => exact grows_fail _
    | succ room =>
        exact grows_bind grows_advance fun _ => grows_bind (grows_arguments room) fun args =>
          grows_suffixes room _
  · cases room with
    | zero => exact grows_fail _
    | succ room =>
        exact grows_bind grows_advance fun _ => grows_bind (grows_identifier _) fun field =>
          grows_suffixes room _
  · exact grows_pure _
termination_by (room, 0)

theorem grows_arguments (room : Nat) : Grows (arguments room) := by
  rw [arguments]
  refine grows_bind grows_get fun s => ?_
  refine grows_bind (grows_parenthesized (grows_expression room) _) fun args => ?_
  split
  · exact grows_pure _
  · exact grows_throw _
termination_by (room, 1)

theorem grows_primary (room : Nat) : Grows (primary room) := by
  rw [primary]
  refine grows_bind grows_get fun s => ?_
  split
  · exact grows_bind grows_advance fun _ => grows_bind (grows_freshIdentifier _ _) fun _ =>
      grows_pure _
  · exact grows_bind grows_advance fun _ => grows_bind (grows_expression room) fun _ =>
      grows_bind (grows_expect _ _) fun _ => grows_pure _
  · split
    · exact grows_bind grows_advance fun _ => grows_pure _
    · exact grows_fail _
termination_by (room, 1)

end

/-!
### Statements
-/

section Statements

variable {inside : Parser (List Stmt)} {statement : Parser Stmt}

theorem skipToBoundary_suffix (last : Span) (tokens : List Located) :
    (skipToBoundary last tokens).2 <:+ tokens := by
  induction tokens generalizing last with
  | nil => exact List.suffix_rfl
  | cons t rest ih =>
      rw [skipToBoundary]
      split
      · exact List.suffix_rfl
      · split
        · exact List.suffix_cons t rest
        · exact (ih t.span).trans (List.suffix_cons t rest)

theorem leads_synchronized (s : ParseState) : s.Leads (synchronized s) :=
  .of_eq rfl (skipToBoundary_suffix s.last s.rest)

theorem leads_resumed {start s s' : ParseState} (h : s.Leads s') :
    s.Leads (resumed start s') := by
  have hsynchronized := leads_synchronized s'
  unfold resumed
  dsimp only
  split
  · exact (h.trans hsynchronized).trans (ParseState.leads_advance _)
  · exact h.trans hsynchronized

theorem leads_recovering (hstatement : Grows statement) (s : ParseState) :
    s.Leads (recovering statement s).2 := by
  unfold recovering
  cases h : statement s with
  | ok parsed s' => exact hstatement.of_ok h
  | error e s' =>
      exact leads_resumed ((hstatement.of_error h).trans (s'.leads_record e))

theorem leads_statementsIn (hstatement : Grows statement) (rounds : List Located)
    (read : List Stmt) (s : ParseState) : s.Leads (statementsIn statement rounds read s).2 := by
  induction rounds generalizing read s with
  | nil => exact .refl s
  | cons _ rounds ih =>
      rw [statementsIn]
      split
      · exact .refl s
      · have hleads := leads_recovering hstatement s
        cases h : recovering statement s with
        | mk parsed? s' =>
            rw [h] at hleads
            cases parsed? with
            | some parsed => exact hleads.trans (ih _ s')
            | none => exact hleads.trans (ih _ s')

theorem grows_statements (hstatement : Grows statement) : Grows (statements statement) :=
  fun s => leads_statementsIn hstatement s.rest [] s

theorem grows_braced (hinside : Grows inside) (context : String) :
    Grows (braced inside context) :=
  grows_bind (grows_expect _ _) fun _ => grows_bind hinside fun _ =>
    grows_bind (grows_expect _ _) fun _ => grows_pure _

theorem grows_block (hinside : Grows inside) (context : String) : Grows (block inside context) :=
  grows_bind grows_freshBlock fun _ => grows_bind (grows_braced hinside context) fun _ =>
    grows_pure _

theorem grows_guarded (room : Nat) (hinside : Grows inside) (word : String) :
    Grows (guarded room inside word) :=
  grows_bind (grows_expect _ _) fun _ => grows_bind (grows_expression room) fun _ =>
    grows_bind (grows_expect _ _) fun _ => grows_bind (grows_block hinside _) fun _ =>
      grows_pure _

theorem grows_declaration (room : Nat) : Grows (declaration room) :=
  grows_bind grows_advance fun _ => grows_bind (grows_identifier _) fun _ =>
    grows_bind (grows_expect _ _) fun _ => grows_bind (grows_expression room) fun _ =>
      grows_bind (grows_expect _ _) fun _ => grows_pure _

theorem grows_function (hinside : Grows inside) : Grows (function inside) := by
  refine grows_bind grows_advance fun _ => grows_bind (grows_identifier _) fun name =>
    grows_bind (grows_expect _ _) fun _ =>
      grows_bind (grows_parenthesized (grows_identifier _) _) fun params => ?_
  split
  · exact grows_bind (grows_braced hinside _) fun _ => grows_pure _
  · exact grows_throw _

theorem grows_alternatives (room : Nat) (hinside : Grows inside) (rounds : List Located)
    (read : List Branch) : Grows (alternatives room inside rounds read) := by
  induction rounds generalizing read with
  | nil => exact grows_pure _
  | cons _ rounds ih =>
      refine grows_bind (grows_eat _) fun found => ?_
      cases found with
      | false => exact grows_pure _
      | true =>
          refine grows_bind (grows_eat _) fun found => ?_
          cases found with
          | true => exact grows_bind (grows_guarded room hinside _) fun branch => ih _
          | false => exact grows_bind (grows_block hinside _) fun _ => grows_pure _

theorem grows_choice (room : Nat) (hinside : Grows inside) : Grows (choice room inside) :=
  grows_bind grows_advance fun _ => grows_bind (grows_guarded room hinside _) fun first =>
    grows_bind grows_get fun s => grows_bind (grows_alternatives room hinside s.rest [first])
      fun _ => grows_pure _

theorem grows_loop (room : Nat) (hinside : Grows inside) : Grows (loop room inside) :=
  grows_bind grows_advance fun _ => grows_bind (grows_guarded room hinside _) fun _ =>
    grows_pure _

theorem grows_giveBack (room : Nat) : Grows (giveBack room) := by
  have hclose : ∀ (span : Span) (value : Expr),
      Grows (expect .semicolon "';' after return value" >>= fun _ =>
        pure (Stmt.giveBack value span)) :=
    fun _ _ => grows_bind (grows_expect _ _) fun _ => grows_pure _
  refine grows_bind grows_get fun s => grows_bind grows_advance fun _ =>
    grows_bind (grows_isAt _) fun found => ?_
  cases found with
  | true => exact grows_bind (grows_pure _) (hclose _)
  | false => exact grows_bind (grows_expression room) (hclose _)

theorem grows_assignmentOrExpression (room : Nat) : Grows (assignmentOrExpression room) := by
  have hvalue : ∀ assigned : Expr -> Stmt, Grows (expression room >>= fun value =>
      expect .semicolon "';' after assignment" >>= fun _ => pure (assigned value)) :=
    fun _ => grows_bind (grows_expression room) fun _ => grows_bind (grows_expect _ _) fun _ =>
      grows_pure _
  refine grows_bind grows_get fun s => grows_bind (grows_expression room) fun first =>
    grows_bind (grows_eat _) fun found => ?_
  cases found with
  | true =>
      cases first with
      | ident name => exact grows_bind (grows_pure _) hvalue
      | field receiver field => exact grows_bind (grows_pure _) hvalue
      | _ => exact grows_bind (grows_throw _) hvalue
  | false => exact grows_bind (grows_expect _ _) fun _ => grows_pure _

theorem grows_statementForm (room : Nat) (hinside : Grows inside) :
    Grows (statementForm room inside) := by
  refine grows_bind grows_get fun s => ?_
  split
  · exact grows_declaration room
  · exact grows_function hinside
  · exact grows_choice room hinside
  · exact grows_loop room hinside
  · exact grows_giveBack room
  · exact grows_bind (grows_block hinside _) fun _ => grows_pure _
  · exact grows_assignmentOrExpression room

end Statements

theorem grows_statement (room : Nat) : Grows (statement room) := by
  induction room with
  | zero => exact grows_statementForm 0 (grows_fail _)
  | succ room ih => exact grows_statementForm (room + 1) (grows_statements ih)

theorem leads_topLevelIn (rounds : List Located) (read : List Stmt) (s : ParseState) :
    s.Leads (topLevelIn rounds read s).2 := by
  induction rounds generalizing read s with
  | nil => exact .refl s
  | cons _ rounds ih =>
      rw [topLevelIn]
      split
      · exact .refl s
      · split
        · exact ((s.leads_record _).trans (ParseState.leads_advance _)).trans (ih _ _)
        · have hleads := leads_recovering (grows_statement maxNesting) s
          cases h : recovering (statement maxNesting) s with
          | mk parsed? s' =>
              rw [h] at hleads
              cases parsed? with
              | some parsed => exact hleads.trans (ih _ s')
              | none => exact hleads.trans (ih _ s')

end Parser
end StackScript
