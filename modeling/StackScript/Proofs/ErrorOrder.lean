import StackScript.Proofs.Lexemes
import StackScript.Proofs.ParserProgress

/-!
# The order of syntax errors

An error points to the next token as a rule.  Three faults point back: to the start
of an assignment whose target is none, to the first of too many arguments, and to
the name of a function with too many parameters.  None of them comes behind a block
that is part of the same statement, so no error is recorded between the place that
it points to and the place where it is met, and all errors stay in the order of the
source.
-/

namespace StackScript

/-!
## Positions
-/

namespace Span

instance : Preorder Span where
  le a b := a.line < b.line ∨ a.line = b.line ∧ a.column ≤ b.column
  le_refl a := Or.inr ⟨rfl, Nat.le_refl _⟩
  le_trans a b c h h' := by omega

theorem le_next (span : Span) (c : Char) : span ≤ span.next c := by
  unfold next
  split
  · exact Or.inl (Nat.lt_succ_self _)
  · exact Or.inr ⟨rfl, Nat.le_succ _⟩

theorem le_after (span : Span) (text : List Char) : span ≤ span.after text := by
  induction text generalizing span with
  | nil => exact le_refl span
  | cons c text ih => exact (le_next span c).trans (ih (span.next c))

theorem behind_le_append (before text : List Char) : behind before ≤ behind (before ++ text) := by
  rw [behind_append]
  exact le_after _ _

end Span

def Ordered (tokens : List Located) : Prop :=
  tokens.Pairwise fun t t' => t.span ≤ t'.span

theorem Partition.behind_le {before text : List Char} {tokens : List Located}
    (h : Partition before text tokens) : ∀ t ∈ tokens, Span.behind before ≤ t.span := by
  induction h with
  | done hgap =>
      intro t ht
      rw [List.mem_singleton.mp ht]
      exact Span.behind_le_append _ _
  | @token before gap lexeme rest t tokens hgap hlexeme hrest ih =>
      rw [List.forall_mem_cons]
      constructor
      · exact Span.behind_le_append _ _
      · intro t' ht'
        apply (Span.behind_le_append before (gap ++ lexeme)).trans
        rw [← List.append_assoc]
        exact ih t' ht'

theorem Partition.ordered {before text : List Char} {tokens : List Located}
    (h : Partition before text tokens) : Ordered tokens := by
  induction h with
  | done hgap => exact List.pairwise_singleton _ _
  | token hgap hlexeme hrest ih =>
      apply List.Pairwise.cons
      · intro t' ht'
        exact (Span.behind_le_append _ _).trans (hrest.behind_le t' ht')
      · exact ih

/-!
## States
-/

namespace ParseState

variable {stream : List Located} {quiet : Bool} {s s' s'' : ParseState}

/-- The state comes up in a parse of the stream: the next token is one of the
stream, or the last one was, and the errors so far point to tokens, none behind the
next token and each at or behind the one before. -/
structure Orderly (stream : List Located) (s : ParseState) : Prop where
  rest : s.rest <:+ stream
  ordered : Ordered s.rest
  place : s.span ∈ stream.map (·.span)
  sorted : s.errors.Pairwise fun later earlier => earlier.span ≤ later.span
  passed : ∀ e ∈ s.errors, e.span ≤ s.span
  placed : ∀ e ∈ s.errors, e.span ∈ stream.map (·.span)

namespace Orderly

theorem start {tokens : List Located} (hsome : tokens ≠ []) (hordered : Ordered tokens) :
    Orderly tokens { rest := tokens } where
  rest := List.suffix_rfl
  ordered := hordered
  place := by
    cases tokens with
    | nil => exact absurd rfl hsome
    | cons t tokens => exact List.mem_map_of_mem List.mem_cons_self
  sorted := List.Pairwise.nil
  passed := List.forall_mem_nil _
  placed := List.forall_mem_nil _

theorem of_same (h : s.Orderly stream) (hrest : s'.rest = s.rest) (hspan : s'.span = s.span)
    (herrors : s'.errors = s.errors) : s'.Orderly stream where
  rest := hrest ▸ h.rest
  ordered := hrest ▸ h.ordered
  place := hspan ▸ h.place
  sorted := herrors ▸ h.sorted
  passed := by
    rw [herrors, hspan]
    exact h.passed
  placed := herrors ▸ h.placed

theorem span_le_advance (h : s.Orderly stream) : s.span ≤ s.advance.span := by
  rcases s with ⟨rest, last, errors, nextBlock, nextIdent⟩
  cases rest with
  | nil => exact le_refl _
  | cons t rest =>
      cases rest with
      | nil => exact le_refl _
      | cons t' rest => exact List.rel_of_pairwise_cons h.ordered List.mem_cons_self

theorem advance (h : s.Orderly stream) : s.advance.Orderly stream where
  rest := s.rest_advance_suffix.trans h.rest
  ordered := h.ordered.sublist s.rest_advance_suffix.sublist
  place := by
    have hrest := h.rest
    have hplace := h.place
    rcases s with ⟨rest, last, errors, nextBlock, nextIdent⟩
    cases rest with
    | nil => exact hplace
    | cons t rest =>
        cases rest with
        | nil => exact hplace
        | cons t' rest => exact List.mem_map_of_mem (hrest.subset (by simp))
  sorted := by
    rw [s.errors_advance]
    exact h.sorted
  passed := by
    rw [s.errors_advance]
    exact fun e he => (h.passed e he).trans h.span_le_advance
  placed := by
    rw [s.errors_advance]
    exact h.placed

/-- An error may point back, as long as no error points further on. -/
theorem record (h : s.Orderly stream) {e : SyntaxError} (hplace : e.span ∈ stream.map (·.span))
    (hback : e.span ≤ s.span) (hlast : ∀ e' ∈ s.errors, e'.span ≤ e.span) :
    (s.record e).Orderly stream where
  rest := h.rest
  ordered := h.ordered
  place := h.place
  sorted := List.Pairwise.cons hlast h.sorted
  passed := List.forall_mem_cons.mpr ⟨hback, h.passed⟩
  placed := List.forall_mem_cons.mpr ⟨hplace, h.placed⟩

theorem record_here (h : s.Orderly stream) {e : SyntaxError} (hspan : e.span = s.span) :
    (s.record e).Orderly stream := by
  apply h.record
  · rw [hspan]
    exact h.place
  · exact hspan.le
  · rw [hspan]
    exact h.passed

end Orderly

/-- The second state is in order.  If it was reached quietly, it comes behind the
first one, with nothing recorded in between. -/
structure Follows (stream : List Located) (quiet : Bool) (s s' : ParseState) : Prop where
  orderly : s'.Orderly stream
  span : quiet = true -> s.span ≤ s'.span
  errors : quiet = true -> s'.errors = s.errors

namespace Follows

theorem refl (h : s.Orderly stream) : s.Follows stream quiet s where
  orderly := h
  span := fun _ => le_refl s.span
  errors := fun _ => rfl

theorem trans (h : s.Follows stream quiet s') (h' : s'.Follows stream quiet s'') :
    s.Follows stream quiet s'' where
  orderly := h'.orderly
  span := fun hquiet => (h.span hquiet).trans (h'.span hquiet)
  errors := fun hquiet => (h'.errors hquiet).trans (h.errors hquiet)

theorem loosen (h : s.Follows stream true s') : s.Follows stream quiet s' where
  orderly := h.orderly
  span := fun _ => h.span rfl
  errors := fun _ => h.errors rfl

theorem of_same (h : s.Orderly stream) (hrest : s'.rest = s.rest) (hspan : s'.span = s.span)
    (herrors : s'.errors = s.errors) : s.Follows stream quiet s' where
  orderly := h.of_same hrest hspan herrors
  span := fun _ => hspan.ge
  errors := fun _ => herrors

theorem advance (h : s.Orderly stream) : s.Follows stream quiet s.advance where
  orderly := h.advance
  span := fun _ => h.span_le_advance
  errors := fun _ => s.errors_advance

/-- An error that points back to where nothing was recorded since. -/
theorem record_back (h : s.Orderly stream) (hfollows : s.Follows stream true s') {e : SyntaxError}
    (hspan : e.span = s.span) : (s'.record e).Orderly stream := by
  apply hfollows.orderly.record
  · rw [hspan]
    exact h.place
  · rw [hspan]
    exact hfollows.span rfl
  · rw [hfollows.errors rfl, hspan]
    exact h.passed

end Follows
end ParseState

/-!
## Steps
-/

namespace Parser

open ParseState (Orderly Follows)

variable {α β : Type} {stream : List Located} {quiet : Bool} {s s' : ParseState}

/-- From a state in order the step leads to a state in order, or fails with an error
that can be recorded.  A quiet step records none itself. -/
structure Orders (stream : List Located) (quiet : Bool) (step : Parser α) : Prop where
  ok : ∀ {s s' : ParseState} {x : α}, s.Orderly stream -> step s = .ok x s' ->
    s.Follows stream quiet s'
  error : ∀ {s s' : ParseState} {e : SyntaxError}, s.Orderly stream -> step s = .error e s' ->
    (s'.record e).Orderly stream

theorem Orders.loosen {step : Parser α} (h : Orders stream true step) :
    Orders stream quiet step where
  ok hs hstep := (h.ok hs hstep).loosen
  error := h.error

theorem orders_of_ok {step : Parser α} {value : ParseState -> α} {next : ParseState -> ParseState}
    (hstep : ∀ s, step s = .ok (value s) (next s))
    (hnext : ∀ s : ParseState, s.Orderly stream -> s.Follows stream quiet (next s)) :
    Orders stream quiet step where
  ok := by
    intro s s' x hs h
    cases (hstep s).symm.trans h
    exact hnext s hs
  error := by
    intro s s' e hs h
    cases (hstep s).symm.trans h

theorem orders_pure (x : α) : Orders stream quiet (pure x) :=
  orders_of_ok (fun _ => rfl) fun _ => .refl

theorem orders_get : Orders stream quiet get :=
  orders_of_ok (fun _ => rfl) fun _ => .refl

theorem orders_isAt (t : Token) : Orders stream quiet (isAt t) :=
  orders_of_ok (fun _ => rfl) fun _ => .refl

theorem orders_advance : Orders stream quiet advance :=
  orders_of_ok (fun _ => rfl) fun _ => .advance

theorem orders_freshBlock : Orders stream quiet freshBlock :=
  orders_of_ok (fun _ => rfl) fun _ h => .of_same h rfl rfl rfl

theorem orders_freshIdentifier (name : String) (span : Span) :
    Orders stream quiet (freshIdentifier name span) :=
  orders_of_ok (fun _ => rfl) fun _ h => .of_same h rfl rfl rfl

theorem orders_fail (fault : Option Token -> SyntaxFault) :
    Orders stream quiet (fail fault : Parser α) where
  ok := by
    intro s s' x hs h
    cases h
  error := by
    intro s s' e hs h
    cases h
    exact hs.record_here rfl

theorem bind_eq_error {step : Parser α} {next : α -> Parser β} {e : SyntaxError}
    (h : (step >>= next) s = .error e s') :
    step s = .error e s' ∨ ∃ x s1, step s = .ok x s1 ∧ next x s1 = .error e s' := by
  cases hstep : step s with
  | ok x s1 =>
      rw [bind_of_ok hstep] at h
      exact Or.inr ⟨x, s1, rfl, h⟩
  | error e1 s1 =>
      rw [bind_of_error hstep] at h
      cases h
      exact Or.inl rfl

theorem orders_bind {step : Parser α} {next : α -> Parser β} (hstep : Orders stream quiet step)
    (hnext : ∀ x, Orders stream quiet (next x)) : Orders stream quiet (step >>= next) where
  ok := by
    intro s s' y hs h
    rcases bind_eq_ok_iff.mp h with ⟨x, s1, hfirst, hrest⟩
    have hfollows := hstep.ok hs hfirst
    exact hfollows.trans ((hnext x).ok hfollows.orderly hrest)
  error := by
    intro s s' e hs h
    cases bind_eq_error h with
    | inl hfirst => exact hstep.error hs hfirst
    | inr hlater =>
        rcases hlater with ⟨x, s1, hfirst, hrest⟩
        exact (hnext x).error (hstep.ok hs hfirst).orderly hrest

/-!
### Errors that point back
-/

/-- The same of a step that comes behind a start, with nothing recorded since.  Its
error may point back to the start. -/
structure OrdersFrom (stream : List Located) (quiet : Bool) (start : ParseState)
    (step : Parser α) : Prop where
  ok : ∀ {s s' : ParseState} {x : α}, start.Orderly stream -> start.Follows stream true s ->
    step s = .ok x s' -> s.Follows stream quiet s'
  error : ∀ {s s' : ParseState} {e : SyntaxError}, start.Orderly stream ->
    start.Follows stream true s -> step s = .error e s' -> (s'.record e).Orderly stream

namespace OrdersFrom

variable {start : ParseState}

theorem of_orders {step : Parser α} (h : Orders stream quiet step) :
    OrdersFrom stream quiet start step where
  ok _ hfollows := h.ok hfollows.orderly
  error _ hfollows := h.error hfollows.orderly

theorem throwBack {span : Span} (hspan : span = start.span) (fault : SyntaxFault) :
    OrdersFrom stream quiet start (throw { span, fault } : Parser α) where
  ok := by
    intro s s' x hstart hfollows h
    cases h
  error := by
    intro s s' e hstart hfollows h
    cases h
    exact hfollows.record_back hstart hspan

theorem bind {step : Parser α} {next : α -> Parser β} (hstep : Orders stream true step)
    (hnext : ∀ x, OrdersFrom stream quiet start (next x)) :
    OrdersFrom stream quiet start (step >>= next) where
  ok := by
    intro s s' y hstart hfollows h
    rcases bind_eq_ok_iff.mp h with ⟨x, s1, hfirst, hrest⟩
    have hfirst' := hstep.ok hfollows.orderly hfirst
    exact (hfirst'.loosen).trans ((hnext x).ok hstart (hfollows.trans hfirst') hrest)
  error := by
    intro s s' e hstart hfollows h
    cases bind_eq_error h with
    | inl hfirst => exact hstep.error hfollows.orderly hfirst
    | inr hlater =>
        rcases hlater with ⟨x, s1, hfirst, hrest⟩
        exact (hnext x).error hstart (hfollows.trans (hstep.ok hfollows.orderly hfirst)) hrest

end OrdersFrom

/-- A step behind a look at the state may point back to where it looked. -/
theorem orders_get_bind {next : ParseState -> Parser α}
    (hnext : ∀ start, OrdersFrom stream quiet start (next start)) :
    Orders stream quiet (get >>= next) where
  ok {s _ _} hs h := (hnext s).ok hs (.refl hs) h
  error {s _ _} hs h := (hnext s).error hs (.refl hs) h

/-!
### Names and lists
-/

theorem orders_eat (t : Token) : Orders stream quiet (eat t) := by
  apply orders_bind (orders_isAt t)
  intro found
  cases found with
  | true => exact orders_bind orders_advance fun _ => orders_pure _
  | false => exact orders_pure _

theorem orders_expect (symbol : Symbol) (what : String) :
    Orders stream quiet (expect symbol what) := by
  apply orders_bind (orders_isAt _)
  intro found
  cases found with
  | true => exact orders_advance
  | false => exact orders_fail _

theorem orders_identifier (what : String) : Orders stream quiet (identifier what) := by
  apply orders_bind orders_get
  intro s
  split
  · exact orders_bind orders_advance fun _ => orders_freshIdentifier _ _
  · exact orders_fail _

theorem span_of_identifier {what : String} {name : Identifier}
    (h : identifier what s = .ok name s') : name.span = s.span := by
  rw [identifier, get_bind] at h
  cases htoken : s.token? with
  | none =>
      rw [htoken] at h
      cases h
  | some t =>
      rw [htoken] at h
      cases t with
      | ident text =>
          cases h
          rfl
      | _ => cases h

/-- A step behind a name may point back to it. -/
theorem orders_identifier_bind {what : String} {next : Identifier -> Parser α}
    (hnext : ∀ start name, name.span = ParseState.span start ->
      OrdersFrom stream quiet start (next name)) :
    Orders stream quiet (identifier what >>= next) where
  ok := by
    intro s s' y hs h
    rcases bind_eq_ok_iff.mp h with ⟨name, s1, hname, hrest⟩
    have hfollows : s.Follows stream true s1 := (orders_identifier what).ok hs hname
    exact hfollows.loosen.trans ((hnext s name (span_of_identifier hname)).ok hs hfollows hrest)
  error := by
    intro s s' e hs h
    have horders : Orders stream true (identifier what) := orders_identifier what
    cases bind_eq_error h with
    | inl hname => exact horders.error hs hname
    | inr hlater =>
        rcases hlater with ⟨name, s1, hname, hrest⟩
        exact (hnext s name (span_of_identifier hname)).error hs (horders.ok hs hname) hrest

theorem orders_commaItems {item : Parser α} (hitem : Orders stream quiet item)
    (rounds : List Located) (read : List α) :
    Orders stream quiet (commaItems item rounds read) := by
  induction rounds generalizing read with
  | nil => exact orders_pure _
  | cons _ rounds ih =>
      apply orders_bind (orders_eat _)
      intro found
      cases found with
      | true => exact orders_bind hitem fun x => ih (x :: read)
      | false => exact orders_pure _

theorem orders_parenthesized {item : Parser α} (hitem : Orders stream quiet item)
    (closing : String) : Orders stream quiet (parenthesized item closing) := by
  have hclose : ∀ items : List α,
      Orders stream quiet (expect .rightParen closing >>= fun _ => pure items) :=
    fun items => orders_bind (orders_expect _ _) fun _ => orders_pure items
  have hitems : Orders stream quiet (commaSeparated item) :=
    orders_bind hitem fun first => orders_bind orders_get fun s =>
      orders_commaItems hitem s.rest [first]
  apply orders_bind (orders_isAt _)
  intro found
  cases found with
  | true => exact orders_bind (orders_pure _) hclose
  | false => exact orders_bind hitems hclose

/-!
### Expressions

No statement is part of an expression, so nothing is recorded inside one.
-/

mutual

theorem orders_expression : ∀ room : Nat, Orders stream true (expression room)
  | 0 => by
      rw [expression]
      exact orders_fail _
  | room + 1 => by
      rw [expression]
      exact orders_operand precedence room
termination_by room => (room, 0)

theorem orders_operand :
    ∀ (levels : List Level) (room : Nat), Orders stream true (operand levels room)
  | [], room => by
      rw [operand]
      exact orders_unary room
  | level :: tighter, room => by
      rw [operand]
      exact orders_bind (orders_operand tighter room) fun left =>
        orders_chain level tighter room left
termination_by levels room => (room, 4 + levels.length)

theorem orders_chain (level : Level) (tighter : List Level) (room : Nat) (left : Expr) :
    Orders stream true (chain level tighter room left) := by
  rw [chain]
  apply orders_bind orders_get
  intro s
  cases level.operator? s.token? with
  | none => exact orders_pure _
  | some op =>
      apply orders_bind orders_advance
      intro _
      cases room with
      | zero => exact orders_fail _
      | succ room =>
          exact orders_bind (orders_operand tighter room) fun right =>
            orders_chain level tighter room _
termination_by (room, 0)

theorem orders_unary (room : Nat) : Orders stream true (unary room) := by
  rw [unary]
  apply orders_bind orders_get
  intro s
  cases unaryOperator? s.token? with
  | none => exact orders_application room
  | some op =>
      apply orders_bind orders_advance
      intro _
      cases room with
      | zero => exact orders_fail _
      | succ room => exact orders_bind (orders_unary room) fun _ => orders_pure _
termination_by (room, 3)

theorem orders_application (room : Nat) : Orders stream true (application room) := by
  rw [application]
  exact orders_bind (orders_primary room) fun head => orders_suffixes room head
termination_by (room, 2)

theorem orders_suffixes (room : Nat) (head : Expr) :
    Orders stream true (suffixes room head) := by
  rw [suffixes.eq_def]
  apply orders_bind orders_get
  intro s
  split
  · cases room with
    | zero => exact orders_fail _
    | succ room =>
        exact orders_bind orders_advance fun _ => orders_bind (orders_arguments room) fun args =>
          orders_suffixes room _
  · cases room with
    | zero => exact orders_fail _
    | succ room =>
        exact orders_bind orders_advance fun _ => orders_bind (orders_identifier _) fun field =>
          orders_suffixes room _
  · exact orders_pure _
termination_by (room, 0)

theorem orders_arguments (room : Nat) : Orders stream true (arguments room) := by
  rw [arguments]
  apply orders_get_bind
  intro start
  apply OrdersFrom.bind (orders_parenthesized (orders_expression room) _)
  intro args
  split
  · exact .of_orders (orders_pure _)
  · exact .throwBack rfl _
termination_by (room, 1)

theorem orders_primary (room : Nat) : Orders stream true (primary room) := by
  rw [primary]
  apply orders_bind orders_get
  intro s
  split
  · exact orders_bind orders_advance fun _ => orders_bind (orders_freshIdentifier _ _) fun _ =>
      orders_pure _
  · exact orders_bind orders_advance fun _ => orders_bind (orders_expression room) fun _ =>
      orders_bind (orders_expect _ _) fun _ => orders_pure _
  · split
    · exact orders_bind orders_advance fun _ => orders_pure _
    · exact orders_fail _
termination_by (room, 1)

end

/-!
### Statements
-/

section Statements

variable {inside : Parser (List Stmt)} {statement : Parser Stmt}

theorem orderly_synchronized (h : s.Orderly stream) : (synchronized s).Orderly stream := by
  -- every token that is skipped is a token less
  induction hlength : s.rest.length generalizing s with
  | zero =>
      have hnone : s.token? = none := by
        rw [ParseState.token?, List.length_eq_zero_iff.mp hlength]
        rfl
      rw [synchronized_of_none hnone]
      exact h
  | succ length ih =>
      cases htoken : s.token? with
      | none =>
          rw [synchronized_of_none htoken]
          exact h
      | some t =>
          rw [synchronized_of_some htoken]
          split
          · exact h
          · split
            · exact h.advance
            · apply ih h.advance
              have htokens := congrArg List.length (ParseState.tokens_of_token? htoken)
              simp only [ParseState.tokens, List.length_map, List.length_cons] at htokens
              omega

theorem orderly_resumed {start : ParseState} (h : s.Orderly stream) :
    (resumed start s).Orderly stream := by
  unfold resumed
  dsimp only
  split
  · exact (orderly_synchronized h).advance
  · exact orderly_synchronized h

theorem orderly_recovering (hstatement : Orders stream false statement) (h : s.Orderly stream) :
    (recovering statement s).2.Orderly stream := by
  unfold recovering
  cases hrun : statement s with
  | ok parsed s' => exact (hstatement.ok h hrun).orderly
  | error e s' => exact orderly_resumed (hstatement.error h hrun)

theorem orderly_statementsIn (hstatement : Orders stream false statement) (rounds : List Located)
    (read : List Stmt) (h : s.Orderly stream) :
    (statementsIn statement rounds read s).2.Orderly stream := by
  induction rounds generalizing read s with
  | nil => exact h
  | cons t rounds ih =>
      by_cases hstop : (s.isAt (.symbol .rightBrace) || s.atEnd) = true
      · rw [statementsIn, if_pos hstop]
        exact h
      · rw [Bool.not_eq_true, Bool.or_eq_false_iff] at hstop
        rw [statementsIn_round t rounds read hstop.1 hstop.2]
        exact ih _ (orderly_recovering hstatement h)

theorem orders_statements (hstatement : Orders stream false statement) :
    Orders stream false (statements statement) := by
  apply orders_of_ok (fun _ => rfl)
  intro s h
  exact
    { orderly := orderly_statementsIn hstatement s.rest [] h
      span := fun hquiet => by cases hquiet
      errors := fun hquiet => by cases hquiet }

theorem orders_braced (hinside : Orders stream false inside) (context : String) :
    Orders stream false (braced inside context) :=
  orders_bind (orders_expect _ _) fun _ => orders_bind hinside fun _ =>
    orders_bind (orders_expect _ _) fun _ => orders_pure _

theorem orders_block (hinside : Orders stream false inside) (context : String) :
    Orders stream false (block inside context) :=
  orders_bind orders_freshBlock fun _ => orders_bind (orders_braced hinside context) fun _ =>
    orders_pure _

theorem orders_guarded (room : Nat) (hinside : Orders stream false inside) (word : String) :
    Orders stream false (guarded room inside word) :=
  orders_bind (orders_expect _ _) fun _ => orders_bind (orders_expression room).loosen fun _ =>
    orders_bind (orders_expect _ _) fun _ => orders_bind (orders_block hinside _) fun _ =>
      orders_pure _

theorem orders_declaration (room : Nat) : Orders stream false (declaration room) :=
  orders_bind orders_advance fun _ => orders_bind (orders_identifier _) fun _ =>
    orders_bind (orders_expect _ _) fun _ => orders_bind (orders_expression room).loosen fun _ =>
      orders_bind (orders_expect _ _) fun _ => orders_pure _

/-- The parameters are counted before the body is read. -/
theorem orders_function (hinside : Orders stream false inside) :
    Orders stream false (function inside) := by
  apply orders_bind orders_advance
  intro _
  apply orders_identifier_bind
  intro start name hname
  apply OrdersFrom.bind (orders_expect _ _)
  intro _
  apply OrdersFrom.bind (orders_parenthesized (orders_identifier _) _)
  intro params
  split
  · exact .of_orders (orders_bind (orders_braced hinside _) fun _ => orders_pure _)
  · exact .throwBack hname _

theorem orders_alternatives (room : Nat) (hinside : Orders stream false inside)
    (rounds : List Located) (read : List Branch) :
    Orders stream false (alternatives room inside rounds read) := by
  induction rounds generalizing read with
  | nil => exact orders_pure _
  | cons _ rounds ih =>
      apply orders_bind (orders_eat _)
      intro found
      cases found with
      | false => exact orders_pure _
      | true =>
          apply orders_bind (orders_eat _)
          intro found
          cases found with
          | true => exact orders_bind (orders_guarded room hinside _) fun branch => ih _
          | false => exact orders_bind (orders_block hinside _) fun _ => orders_pure _

theorem orders_choice (room : Nat) (hinside : Orders stream false inside) :
    Orders stream false (choice room inside) :=
  orders_bind orders_advance fun _ => orders_bind (orders_guarded room hinside _) fun first =>
    orders_bind orders_get fun s => orders_bind (orders_alternatives room hinside s.rest [first])
      fun _ => orders_pure _

theorem orders_loop (room : Nat) (hinside : Orders stream false inside) :
    Orders stream false (loop room inside) :=
  orders_bind orders_advance fun _ => orders_bind (orders_guarded room hinside _) fun _ =>
    orders_pure _

theorem orders_giveBack (room : Nat) : Orders stream false (giveBack room) := by
  have hclose : ∀ (span : Span) (value : Expr),
      Orders stream false (expect .semicolon "';' after return value" >>= fun _ =>
        pure (Stmt.giveBack value span)) :=
    fun _ _ => orders_bind (orders_expect _ _) fun _ => orders_pure _
  apply orders_bind orders_get
  intro s
  apply orders_bind orders_advance
  intro _
  apply orders_bind (orders_isAt _)
  intro found
  cases found with
  | true => exact orders_bind (orders_pure _) (hclose _)
  | false => exact orders_bind (orders_expression room).loosen (hclose _)

/-- A target that is none is an error at the start of the statement, met behind the
sign of equality. -/
theorem orders_assignmentOrExpression (room : Nat) :
    Orders stream false (assignmentOrExpression room) := by
  have hvalue : ∀ assigned : Expr -> Stmt, Orders stream false (expression room >>= fun value =>
      expect .semicolon "';' after assignment" >>= fun _ => pure (assigned value)) :=
    fun _ => orders_bind (orders_expression room).loosen fun _ =>
      orders_bind (orders_expect _ _) fun _ => orders_pure _
  apply orders_get_bind
  intro start
  apply OrdersFrom.bind (orders_expression room)
  intro first
  apply OrdersFrom.bind (orders_eat _)
  intro found
  cases found with
  | true =>
      cases first with
      | ident name => exact .of_orders (orders_bind (orders_pure _) hvalue)
      | field receiver field => exact .of_orders (orders_bind (orders_pure _) hvalue)
      | _ => exact .throwBack rfl _
  | false => exact .of_orders (orders_bind (orders_expect _ _) fun _ => orders_pure _)

theorem orders_statementForm (room : Nat) (hinside : Orders stream false inside) :
    Orders stream false (statementForm room inside) := by
  apply orders_bind orders_get
  intro s
  split
  · exact orders_declaration room
  · exact orders_function hinside
  · exact orders_choice room hinside
  · exact orders_loop room hinside
  · exact orders_giveBack room
  · exact orders_bind (orders_block hinside _) fun _ => orders_pure _
  · exact orders_assignmentOrExpression room

end Statements

theorem orders_statement (room : Nat) : Orders stream false (statement room) := by
  induction room with
  | zero => exact orders_statementForm 0 (orders_fail _)
  | succ room ih => exact orders_statementForm (room + 1) (orders_statements ih)

/-!
## Programs
-/

theorem orderly_topLevelIn (rounds : List Located) (read : List Stmt) (h : s.Orderly stream) :
    (topLevelIn rounds read s).2.Orderly stream := by
  induction rounds generalizing read s with
  | nil => exact h
  | cons t rounds ih =>
      cases hend : s.atEnd with
      | true =>
          rw [topLevelIn, if_pos hend]
          exact h
      | false =>
          cases hbrace : s.isAt (.symbol .rightBrace) with
          | true =>
              rw [topLevelIn, hend, if_neg Bool.false_ne_true, if_pos hbrace]
              exact ih _ (h.record_here rfl).advance
          | false =>
              rw [topLevelIn_round t rounds read hbrace hend]
              exact ih _ (orderly_recovering (orders_statement maxNesting) h)

theorem errors_of_program {errors : List SyntaxError} (h : (program s).1 = .error errors) :
    errors = (topLevelIn s.rest [] s).2.errors.reverse ∧ errors ≠ [] := by
  unfold program at h
  dsimp only at h
  split at h
  · cases h
  · next hsome =>
      cases h
      constructor
      · rfl
      · intro hnil
        rw [List.reverse_eq_nil_iff] at hnil
        rw [hnil] at hsome
        exact hsome rfl

end Parser

theorem Program.ofTokens_errors_ordered {tokens : List Located} {errors : List SyntaxError}
    (hordered : Ordered tokens) (h : Program.ofTokens tokens = .error errors) :
    errors.Pairwise (fun e e' => e.span ≤ e'.span) ∧
      ∀ e ∈ errors, ∃ t ∈ tokens, t.token.isSignificant = true ∧ t.span = e.span := by
  let stream := tokens.filter (·.token.isSignificant)
  rcases Parser.errors_of_program h with ⟨herrors, hsome⟩
  have hstream : stream ≠ [] := by
    intro hnil
    apply hsome
    rw [herrors]
    show (Parser.topLevelIn stream [] { rest := stream }).2.errors.reverse = []
    rw [hnil]
    rfl
  have hstart : ParseState.Orderly stream (.ofTokens tokens) :=
    .start hstream (hordered.sublist List.filter_sublist)
  have hlast := Parser.orderly_topLevelIn (ParseState.ofTokens tokens).rest [] hstart
  rw [herrors]
  constructor
  · rw [List.pairwise_reverse]
    exact hlast.sorted
  · intro e he
    have hplaced := hlast.placed e (List.mem_reverse.mp he)
    rcases List.mem_map.mp hplaced with ⟨t, ht, hspan⟩
    rw [List.mem_filter] at ht
    exact ⟨t, ht.1, ht.2, hspan⟩

/-- A source that falls into tokens and is no program has its errors in the order of
the source, each at a token that matters or at the end of the input, and the first
of them is one with the earliest position. -/
theorem Program.parse_errors_ordered {source : String} {tokens : List Located}
    {errors : List SyntaxError} (htokens : tokenize source = .ok tokens)
    (herrors : Program.parse source = .error errors) :
    errors.Pairwise (fun e e' => e.span ≤ e'.span) ∧
      (∀ e ∈ errors, ∃ t ∈ tokens, t.token.isSignificant = true ∧ t.span = e.span) ∧
      ∃ first, errors.head? = some first ∧ ∀ e ∈ errors, first.span ≤ e.span := by
  have hparse : Program.ofTokens tokens = .error errors := by
    rw [Program.parse, htokens] at herrors
    exact herrors
  rcases Program.ofTokens_errors_ordered (partition_of_tokenize htokens).ordered hparse with
    ⟨hsorted, hplaced⟩
  refine ⟨hsorted, hplaced, ?_⟩
  cases errors with
  | nil => exact absurd rfl (Parser.errors_of_program hparse).2
  | cons first later =>
      exists first
      constructor
      · rfl
      · rw [List.forall_mem_cons]
        exact ⟨le_refl _, (List.pairwise_cons.mp hsorted).1⟩

/-- Errors inside blocks come before those of the blocks, some at the same place. -/
theorem Program.parse_errors_ordered_nested :
    let source := "\x7d\n\x7b fn \x7d // twice\n\x7d\n\x7b fn"
    ∃ tokens errors, tokenize source = .ok tokens ∧ Program.parse source = .error errors ∧
      errors.map (·.span) = [⟨1, 1⟩, ⟨2, 6⟩, ⟨3, 1⟩, ⟨4, 5⟩, ⟨4, 5⟩] ∧
      errors.Pairwise (fun e e' => e.span ≤ e'.span) ∧
      (∀ e ∈ errors, ∃ t ∈ tokens, t.token.isSignificant = true ∧ t.span = e.span) ∧
      ∃ first, errors.head? = some first ∧ ∀ e ∈ errors, first.span ≤ e.span := by
  intro source
  have hspans : ((Program.parse source).map fun _ => ()).mapError (List.map (·.span)) =
      .error [⟨1, 1⟩, ⟨2, 6⟩, ⟨3, 1⟩, ⟨4, 5⟩, ⟨4, 5⟩] := by decide +kernel
  have htokens : ∃ tokens, tokenize source = .ok tokens ∧ tokens.length = 12 := by
    apply exists_ok_of_map List.length (y := 12)
    · decide +kernel
    · exact fun _ _ hlength => hlength
  rcases htokens with ⟨tokens, htokens, _⟩
  cases herrors : Program.parse source with
  | ok program =>
      rw [herrors] at hspans
      cases hspans
  | error errors =>
      rw [herrors] at hspans
      have hspans' := Except.error.inj hspans
      exact ⟨tokens, errors, htokens, rfl, hspans',
        Program.parse_errors_ordered htokens herrors⟩

end StackScript
