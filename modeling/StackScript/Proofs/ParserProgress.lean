import StackScript.Proofs.ParserSteps

/-!
# The parser gets on

A statement that is parsed uses up a token, whatever errors were recorded inside
it, and one that is given up does so too.  So the rounds that bound the loops of
the parser never cut one short: what ends them is the next token.
-/

namespace StackScript
namespace Parser

variable {α β : Type} {s s' : ParseState}

/-!
## Steps that use up a token
-/

def Consumes (step : Parser α) : Prop :=
  ∀ (s s' : ParseState) (x : α), step s = .ok x s' -> s'.rest.length < s.rest.length

theorem consumes_bind_left {step : Parser α} {next : α -> Parser β} (h : Consumes step)
    (hnext : ∀ x, Grows (next x)) : Consumes (step >>= next) := by
  intro s s' y hrun
  rcases bind_eq_ok_iff.mp hrun with ⟨x, s1, hstep, hrest⟩
  exact Nat.lt_of_le_of_lt ((hnext x).of_ok hrest).rest.length_le (h s s1 x hstep)

theorem consumes_bind_right {step : Parser α} {next : α -> Parser β} (h : Grows step)
    (hnext : ∀ x, Consumes (next x)) : Consumes (step >>= next) := by
  intro s s' y hrun
  rcases bind_eq_ok_iff.mp hrun with ⟨x, s1, hstep, hrest⟩
  exact Nat.lt_of_lt_of_le (hnext x s1 s' y hrest) (h.of_ok hstep).rest.length_le

theorem length_rest_of_tokens {t : Token} (h : s.tokens = t :: s'.tokens) :
    s'.rest.length < s.rest.length := by
  have hlength := congrArg List.length h
  simp only [ParseState.tokens, List.length_map, List.length_cons] at hlength
  omega

theorem consumes_expect (symbol : Symbol) (what : String) : Consumes (expect symbol what) :=
  fun _ _ _ h => length_rest_of_tokens (expect_eq_ok h).1

theorem consumes_identifier (what : String) : Consumes (identifier what) :=
  fun _ _ _ h => length_rest_of_tokens (identifier_eq_ok h).1

section Statements

variable {inside : Parser (List Stmt)}

theorem consumes_braced (hinside : Grows inside) (context : String) :
    Consumes (braced inside context) :=
  consumes_bind_left (consumes_expect _ _) fun _ => grows_bind hinside fun _ =>
    grows_bind (grows_expect _ _) fun _ => grows_pure _

theorem consumes_block (hinside : Grows inside) (context : String) :
    Consumes (block inside context) :=
  consumes_bind_right grows_freshBlock fun _ =>
    consumes_bind_left (consumes_braced hinside context) fun _ => grows_pure _

theorem consumes_guarded (room : Nat) (hinside : Grows inside) (word : String) :
    Consumes (guarded room inside word) :=
  consumes_bind_left (consumes_expect _ _) fun _ => grows_bind (grows_expression room) fun _ =>
    grows_bind (grows_expect _ _) fun _ => grows_bind (grows_block hinside _) fun _ =>
      grows_pure _

theorem consumes_declaration (room : Nat) : Consumes (declaration room) :=
  consumes_bind_right grows_advance fun _ => consumes_bind_left (consumes_identifier _) fun _ =>
    grows_bind (grows_expect _ _) fun _ => grows_bind (grows_expression room) fun _ =>
      grows_bind (grows_expect _ _) fun _ => grows_pure _

theorem consumes_function (hinside : Grows inside) : Consumes (function inside) := by
  refine consumes_bind_right grows_advance fun _ =>
    consumes_bind_left (consumes_identifier _) fun name => grows_bind (grows_expect _ _) fun _ =>
      grows_bind (grows_parenthesized (grows_identifier _) _) fun params => ?_
  split
  · exact grows_bind (grows_braced hinside _) fun _ => grows_pure _
  · exact grows_throw _

theorem consumes_choice (room : Nat) (hinside : Grows inside) : Consumes (choice room inside) :=
  consumes_bind_right grows_advance fun _ =>
    consumes_bind_left (consumes_guarded room hinside _) fun first => grows_bind grows_get fun s =>
      grows_bind (grows_alternatives room hinside s.rest [first]) fun _ => grows_pure _

theorem consumes_loop (room : Nat) (hinside : Grows inside) : Consumes (loop room inside) :=
  consumes_bind_right grows_advance fun _ =>
    consumes_bind_left (consumes_guarded room hinside _) fun _ => grows_pure _

theorem consumes_giveBack (room : Nat) : Consumes (giveBack room) := by
  have hclose : ∀ (span : Span) (value : Expr),
      Consumes (expect .semicolon "';' after return value" >>= fun _ =>
        pure (Stmt.giveBack value span)) :=
    fun _ _ => consumes_bind_left (consumes_expect _ _) fun _ => grows_pure _
  refine consumes_bind_right grows_get fun s => consumes_bind_right grows_advance fun _ =>
    consumes_bind_right (grows_isAt _) fun found => ?_
  cases found with
  | true => exact consumes_bind_right (grows_pure _) (hclose _)
  | false => exact consumes_bind_right (grows_expression room) (hclose _)

theorem consumes_assignmentOrExpression (room : Nat) :
    Consumes (assignmentOrExpression room) := by
  have hvalue : ∀ assigned : Expr -> Stmt, Consumes (expression room >>= fun value =>
      expect .semicolon "';' after assignment" >>= fun _ => pure (assigned value)) :=
    fun _ => consumes_bind_right (grows_expression room) fun _ =>
      consumes_bind_left (consumes_expect _ _) fun _ => grows_pure _
  refine consumes_bind_right grows_get fun s =>
    consumes_bind_right (grows_expression room) fun first =>
      consumes_bind_right (grows_eat _) fun found => ?_
  cases found with
  | true =>
      cases first with
      | ident name => exact consumes_bind_right (grows_pure _) hvalue
      | field receiver field => exact consumes_bind_right (grows_pure _) hvalue
      | _ => exact consumes_bind_right (grows_throw _) hvalue
  | false => exact consumes_bind_left (consumes_expect _ _) fun _ => grows_pure _

theorem consumes_statementForm (room : Nat) (hinside : Grows inside) :
    Consumes (statementForm room inside) := by
  refine consumes_bind_right grows_get fun s => ?_
  split
  · exact consumes_declaration room
  · exact consumes_function hinside
  · exact consumes_choice room hinside
  · exact consumes_loop room hinside
  · exact consumes_giveBack room
  · exact consumes_bind_left (consumes_block hinside _) fun _ => grows_pure _
  · exact consumes_assignmentOrExpression room

end Statements

theorem consumes_statement (room : Nat) : Consumes (statement room) := by
  cases room with
  | zero => exact consumes_statementForm 0 (grows_fail _)
  | succ room => exact consumes_statementForm (room + 1) (grows_statements (grows_statement room))

/-!
## Going on behind an error
-/

theorem synchronized_of_none (h : s.token? = none) : synchronized s = s := by
  rcases s with ⟨rest, last, errors, nextBlock, nextIdent⟩
  cases rest with
  | nil => rfl
  | cons t rest => cases h

theorem synchronized_of_some {t : Token} (h : s.token? = some t) :
    synchronized s =
      if t = .endOfInput || t = .symbol .rightBrace || t.startsStatement then s
      else if t = .symbol .semicolon then s.advance
      else synchronized s.advance := by
  rcases s with ⟨rest, last, errors, nextBlock, nextIdent⟩
  cases rest with
  | nil => cases h
  | cons first rest =>
      obtain rfl : first.token = t := Option.some.inj h
      rw [synchronized, skipToBoundary]
      by_cases hstop : (first.token = .endOfInput || first.token = .symbol .rightBrace ||
          first.token.startsStatement) = true
      · rw [if_pos hstop, if_pos hstop]
      · rw [if_neg hstop, if_neg hstop]
        by_cases hsemicolon : first.token = .symbol .semicolon
        · rw [if_pos hsemicolon, if_pos hsemicolon]
          rfl
        · rw [if_neg hsemicolon, if_neg hsemicolon]
          rfl

theorem length_rest_advance (h : s.atEnd = false) :
    s.advance.rest.length < s.rest.length := by
  cases ht : s.token? with
  | none =>
      rw [ParseState.atEnd, ht] at h
      cases h
  | some t => exact length_rest_of_tokens (ParseState.tokens_of_token? ht)

/-- Where a parse goes on behind an error a token is used up, also when the
statement had used up none. -/
theorem length_rest_resumed {start : ParseState} (h : start.Leads s) (hend : start.atEnd = false) :
    (resumed start s).rest.length < start.rest.length := by
  have hsuffix := (h.trans (leads_synchronized s)).rest
  unfold resumed
  dsimp only
  by_cases hrest : (synchronized s).rest = start.rest
  · have hnext : (synchronized s).atEnd = false := by
      rw [ParseState.atEnd, ParseState.token?, hrest]
      exact hend
    rw [if_pos (by simp [hrest, hnext])]
    exact Nat.lt_of_lt_of_eq (length_rest_advance hnext) (congrArg List.length hrest)
  · rw [if_neg (by simp [hrest])]
    exact Nat.lt_of_le_of_ne hsuffix.length_le fun heq => hrest (hsuffix.eq_of_length heq)

theorem length_rest_recovering {statement : Parser Stmt} (hgrows : Grows statement)
    (hconsumes : Consumes statement) (hend : s.atEnd = false) :
    (recovering statement s).2.rest.length < s.rest.length := by
  unfold recovering
  cases h : statement s with
  | ok parsed s' => exact hconsumes s s' parsed h
  | error e s' =>
      exact length_rest_resumed ((hgrows.of_error h).trans (s'.leads_record e)) hend

/-!
## Whole programs

One round of a loop over statements puts the statement, if there is one, in front
of those read before.
-/

theorem statementsIn_round {statement : Parser Stmt} (t : Located) (rounds : List Located)
    (read : List Stmt) (hbrace : s.isAt (.symbol .rightBrace) = false) (hend : s.atEnd = false) :
    statementsIn statement (t :: rounds) read s =
      statementsIn statement rounds ((recovering statement s).1.toList ++ read)
        (recovering statement s).2 := by
  rw [statementsIn, hbrace, hend]
  cases recovering statement s with
  | mk parsed? s' => cases parsed? <;> rfl

theorem topLevelIn_round (t : Located) (rounds : List Located) (read : List Stmt)
    (hbrace : s.isAt (.symbol .rightBrace) = false) (hend : s.atEnd = false) :
    topLevelIn (t :: rounds) read s =
      topLevelIn rounds ((recovering (statement maxNesting) s).1.toList ++ read)
        (recovering (statement maxNesting) s).2 := by
  rw [topLevelIn, hend, hbrace]
  cases recovering (statement maxNesting) s with
  | mk parsed? s' => cases parsed? <;> rfl

/-- With a round for every token the statements of a program end at the end of
the input. -/
theorem atEnd_topLevelIn {rounds : List Located} (read : List Stmt)
    (h : s.rest.length ≤ rounds.length) : (topLevelIn rounds read s).2.atEnd = true := by
  induction rounds generalizing read s with
  | nil =>
      have hnil : s.rest = [] := List.length_eq_zero_iff.mp (Nat.le_zero.mp h)
      rw [topLevelIn, ParseState.atEnd, ParseState.token?, hnil]
      rfl
  | cons t rounds ih =>
      rw [List.length_cons] at h
      by_cases hend : s.atEnd = true
      · rw [topLevelIn, if_pos hend]
        exact hend
      · have hopen : s.atEnd = false := Bool.eq_false_iff.mpr hend
        cases hbrace : s.isAt (.symbol .rightBrace) with
        | true =>
            have hless := length_rest_advance
              (s := s.record { span := s.span, fault := .unmatchedBrace }) hopen
            rw [topLevelIn, if_neg hend, if_pos hbrace]
            exact ih read (Nat.le_of_lt_succ (Nat.lt_of_lt_of_le hless h))
        | false =>
            have hless := length_rest_recovering (grows_statement maxNesting)
              (consumes_statement maxNesting) hopen
            rw [topLevelIn_round t rounds read hbrace hopen]
            exact ih _ (Nat.le_of_lt_succ (Nat.lt_of_lt_of_le hless h))

theorem program_ends (s : ParseState) :
    (program s).2.atEnd = true ∧ (program s).2.errors = [] := by
  have hend := atEnd_topLevelIn (s := s) [] (Nat.le_refl _)
  unfold program
  dsimp only
  split
  · next hnone => exact ⟨hend, List.isEmpty_iff.mp hnone⟩
  · exact ⟨hend, rfl⟩

theorem program_of_atEnd (hend : s.atEnd = true) (herrors : s.errors = []) :
    program s = (.ok { statements := [] }, s) := by
  have hrest : topLevelIn s.rest [] s = ([], s) := by
    cases s.rest with
    | nil => rfl
    | cons _ rounds => rw [topLevelIn, if_pos hend]; rfl
  unfold program
  rw [hrest]
  simp [herrors]

end Parser
end StackScript
