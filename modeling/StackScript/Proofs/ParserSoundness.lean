import StackScript.Proofs.Grammar
import StackScript.Proofs.Lexemes
import StackScript.Proofs.ParserSteps

/-!
# What is parsed is in the grammar

A parse that goes through without an error has consumed the tokens of the tree
that it built.  The proof follows the calls of the parser, by the room that is
left and the tightness of the form.
-/

namespace StackScript

open Grammar

namespace Parser

/-!
## Levels
-/

theorem operator?_eq_some_iff {n : Nat} {level : Level} {tighter : List Level}
    (h : precedence.drop n = level :: tighter) {t : Option Token} {op : BinaryOp} :
    level.operator? t = some op ↔ t = some (.symbol op.symbol) ∧ op.level = n := by
  have hlookup : ∀ s : Symbol, level.lookup s = some op ↔ s = op.symbol ∧ op.level = n := by
    intro s
    match n, h with
    | 0, h | 1, h | 2, h | 3, h | 4, h | 5, h =>
        cases h
        constructor
        · intro hs
          cases s <;> cases hs <;> exact ⟨rfl, rfl⟩
        · rintro ⟨rfl, hlevel⟩
          cases op <;> first | rfl | cases hlevel
    | n + 6, h => simp [precedence] at h
  cases t with
  | none => simp [Level.operator?]
  | some t =>
      cases t with
      | symbol s => simp [Level.operator?, hlookup]
      | _ => simp [Level.operator?]

theorem drop_precedence {n : Nat} {level : Level} {tighter : List Level}
    (h : precedence.drop n = level :: tighter) :
    n < tightest ∧ precedence.drop (n + 1) = tighter := by
  constructor
  · have hlength : (precedence.drop n).length = (level :: tighter).length := by rw [h]
    rw [List.length_drop, List.length_cons] at hlength
    have hsix : precedence.length = tightest := rfl
    omega
  · rw [← List.drop_drop, h]
    rfl

theorem unaryOperator?_eq_some_iff {t : Option Token} {op : UnaryOp} :
    unaryOperator? t = some op ↔ t = some (.symbol op.symbol) := by
  constructor
  · intro h
    cases t with
    | none => cases h
    | some t =>
        cases t with
        | symbol s => cases s <;> cases h <;> rfl
        | _ => cases h
  · rintro rfl
    cases op <;> rfl

theorem primaryForm_of_literal? {t : Token} {e : Expr} {rest : List Token}
    (h : literal? (some t) = some e) : PrimaryForm (t :: rest) e rest := by
  cases t with
  | integer value =>
      cases h
      exact .number
  | string text =>
      cases h
      exact .string
  | bool value =>
      cases h
      exact .bool
  | null =>
      cases h
      exact .null
  | _ => cases h

/-!
## Lists
-/

section Lists

variable {α : Type} {item : Parser α} {Item : List Token -> α -> List Token -> Prop}

theorem commaItems_eq_ok
    (hitem : ∀ {s s' x}, item s = .ok x s' -> Item s.tokens x s'.tokens)
    {rounds : List Located} {read items : List α} {s s' : ParseState}
    (h : commaItems item rounds read s = .ok items s') :
    items = read.reverse ∧ s' = s ∨
      ∃ ts xs, s.tokens = .symbol .comma :: ts ∧ Separated Item ts xs s'.tokens ∧
        items = read.reverse ++ xs := by
  induction rounds generalizing read s with
  | nil =>
      cases h
      exact Or.inl ⟨rfl, rfl⟩
  | cons _ rounds ih =>
      rw [commaItems, bind_eq_ok_iff] at h
      rcases h with ⟨found, s1, heat, h⟩
      rcases eat_eq_ok heat with ⟨rfl, hcomma, _⟩ | ⟨rfl, rfl, _⟩
      · rw [if_pos rfl, bind_eq_ok_iff] at h
        rcases h with ⟨x, s2, hx, h⟩
        refine Or.inr ⟨s1.tokens, ?_⟩
        rcases ih h with ⟨rfl, rfl⟩ | ⟨ts, xs, hts, hxs, rfl⟩
        · exact ⟨[x], hcomma, .one (hitem hx), by simp⟩
        · exact ⟨x :: xs, hcomma, .more (hts ▸ hitem hx) hxs, by simp⟩
      · cases h
        exact Or.inl ⟨rfl, rfl⟩

theorem parenthesized_eq_ok
    (hitem : ∀ {s s' x}, item s = .ok x s' -> Item s.tokens x s'.tokens) {closing : String}
    {items : List α} {s s' : ParseState} (h : parenthesized item closing s = .ok items s') :
    items = [] ∧ s.tokens = .symbol .rightParen :: s'.tokens ∨
      Separated Item s.tokens items (.symbol .rightParen :: s'.tokens) := by
  rw [parenthesized, isAt_bind] at h
  cases hat : s.isAt (.symbol .rightParen) with
  | true =>
      rw [hat] at h
      change (expect .rightParen closing >>= fun _ => pure []) s = _ at h
      rw [bind_eq_ok_iff] at h
      rcases h with ⟨_, s1, hexpect, h⟩
      cases h
      exact Or.inl ⟨rfl, (expect_eq_ok hexpect).1⟩
  | false =>
      rw [hat] at h
      change (commaSeparated item >>= fun items => expect .rightParen closing >>= fun _ =>
        pure items) s = _ at h
      simp only [commaSeparated, bind_eq_ok_iff] at h
      rcases h with ⟨items', s1, ⟨x, s2, hx, s2', s3, hget, hitems⟩, _, s4, hexpect, h⟩
      cases hget
      cases h
      refine Or.inr ?_
      rw [← (expect_eq_ok hexpect).1]
      rcases commaItems_eq_ok hitem hitems with ⟨rfl, rfl⟩ | ⟨ts, xs, hts, hxs, rfl⟩
      · exact .one (hitem hx)
      · exact .more (hts ▸ hitem hx) hxs

end Lists

/-!
## Expressions
-/

mutual

theorem expression_sound : ∀ (room : Nat) {s s' : ParseState} {e : Expr},
    expression room s = .ok e s' -> ExpressionForm s.tokens e s'.tokens
  | 0, s, s', e, h => by
      rw [expression] at h
      cases h
  | room + 1, s, s', e, h => by
      rw [expression] at h
      exact operand_sound precedence room rfl (Nat.zero_le _) h
termination_by room => (room, 0)

theorem operand_sound : ∀ (levels : List Level) (room : Nat) {n : Nat} {s s' : ParseState}
    {e : Expr}, precedence.drop n = levels -> n ≤ tightest -> operand levels room s = .ok e s' ->
    BinaryForm n s.tokens e s'.tokens
  | [], room, n, s, s', e, hlevels, hn, h => by
      rw [operand] at h
      have hlast : n = tightest :=
        Nat.le_antisymm hn (List.drop_eq_nil_iff.mp hlevels)
      rw [hlast]
      exact .unary (unary_sound room h)
  | level :: tighter, room, n, s, s', e, hlevels, hn, h => by
      rw [operand, bind_eq_ok_iff] at h
      rcases h with ⟨left, s1, hleft, hchain⟩
      rcases drop_precedence hlevels with ⟨hlt, htighter⟩
      have hform := operand_sound tighter room htighter hlt hleft
      exact chain_sound level tighter room hlevels (.tighter hlt hform) hchain
termination_by levels room => (room, 4 + levels.length)

/-- The chain goes on with a form that was consumed up to where it starts. -/
theorem chain_sound (level : Level) (tighter : List Level) (room : Nat) {n : Nat} {left e : Expr}
    {ts : List Token} {s s' : ParseState} (hlevels : precedence.drop n = level :: tighter)
    (hleft : BinaryForm n ts left s.tokens) (h : chain level tighter room left s = .ok e s') :
    BinaryForm n ts e s'.tokens := by
  cases hop : level.operator? s.token? with
  | none =>
      rw [chain_of_none hop] at h
      cases h
      exact hleft
  | some op =>
      rcases (operator?_eq_some_iff hlevels).mp hop with ⟨htoken, hlevel⟩
      rcases drop_precedence hlevels with ⟨hlt, htighter⟩
      cases room with
      | zero =>
          rw [chain_zero hop] at h
          cases h
      | succ room =>
          rw [chain_of_some hop, bind_eq_ok_iff] at h
          rcases h with ⟨right, s1, hright, hchain⟩
          have hformRight := operand_sound tighter room htighter hlt hright
          rw [ParseState.tokens_of_token? htoken] at hleft
          subst hlevel
          exact chain_sound level tighter room hlevels (.operation hleft hformRight) hchain
termination_by (room, 0)

theorem unary_sound (room : Nat) {s s' : ParseState} {e : Expr} (h : unary room s = .ok e s') :
    UnaryForm s.tokens e s'.tokens := by
  cases hop : unaryOperator? s.token? with
  | none =>
      rw [unary_of_none hop] at h
      exact .application (application_sound room h)
  | some op =>
      rw [ParseState.tokens_of_token? (unaryOperator?_eq_some_iff.mp hop)]
      cases room with
      | zero =>
          rw [unary_zero hop] at h
          cases h
      | succ room =>
          rw [unary_of_some hop, bind_eq_ok_iff] at h
          rcases h with ⟨inner, s1, hinner, h⟩
          cases h
          exact .operation (unary_sound room hinner)
termination_by (room, 3)

theorem application_sound (room : Nat) {s s' : ParseState} {e : Expr}
    (h : application room s = .ok e s') : ApplicationForm s.tokens e s'.tokens := by
  rw [application, bind_eq_ok_iff] at h
  rcases h with ⟨head, s1, hhead, hsuffixes⟩
  exact suffixes_sound room (.primary (primary_sound room hhead)) hsuffixes
termination_by (room, 2)

theorem suffixes_sound (room : Nat) {head e : Expr} {ts : List Token} {s s' : ParseState}
    (hhead : ApplicationForm ts head s.tokens) (h : suffixes room head s = .ok e s') :
    ApplicationForm ts e s'.tokens := by
  by_cases hcall : s.token? = some (.symbol .leftParen)
  · rw [ParseState.tokens_of_token? hcall] at hhead
    cases room with
    | zero =>
        rw [suffixes_zero (Or.inl hcall)] at h
        cases h
    | succ room =>
        rw [suffixes_of_call hcall, bind_eq_ok_iff] at h
        rcases h with ⟨args, s1, hargs, h⟩
        exact suffixes_sound room (.call hhead (arguments_sound room hargs)) h
  by_cases hfield : s.token? = some (.symbol .dot)
  · rw [ParseState.tokens_of_token? hfield] at hhead
    cases room with
    | zero =>
        rw [suffixes_zero (Or.inr hfield)] at h
        cases h
    | succ room =>
        rw [suffixes_of_field hfield, bind_eq_ok_iff] at h
        rcases h with ⟨field, s1, hname, h⟩
        rw [(identifier_eq_ok hname).1] at hhead
        exact suffixes_sound room (.field hhead) h
  · rw [suffixes_of_other hcall hfield] at h
    cases h
    exact hhead
termination_by (room, 0)

theorem arguments_sound (room : Nat) {args : List Expr} {s s' : ParseState}
    (h : arguments room s = .ok args s') :
    ArgumentsForm s.tokens args (.symbol .rightParen :: s'.tokens) := by
  rw [arguments, get_bind, bind_eq_ok_iff] at h
  rcases h with ⟨args', s1, hargs, h⟩
  by_cases hcount : args'.length ≤ maxArguments
  · rw [if_pos hcount] at h
    cases h
    rcases parenthesized_eq_ok (expression_sound room) hargs with ⟨rfl, hclose⟩ | hitems
    · rw [hclose]
      exact .none
    · exact .some (itemsForm_of_separated hitems)
  · rw [if_neg hcount] at h
    cases h
termination_by (room, 1)

theorem primary_sound (room : Nat) {s s' : ParseState} {e : Expr}
    (h : primary room s = .ok e s') : PrimaryForm s.tokens e s'.tokens := by
  cases hliteral : literal? s.token? with
  | some literal =>
      rw [primary_of_literal hliteral] at h
      cases h
      cases htoken : s.token? with
      | none =>
          rw [htoken] at hliteral
          cases hliteral
      | some t =>
          rw [htoken] at hliteral
          rw [ParseState.tokens_of_token? htoken]
          exact primaryForm_of_literal? hliteral
  | none =>
      by_cases hident : ∃ name, s.token? = some (.ident name)
      · rcases hident with ⟨name, hident⟩
        rw [primary_of_ident hident] at h
        cases h
        rw [ParseState.tokens_of_token? hident]
        exact @PrimaryForm.ident { id := s.advance.nextIdent, name := name, span := s.span }
          s.advance.tokens
      by_cases hparen : s.token? = some (.symbol .leftParen)
      · rw [primary_of_leftParen hparen, bind_eq_ok_iff] at h
        rcases h with ⟨inner, s1, hinner, h⟩
        rw [bind_eq_ok_iff] at h
        rcases h with ⟨_, s2, hclose, h⟩
        cases h
        rw [ParseState.tokens_of_token? hparen]
        have hform := expression_sound room hinner
        rw [(expect_eq_ok hclose).1] at hform
        exact .parenthesized hform
      · rw [primary_of_other (not_exists.mp hident) hparen hliteral] at h
        cases h
termination_by (room, 1)

end

/-!
## Statements

Errors are recorded and parsing goes on, so only a parse that ends without any
has to be in the grammar.
-/

/-- What the step builds without errors has the given form. -/
def SoundFor {α : Type} (step : Parser α) (Form : List Token -> α -> List Token -> Prop) : Prop :=
  ∀ {s s' : ParseState} {x : α}, step s = .ok x s' -> s'.errors = [] ->
    Form s.tokens x s'.tokens

section Statements

variable {room : Nat} {inside : Parser (List Stmt)} {s s' : ParseState} {x : Stmt}

theorem braced_sound (hinside : SoundFor inside StatementsForm) {context : String}
    {body : List Stmt} (h : braced inside context s = .ok body s') (herrors : s'.errors = []) :
    ∃ ts, s.tokens = .symbol .leftBrace :: ts ∧
      StatementsForm ts body (.symbol .rightBrace :: s'.tokens) := by
  simp only [braced, bind_eq_ok_iff] at h
  rcases h with ⟨_, s1, hopen, body', s2, hbody, _, s3, hclose, h⟩
  cases h
  rcases expect_eq_ok hopen with ⟨htokens, rfl⟩
  rcases expect_eq_ok hclose with ⟨htokens', rfl⟩
  rw [ParseState.errors_advance] at herrors
  have hform := hinside hbody herrors
  rw [htokens'] at hform
  exact ⟨_, htokens, hform⟩

theorem block_sound (hinside : SoundFor inside StatementsForm) (context : String) :
    SoundFor (block inside context) BlockForm := by
  intro s s' b h herrors
  simp only [block, bind_eq_ok_iff] at h
  rcases h with ⟨id, s1, hfresh, body, s2, hbraced, h⟩
  cases hfresh
  cases h
  rcases braced_sound hinside hbraced herrors with ⟨ts, htokens, hform⟩
  change BlockForm (ParseState.tokens { s with nextBlock := s.nextBlock + 1 }) _ _
  rw [htokens]
  exact .braces hform

theorem guarded_sound (hinside : SoundFor inside StatementsForm) (room : Nat) (word : String) :
    SoundFor (guarded room inside word) BranchForm := by
  intro s s' b h herrors
  simp only [guarded, bind_eq_ok_iff] at h
  rcases h with ⟨_, s1, hopen, condition, s2, hcondition, _, s3, hclose, body, s4, hbody, h⟩
  cases h
  rcases expect_eq_ok hopen with ⟨htokens, rfl⟩
  rcases expect_eq_ok hclose with ⟨htokens', rfl⟩
  have hform := expression_sound room hcondition
  rw [htokens'] at hform
  rw [htokens]
  exact .guarded hform (block_sound hinside _ hbody herrors)

theorem declaration_sound (htoken : s.token? = some (.keyword .varWord))
    (h : declaration room s = .ok x s') : StatementForm s.tokens x s'.tokens := by
  simp only [declaration, advance_bind, bind_eq_ok_iff] at h
  rcases h with ⟨name, s1, hname, _, s2, hassign, value, s3, hvalue, _, s4, hclose, h⟩
  cases h
  have hform := expression_sound room hvalue
  rw [(expect_eq_ok hclose).1] at hform
  rw [ParseState.tokens_of_token? htoken, (identifier_eq_ok hname).1, (expect_eq_ok hassign).1]
  exact .declare hform

theorem giveBack_sound (htoken : s.token? = some (.keyword .returnWord))
    (h : giveBack room s = .ok x s') : StatementForm s.tokens x s'.tokens := by
  rw [giveBack, get_bind, advance_bind, isAt_bind] at h
  rw [ParseState.tokens_of_token? htoken]
  cases hat : s.advance.isAt (.symbol .semicolon) with
  | true =>
      rw [hat] at h
      change (expect .semicolon _ >>= fun _ => pure (Stmt.giveBack .null s.span)) s.advance
        = _ at h
      rw [bind_eq_ok_iff] at h
      rcases h with ⟨_, s1, hclose, h⟩
      cases h
      rw [(expect_eq_ok hclose).1]
      exact .giveBackNull
  | false =>
      rw [hat] at h
      change (expression room >>= fun value => expect .semicolon _ >>= fun _ =>
        pure (Stmt.giveBack value s.span)) s.advance = _ at h
      simp only [bind_eq_ok_iff] at h
      rcases h with ⟨value, s1, hvalue, _, s2, hclose, h⟩
      cases h
      have hform := expression_sound room hvalue
      rw [(expect_eq_ok hclose).1] at hform
      exact .giveBack hform

theorem function_sound (hinside : SoundFor inside StatementsForm)
    (htoken : s.token? = some (.keyword .fnWord)) (h : function inside s = .ok x s')
    (herrors : s'.errors = []) : StatementForm s.tokens x s'.tokens := by
  simp only [function, advance_bind, bind_eq_ok_iff] at h
  rcases h with ⟨name, s1, hname, _, s2, hopen, params, s3, hparams, h⟩
  rcases expect_eq_ok hopen with ⟨htokens, rfl⟩
  by_cases hcount : params.length ≤ maxArguments
  · rw [if_pos hcount, bind_eq_ok_iff] at h
    rcases h with ⟨body, s4, hbraced, h⟩
    cases h
    rcases braced_sound hinside hbraced herrors with ⟨ts, htokens', hform⟩
    have hlist : params = [] ∧ _ ∨ Separated NameForm _ params _ :=
      parenthesized_eq_ok (fun h => (identifier_eq_ok h).1) hparams
    rw [htokens'] at hlist
    rw [ParseState.tokens_of_token? htoken, (identifier_eq_ok hname).1, htokens]
    rcases hlist with ⟨rfl, hclose⟩ | hlist
    · rw [hclose]
      exact .function .none hform
    · exact .function (.some hlist) hform
  · rw [if_neg hcount] at h
    cases h

theorem alternatives_sound (hgrows : Grows inside) (hinside : SoundFor inside StatementsForm)
    {rounds : List Located} {read branches : List Branch} {otherwise : Option Block}
    (h : alternatives room inside rounds read s = .ok (branches, otherwise) s')
    (herrors : s'.errors = []) :
    ∃ others, branches = read.reverse ++ others ∧
      AlternativesForm s.tokens others otherwise s'.tokens := by
  induction rounds generalizing read s with
  | nil =>
      cases h
      exact ⟨[], (List.append_nil _).symm, .none⟩
  | cons _ rounds ih =>
      rw [alternatives, bind_eq_ok_iff] at h
      rcases h with ⟨found, s1, helse, h⟩
      rcases eat_eq_ok helse with ⟨rfl, htokens, rfl⟩ | ⟨rfl, rfl, _⟩
      · rw [if_pos rfl, bind_eq_ok_iff] at h
        rcases h with ⟨found, s2, hif, h⟩
        rw [htokens]
        rcases eat_eq_ok hif with ⟨rfl, htokens', rfl⟩ | ⟨rfl, rfl, _⟩
        · rw [if_pos rfl, bind_eq_ok_iff] at h
          rcases h with ⟨first, s3, hfirst, h⟩
          have hrest := (grows_alternatives room hgrows rounds (first :: read)).of_ok h
          have hform := guarded_sound hinside room _ hfirst (hrest.errors_eq_nil herrors)
          rcases ih h with ⟨others, rfl, hothers⟩
          refine ⟨first :: others, by simp, ?_⟩
          rw [htokens']
          exact .branch hform hothers
        · rw [if_neg Bool.false_ne_true, bind_eq_ok_iff] at h
          rcases h with ⟨body, s3, hbody, h⟩
          cases h
          exact ⟨[], (List.append_nil _).symm, .otherwise (block_sound hinside _ hbody herrors)⟩
      · rw [if_neg Bool.false_ne_true] at h
        cases h
        exact ⟨[], (List.append_nil _).symm, .none⟩

theorem choice_sound (hgrows : Grows inside) (hinside : SoundFor inside StatementsForm)
    (htoken : s.token? = some (.keyword .ifWord)) (h : choice room inside s = .ok x s')
    (herrors : s'.errors = []) : StatementForm s.tokens x s'.tokens := by
  rw [choice, advance_bind, bind_eq_ok_iff] at h
  rcases h with ⟨first, s1, hfirst, h⟩
  rw [get_bind, bind_eq_ok_iff] at h
  rcases h with ⟨⟨branches, otherwise⟩, s2, hothers, h⟩
  cases h
  have hrest := (grows_alternatives room hgrows _ _).of_ok hothers
  have hform := guarded_sound hinside room _ hfirst (hrest.errors_eq_nil herrors)
  rcases alternatives_sound hgrows hinside hothers herrors with ⟨others, rfl, hforms⟩
  rw [ParseState.tokens_of_token? htoken]
  exact .choose hform hforms

theorem loop_sound (hinside : SoundFor inside StatementsForm)
    (htoken : s.token? = some (.keyword .whileWord)) (h : loop room inside s = .ok x s')
    (herrors : s'.errors = []) : StatementForm s.tokens x s'.tokens := by
  rw [loop, advance_bind, bind_eq_ok_iff] at h
  rcases h with ⟨⟨condition, body⟩, s1, hbranch, h⟩
  cases h
  rw [ParseState.tokens_of_token? htoken]
  exact .loop (guarded_sound hinside room _ hbranch herrors)

theorem assignmentOrExpression_sound (h : assignmentOrExpression room s = .ok x s') :
    StatementForm s.tokens x s'.tokens := by
  rw [assignmentOrExpression, get_bind, bind_eq_ok_iff] at h
  rcases h with ⟨first, s1, hfirst, h⟩
  rw [bind_eq_ok_iff] at h
  rcases h with ⟨found, s2, hassign, h⟩
  have hform := expression_sound room hfirst
  rcases eat_eq_ok hassign with ⟨rfl, htokens, rfl⟩ | ⟨rfl, rfl, _⟩
  · rw [htokens] at hform
    have hvalue : ∀ {assigned : Expr -> Stmt}, (expression room >>= fun value =>
        expect .semicolon "';' after assignment" >>= fun _ => pure (assigned value)) s1.advance
          = .ok x s' ->
        ∃ value, x = assigned value ∧
          ExpressionForm s1.advance.tokens value (.symbol .semicolon :: s'.tokens) := by
      intro assigned h
      simp only [bind_eq_ok_iff] at h
      rcases h with ⟨value, s2, hvalue, _, s3, hclose, h⟩
      cases h
      refine ⟨value, rfl, ?_⟩
      rw [← (expect_eq_ok hclose).1]
      exact expression_sound room hvalue
    cases first with
    | ident name =>
        rcases hvalue h with ⟨value, rfl, hright⟩
        exact .assign hform hright
    | field receiver field =>
        rcases hvalue h with ⟨value, rfl, hright⟩
        exact .assignField hform hright
    | _ => cases h
  · rw [if_neg Bool.false_ne_true, bind_eq_ok_iff] at h
    rcases h with ⟨_, s3, hclose, h⟩
    cases h
    rw [(expect_eq_ok hclose).1] at hform
    exact .evaluate hform

theorem statementForm_sound (hgrows : Grows inside) (hinside : SoundFor inside StatementsForm)
    (room : Nat) : SoundFor (statementForm room inside) StatementForm := by
  intro s s' x h herrors
  rw [statementForm, get_bind] at h
  cases htoken : s.token? with
  | none =>
      rw [htoken] at h
      exact assignmentOrExpression_sound h
  | some t =>
      rw [htoken] at h
      cases t with
      | keyword word =>
          cases word with
          | varWord => exact declaration_sound htoken h
          | fnWord => exact function_sound hinside htoken h herrors
          | ifWord => exact choice_sound hgrows hinside htoken h herrors
          | whileWord => exact loop_sound hinside htoken h herrors
          | returnWord => exact giveBack_sound htoken h
          | elseWord => exact assignmentOrExpression_sound h
      | symbol symbol =>
          cases symbol with
          | leftBrace =>
              change (block inside _ >>= fun body => pure (Stmt.block body)) s = _ at h
              rw [bind_eq_ok_iff] at h
              rcases h with ⟨body, s1, hbody, h⟩
              cases h
              exact .block (block_sound hinside _ hbody herrors)
          | _ => exact assignmentOrExpression_sound h
      | _ => exact assignmentOrExpression_sound h

theorem errors_of_recovering {statement : Parser Stmt} (h : recovering statement s = (none, s')) :
    s'.errors ≠ [] := by
  intro herrors
  unfold recovering at h
  cases hstatement : statement s with
  | ok parsed s1 =>
      rw [hstatement] at h
      cases h
  | error e s1 =>
      rw [hstatement] at h
      cases h
      have hleads : (s1.record e).Leads (resumed s (s1.record e)) := leads_resumed (.refl _)
      exact List.cons_ne_nil _ _ (hleads.errors_eq_nil herrors)

theorem recovering_eq_some {statement : Parser Stmt}
    (h : recovering statement s = (some x, s')) : statement s = .ok x s' := by
  unfold recovering at h
  cases hstatement : statement s with
  | ok parsed s1 =>
      rw [hstatement] at h
      cases h
      rfl
  | error e s1 =>
      rw [hstatement] at h
      cases h

end Statements

/-!
## Lists of statements
-/

inductive ReadAll (statement : Parser Stmt) : ParseState -> List Stmt -> ParseState -> Prop where
  | nil {s : ParseState} : ReadAll statement s [] s
  | cons {s s1 s' : ParseState} {x : Stmt} {rest : List Stmt} (hfirst : statement s = .ok x s1)
      (hrest : ReadAll statement s1 rest s') : ReadAll statement s (x :: rest) s'

section ReadAll

variable {statement : Parser Stmt} {s s' : ParseState} {body : List Stmt}

theorem ReadAll.leads (hgrows : Grows statement) (h : ReadAll statement s body s') :
    s.Leads s' := by
  induction h with
  | nil => exact .refl _
  | cons hfirst _ ih => exact (hgrows.of_ok hfirst).trans ih

theorem ReadAll.sound (hgrows : Grows statement) (hstatement : SoundFor statement StatementForm)
    (h : ReadAll statement s body s') (herrors : s'.errors = []) :
    StatementsForm s.tokens body s'.tokens := by
  induction h with
  | nil => exact .nil
  | cons hfirst hrest ih =>
      exact .cons (hstatement hfirst ((hrest.leads hgrows).errors_eq_nil herrors)) (ih herrors)

/-- Without errors no statement was given up. -/
theorem readAll_of_statementsIn (hgrows : Grows statement) {rounds : List Located}
    {read : List Stmt} (h : statementsIn statement rounds read s = (body, s'))
    (herrors : s'.errors = []) :
    ∃ more, body = read.reverse ++ more ∧ ReadAll statement s more s' := by
  induction rounds generalizing read s with
  | nil =>
      cases h
      exact ⟨[], (List.append_nil _).symm, .nil⟩
  | cons _ rounds ih =>
      rw [statementsIn] at h
      by_cases hstop : (s.isAt (.symbol .rightBrace) || s.atEnd) = true
      · rw [if_pos hstop] at h
        cases h
        exact ⟨[], (List.append_nil _).symm, .nil⟩
      · rw [if_neg hstop] at h
        cases hrecovering : recovering statement s with
        | mk parsed? s1 =>
            rw [hrecovering] at h
            cases parsed? with
            | none =>
                change statementsIn statement rounds read s1 = _ at h
                have hrest := leads_statementsIn hgrows rounds read s1
                rw [h] at hrest
                exact absurd (hrest.errors_eq_nil herrors) (errors_of_recovering hrecovering)
            | some parsed =>
                rcases ih h with ⟨more, rfl, hmore⟩
                exact ⟨parsed :: more, by simp, .cons (recovering_eq_some hrecovering) hmore⟩

theorem statements_sound (hgrows : Grows statement)
    (hstatement : SoundFor statement StatementForm) :
    SoundFor (statements statement) StatementsForm := by
  intro s s' body h herrors
  unfold statements at h
  cases hin : statementsIn statement s.rest [] s with
  | mk parsed s1 =>
      rw [hin] at h
      cases h
      rcases readAll_of_statementsIn hgrows hin herrors with ⟨more, rfl, hmore⟩
      exact hmore.sound hgrows hstatement herrors

end ReadAll

theorem statement_sound (room : Nat) : SoundFor (statement room) StatementForm := by
  induction room with
  | zero =>
      refine statementForm_sound (grows_fail _) ?_ 0
      intro s s' body h
      cases h
  | succ room ih =>
      exact statementForm_sound (grows_statements (grows_statement room))
        (statements_sound (grows_statement room) ih) (room + 1)

/-!
## Programs
-/

/-- Every statement uses up a token, so as many rounds as there are tokens lead
to the end of the input. -/
theorem readAll_of_topLevelIn {s s' : ParseState} {rounds : List Located} {read body : List Stmt}
    (h : topLevelIn rounds read s = (body, s')) (herrors : s'.errors = []) :
    ∃ more, body = read.reverse ++ more ∧ ReadAll (statement maxNesting) s more s' ∧
      (s.tokens.length ≤ rounds.length -> s'.atEnd = true) := by
  induction rounds generalizing read s with
  | nil =>
      cases h
      refine ⟨[], (List.append_nil _).symm, .nil, fun hlength => ?_⟩
      have hnil : s'.tokens = [] := List.eq_nil_of_length_eq_zero (Nat.le_zero.mp hlength)
      rw [ParseState.atEnd, ParseState.token?_eq, hnil]
      rfl
  | cons _ rounds ih =>
      rw [topLevelIn] at h
      by_cases hend : s.atEnd = true
      · rw [if_pos hend] at h
        cases h
        exact ⟨[], (List.append_nil _).symm, .nil, fun _ => hend⟩
      · rw [if_neg hend] at h
        by_cases hbrace : s.isAt (.symbol .rightBrace) = true
        · rw [if_pos hbrace] at h
          have hrest := leads_topLevelIn rounds read
            (s.record { span := s.span, fault := .unmatchedBrace }).advance
          rw [h] at hrest
          have hnone := hrest.errors_eq_nil herrors
          rw [ParseState.errors_advance] at hnone
          cases hnone
        · rw [if_neg hbrace] at h
          cases hrecovering : recovering (statement maxNesting) s with
          | mk parsed? s1 =>
              rw [hrecovering] at h
              cases parsed? with
              | none =>
                  change topLevelIn rounds read s1 = _ at h
                  have hrest := leads_topLevelIn rounds read s1
                  rw [h] at hrest
                  exact absurd (hrest.errors_eq_nil herrors) (errors_of_recovering hrecovering)
              | some parsed =>
                  have hparsed := recovering_eq_some hrecovering
                  rcases ih h with ⟨more, rfl, hmore, hdone⟩
                  refine ⟨parsed :: more, by simp, .cons hparsed hmore, fun hlength => hdone ?_⟩
                  have hnone := (hmore.leads (grows_statement maxNesting)).errors_eq_nil herrors
                  have hless := (statement_sound maxNesting hparsed hnone).length_lt
                  rw [List.length_cons] at hlength
                  omega

theorem readAll_of_program {s : ParseState} {p : Program} (h : (program s).1 = .ok p) :
    ∃ s' : ParseState, ReadAll (statement maxNesting) s p.statements s' ∧ s'.errors = [] ∧
      s'.atEnd = true := by
  unfold program at h
  cases htop : topLevelIn s.rest [] s with
  | mk parsed s' =>
      rw [htop] at h
      dsimp only at h
      by_cases herrors : s'.errors.isEmpty = true
      · rw [if_pos herrors] at h
        cases h
        have hnone := List.isEmpty_iff.mp herrors
        rcases readAll_of_topLevelIn htop hnone with ⟨more, rfl, hmore, hdone⟩
        exact ⟨s', hmore, hnone, hdone (Nat.le_of_eq (List.length_map _))⟩
      · rw [if_neg herrors] at h
        cases h

theorem program_sound {s : ParseState} {p : Program} (h : (program s).1 = .ok p) :
    ∃ s' : ParseState, StatementsForm s.tokens p.statements s'.tokens ∧ s'.atEnd = true := by
  rcases readAll_of_program h with ⟨s', hread, herrors, hend⟩
  exact ⟨s', hread.sound (grows_statement maxNesting) (statement_sound maxNesting) herrors, hend⟩

end Parser

/-- The tokens that matter end with the end of the input, which comes once. -/
theorem tokenize_significant {source : String} {tokens : List Located}
    (h : tokenize source = .ok tokens) :
    ∃ body, (ParseState.ofTokens tokens).tokens = body ++ [.endOfInput] ∧ .endOfInput ∉ body := by
  rcases (partition_of_tokenize h).ends with ⟨body, last, rfl, hlast, hbody⟩
  refine ⟨(body.filter (·.token.isSignificant)).map (·.token), ?_, ?_⟩
  · have hkept : [last].filter (·.token.isSignificant) = [last] := by
      rw [List.filter_cons_of_pos (by rw [hlast]; rfl), List.filter_nil]
    rw [ParseState.tokens, ParseState.ofTokens, List.filter_append, hkept, List.map_append,
      List.map_singleton, hlast]
  · intro hmem
    rcases List.mem_map.mp hmem with ⟨t, ht, hend⟩
    exact hbody t (List.mem_filter.mp ht).1 hend

namespace Program

/-- A parse that ends without errors leaves the end of the input and nothing
else. -/
theorem tokens_eq_of_atEnd {body : List Token} {statements : List Stmt} {s : ParseState}
    (hform : StatementsForm (body ++ [.endOfInput]) statements s.tokens)
    (hend : s.atEnd = true) (hbody : .endOfInput ∉ body) : s.tokens = [.endOfInput] := by
  have hconsumed := consumed_of_statements hform
  rw [ParseState.atEnd, ParseState.token?_eq] at hend
  cases hrest : s.tokens with
  | nil => exact absurd hrest hconsumed.ne_nil
  | cons t more =>
      rw [hrest] at hend hconsumed
      have ht : t = .endOfInput := of_decide_eq_true hend
      rw [ht] at hconsumed ⊢
      -- no form consumes the end of the input
      rw [hconsumed.eq_of_endOfInput hbody]

theorem programForm_of_ofTokens {tokens : List Located} {body : List Token} {p : Program}
    (htokens : (ParseState.ofTokens tokens).tokens = body ++ [.endOfInput])
    (hbody : .endOfInput ∉ body) (h : ofTokens tokens = .ok p) :
    ProgramForm (body ++ [.endOfInput]) p := by
  rcases Parser.program_sound h with ⟨s', hform, hend⟩
  rw [htokens] at hform
  rw [tokens_eq_of_atEnd hform hend hbody] at hform
  exact hform

end Program
end StackScript
