import StackScript.Proofs.ParserSoundness
import StackScript.Proofs.SourceMarks

/-!
# Marks of a parse

A parse that ends without errors takes every mark of the source into the tree, in
source order and with the next free number of its kind, so no two names share a
number.  It also keeps the arguments of calls and the parameters of functions few
enough to be counted in a byte.
-/

namespace StackScript

/-!
## Counts of a tree
-/

mutual

def Expr.CallsFit : Expr -> Prop
  | .call callee arguments _ =>
      arguments.length ≤ maxArguments ∧ callee.CallsFit ∧ CallsFitIn arguments
  | .unary _ operand _ => operand.CallsFit
  | .binary _ left right _ => left.CallsFit ∧ right.CallsFit
  | .field receiver _ => receiver.CallsFit
  | .ident _ | .string _ | .number _ | .bool _ | .null => True

def CallsFitIn : List Expr -> Prop
  | [] => True
  | e :: rest => e.CallsFit ∧ CallsFitIn rest

end

mutual

def Stmt.CountsFit : Stmt -> Prop
  | .declare _ value => value.CallsFit
  | .assign _ value => value.CallsFit
  | .assignField receiver _ value => receiver.CallsFit ∧ value.CallsFit
  | .function _ params body => params.length ≤ maxArguments ∧ CountsFitAll body
  | .choose branches none => CountsFitBranches branches
  | .choose branches (some otherwise) => CountsFitBranches branches ∧ otherwise.CountsFit
  | .loop condition body => condition.CallsFit ∧ body.CountsFit
  | .giveBack value _ => value.CallsFit
  | .evaluate value => value.CallsFit
  | .block body => body.CountsFit

def Block.CountsFit : Block -> Prop
  | { statements, .. } => CountsFitAll statements

def CountsFitAll : List Stmt -> Prop
  | [] => True
  | s :: rest => s.CountsFit ∧ CountsFitAll rest

def CountsFitBranches : List Branch -> Prop
  | [] => True
  | { condition, body } :: rest =>
      condition.CallsFit ∧ body.CountsFit ∧ CountsFitBranches rest

end

theorem callsFitIn_iff {es : List Expr} : CallsFitIn es ↔ ∀ e ∈ es, e.CallsFit := by
  induction es with
  | nil => simp [CallsFitIn]
  | cons e rest ih => rw [CallsFitIn, ih, List.forall_mem_cons]

/-!
## Marks still to be read
-/

namespace ParseState

variable {s s' : ParseState} {header : Bool}

def marks (s : ParseState) (header : Bool) : List Mark :=
  numberMarks s.nextIdent s.nextBlock header s.rest

theorem marks_of_ident {name : String} (h : s.token? = some (.ident name)) :
    s.marks header = .name { id := s.advance.nextIdent, name, span := s.span } ::
      marks { s.advance with nextIdent := s.advance.nextIdent + 1 } header := by
  rcases s with ⟨rest, last, errors, nextBlock, nextIdent⟩
  cases rest with
  | nil => cases h
  | cons first others =>
      rcases first with ⟨token, span⟩
      cases h
      rfl

theorem marks_of_fnWord (h : s.token? = some (.keyword .fnWord)) :
    s.marks header = s.advance.marks true := by
  rcases s with ⟨rest, last, errors, nextBlock, nextIdent⟩
  cases rest with
  | nil => cases h
  | cons first others =>
      rcases first with ⟨token, span⟩
      cases h
      rfl

theorem marks_of_leftBrace (h : s.token? = some (.symbol .leftBrace)) :
    s.marks true = .body :: s.advance.marks false ∧
      s.marks false =
        .block s.nextBlock :: (advance { s with nextBlock := s.nextBlock + 1 }).marks false := by
  rcases s with ⟨rest, last, errors, nextBlock, nextIdent⟩
  cases rest with
  | nil => cases h
  | cons first others =>
      rcases first with ⟨token, span⟩
      cases h
      exact ⟨rfl, rfl⟩

theorem marks_advance (h : ∀ t, s.token? = some t -> t.isMark = false) :
    s.advance.marks header = s.marks header := by
  rcases s with ⟨rest, last, errors, nextBlock, nextIdent⟩
  cases rest with
  | nil => rfl
  | cons first others => exact (numberMarks_of_not_isMark (h _ rfl) _ _ _ _).symm

theorem marks_advance_of_token {t : Token} (h : s.token? = some t) (ht : t.isMark = false) :
    s.advance.marks header = s.marks header := by
  apply marks_advance
  intro t' ht'
  cases h.symm.trans ht'
  exact ht

theorem marks_advance_of_some {β : Type} {found? : Option Token -> Option β} {x : β}
    (h : found? s.token? = some x) (hfound : ∀ t, t.isMark = true -> found? (some t) = none) :
    s.advance.marks header = s.marks header := by
  apply marks_advance
  intro t ht
  rw [Bool.eq_false_iff]
  intro hmark
  rw [ht, hfound t hmark] at h
  cases h

theorem marks_of_endOfInput (h : s.tokens = [.endOfInput]) : s.marks header = [] := by
  rcases List.map_eq_singleton_iff.mp h with ⟨t, hrest, ht⟩
  have hmark : t.token.isMark = false := by
    rw [ht]
    rfl
  rw [marks, hrest, numberMarks_of_not_isMark hmark, numberMarks]

end ParseState

namespace Parser

open ParseState

variable {header : Bool}

theorem marks_of_identifier {what : String} {s s' : ParseState} {x : Identifier}
    (h : identifier what s = .ok x s') : s.marks header = .name x :: s'.marks header := by
  rw [identifier, get_bind] at h
  cases htoken : s.token? with
  | none =>
      rw [htoken] at h
      cases h
  | some t =>
      rw [htoken] at h
      cases t with
      | ident name =>
          cases h
          exact marks_of_ident htoken
      | _ => cases h

theorem marks_of_expect {symbol : Symbol} {what : String} {s s' : ParseState} {u : Unit}
    (h : expect symbol what s = .ok u s') (hsymbol : (Token.symbol symbol).isMark = false) :
    s'.marks header = s.marks header := by
  rcases expect_eq_ok h with ⟨htokens, rfl⟩
  exact marks_advance_of_token (token?_of_tokens htokens) hsymbol

theorem marks_of_eat {t : Token} {s s' : ParseState} {eaten : Bool} (h : eat t s = .ok eaten s')
    (ht : t.isMark = false) : s'.marks header = s.marks header := by
  rcases eat_eq_ok h with ⟨_, htokens, rfl⟩ | ⟨_, rfl, _⟩
  · exact marks_advance_of_token (token?_of_tokens htokens) ht
  · rfl

/-!
## Lists
-/

section Lists

variable {α : Type} {item : Parser α} {parts : α -> List Mark} {Fits : α -> Prop}
  (hitem : ∀ {s s' x}, item s = .ok x s' -> s.marks header = parts x ++ s'.marks header ∧ Fits x)

include hitem

theorem marks_of_commaItems {rounds : List Located} {read items : List α} {s s' : ParseState}
    (h : commaItems item rounds read s = .ok items s') :
    ∃ more, items = read.reverse ++ more ∧ s.marks header = more.flatMap parts ++ s'.marks header ∧
      ∀ x ∈ more, Fits x := by
  induction rounds generalizing read s with
  | nil =>
      cases h
      exact ⟨[], (List.append_nil _).symm, rfl, List.forall_mem_nil _⟩
  | cons _ rounds ih =>
      rw [commaItems, bind_eq_ok_iff] at h
      rcases h with ⟨found, s1, heat, h⟩
      have hcomma : s1.marks header = s.marks header := marks_of_eat heat rfl
      rcases eat_eq_ok heat with ⟨rfl, _, _⟩ | ⟨rfl, rfl, _⟩
      · rw [if_pos rfl, bind_eq_ok_iff] at h
        rcases h with ⟨x, s2, hx, h⟩
        rcases hitem hx with ⟨hmarks, hfits⟩
        rcases ih h with ⟨more, rfl, hmore, hall⟩
        refine ⟨x :: more, by simp, ?_, List.forall_mem_cons.mpr ⟨hfits, hall⟩⟩
        rw [← hcomma, hmarks, hmore, List.flatMap_cons, List.append_assoc]
      · cases h
        exact ⟨[], (List.append_nil _).symm, rfl, List.forall_mem_nil _⟩

theorem marks_of_parenthesized {closing : String} {items : List α} {s s' : ParseState}
    (h : parenthesized item closing s = .ok items s') :
    s.marks header = items.flatMap parts ++ s'.marks header ∧ ∀ x ∈ items, Fits x := by
  rw [parenthesized, isAt_bind] at h
  cases hat : s.isAt (.symbol .rightParen) with
  | true =>
      rw [hat] at h
      change (expect .rightParen closing >>= fun _ => pure []) s = _ at h
      rw [bind_eq_ok_iff] at h
      rcases h with ⟨_, s1, hexpect, h⟩
      cases h
      exact ⟨(marks_of_expect hexpect rfl).symm, List.forall_mem_nil _⟩
  | false =>
      rw [hat] at h
      change (commaSeparated item >>= fun items => expect .rightParen closing >>= fun _ =>
        pure items) s = _ at h
      simp only [commaSeparated, bind_eq_ok_iff] at h
      rcases h with ⟨items', s1, ⟨x, s2, hx, s2', s3, hget, hitems⟩, _, s4, hexpect, h⟩
      cases hget
      cases h
      rcases hitem hx with ⟨hmarks, hfits⟩
      rcases marks_of_commaItems hitem hitems with ⟨more, rfl, hmore, hall⟩
      refine ⟨?_, List.forall_mem_cons.mpr ⟨hfits, hall⟩⟩
      rw [hmarks, hmore, marks_of_expect hexpect rfl]
      simp

end Lists

/-!
## Expressions
-/

theorem marksOfExprs_eq (es : List Expr) : marksOfExprs es = es.flatMap Expr.marks := by
  induction es with
  | nil => rfl
  | cons e rest ih => rw [marksOfExprs, ih, List.flatMap_cons]

/-- The marks between two states of a parse are those of the expression, whose
calls fit. -/
def Spans (s : ParseState) (e : Expr) (s' : ParseState) : Prop :=
  s.marks false = e.marks ++ s'.marks false ∧ e.CallsFit

section Spans

variable {start s s' : ParseState} {left right : Expr}

theorem Spans.binary (hleft : Spans start left s) (hadvance : s.advance.marks false = s.marks false)
    (hright : Spans s.advance right s') (op : BinaryOp) (span : Span) :
    Spans start (.binary op left right span) s' := by
  refine ⟨?_, hleft.2, hright.2⟩
  rw [hleft.1, ← hadvance, hright.1, Expr.marks, List.append_assoc]

theorem Spans.call (hcallee : Spans start left s) (hadvance : s.advance.marks false = s.marks false)
    {args : List Expr} (hargs : s.advance.marks false = marksOfExprs args ++ s'.marks false)
    (hcount : args.length ≤ maxArguments) (hfits : CallsFitIn args) (span : Span) :
    Spans start (.call left args span) s' := by
  refine ⟨?_, hcount, hcallee.2, hfits⟩
  rw [hcallee.1, ← hadvance, hargs, Expr.marks, List.append_assoc]

theorem Spans.field (hreceiver : Spans start left s)
    (hadvance : s.advance.marks false = s.marks false) {field : Identifier}
    (hfield : s.advance.marks false = .name field :: s'.marks false) :
    Spans start (.field left field) s' := by
  refine ⟨?_, hreceiver.2⟩
  rw [hreceiver.1, ← hadvance, hfield, Expr.marks, List.append_assoc]
  rfl

end Spans

theorem literal?_of_isMark {t : Token} (h : t.isMark = true) : literal? (some t) = none := by
  rcases t.eq_of_isMark h with ⟨name, rfl⟩ | rfl | rfl <;> rfl

theorem unaryOperator?_of_isMark {t : Token} (h : t.isMark = true) :
    unaryOperator? (some t) = none := by
  rcases t.eq_of_isMark h with ⟨name, rfl⟩ | rfl | rfl <;> rfl

theorem operator?_of_isMark {level : Level} (hlevel : level.lookup .leftBrace = none) {t : Token}
    (h : t.isMark = true) : level.operator? (some t) = none := by
  rcases t.eq_of_isMark h with ⟨name, rfl⟩ | rfl | rfl
  · rfl
  · rfl
  · exact hlevel

theorem spans_of_literal? {s : ParseState} {e : Expr} (h : literal? s.token? = some e) :
    Spans s e s.advance := by
  rw [Spans, marks_advance_of_some h fun _ => literal?_of_isMark]
  cases htoken : s.token? with
  | none =>
      rw [htoken] at h
      cases h
  | some t =>
      rw [htoken] at h
      cases t <;> cases h <;> exact ⟨rfl, trivial⟩

mutual

theorem expression_spans : ∀ (room : Nat) {s s' : ParseState} {e : Expr},
    expression room s = .ok e s' -> Spans s e s'
  | 0, s, s', e, h => by
      rw [expression] at h
      cases h
  | room + 1, s, s', e, h => by
      rw [expression] at h
      exact operand_spans precedence room (by decide) h
termination_by room => (room, 0)

theorem operand_spans : ∀ (levels : List Level) (room : Nat) {s s' : ParseState} {e : Expr},
    (∀ level ∈ levels, level.lookup .leftBrace = none) -> operand levels room s = .ok e s' ->
      Spans s e s'
  | [], room, s, s', e, _, h => by
      rw [operand] at h
      exact unary_spans room h
  | level :: tighter, room, s, s', e, hlevels, h => by
      rw [operand, bind_eq_ok_iff] at h
      rw [List.forall_mem_cons] at hlevels
      rcases h with ⟨left, s1, hleft, hchain⟩
      exact chain_spans level tighter room hlevels (operand_spans tighter room hlevels.2 hleft)
        hchain
termination_by levels room => (room, 4 + levels.length)

theorem chain_spans (level : Level) (tighter : List Level) (room : Nat) {left e : Expr}
    {start s s' : ParseState}
    (hlevels : level.lookup .leftBrace = none ∧
      ∀ level ∈ tighter, level.lookup .leftBrace = none)
    (hleft : Spans start left s)
    (h : chain level tighter room left s = .ok e s') : Spans start e s' := by
  cases hop : level.operator? s.token? with
  | none =>
      rw [chain_of_none hop] at h
      cases h
      exact hleft
  | some op =>
      cases room with
      | zero =>
          rw [chain_zero hop] at h
          cases h
      | succ room =>
          rw [chain_of_some hop, bind_eq_ok_iff] at h
          rcases h with ⟨right, s1, hright, hchain⟩
          have hadvance : s.advance.marks false = s.marks false :=
            marks_advance_of_some hop fun _ => operator?_of_isMark hlevels.1
          have hboth := hleft.binary hadvance (operand_spans tighter room hlevels.2 hright) op
            s.span
          exact chain_spans level tighter room hlevels hboth hchain
termination_by (room, 0)

theorem unary_spans (room : Nat) {s s' : ParseState} {e : Expr} (h : unary room s = .ok e s') :
    Spans s e s' := by
  cases hop : unaryOperator? s.token? with
  | none =>
      rw [unary_of_none hop] at h
      exact application_spans room h
  | some op =>
      cases room with
      | zero =>
          rw [unary_zero hop] at h
          cases h
      | succ room =>
          rw [unary_of_some hop, bind_eq_ok_iff] at h
          rcases h with ⟨inner, s1, hinner, h⟩
          cases h
          rw [Spans, ← marks_advance_of_some hop fun _ => unaryOperator?_of_isMark, Expr.marks]
          exact unary_spans room hinner
termination_by (room, 3)

theorem application_spans (room : Nat) {s s' : ParseState} {e : Expr}
    (h : application room s = .ok e s') : Spans s e s' := by
  rw [application, bind_eq_ok_iff] at h
  rcases h with ⟨head, s1, hhead, hsuffixes⟩
  exact suffixes_spans room (primary_spans room hhead) hsuffixes
termination_by (room, 2)

theorem suffixes_spans (room : Nat) {head e : Expr} {start s s' : ParseState}
    (hhead : Spans start head s) (h : suffixes room head s = .ok e s') : Spans start e s' := by
  by_cases hcall : s.token? = some (.symbol .leftParen)
  · cases room with
    | zero =>
        rw [suffixes_zero (Or.inl hcall)] at h
        cases h
    | succ room =>
        rw [suffixes_of_call hcall, bind_eq_ok_iff] at h
        rcases h with ⟨args, s1, hargs, h⟩
        rcases arguments_spans room hargs with ⟨hmarks, hcount, hfits⟩
        have hadvance : s.advance.marks false = s.marks false :=
          marks_advance_of_token hcall rfl
        exact suffixes_spans room (hhead.call hadvance hmarks hcount hfits s.span) h
  by_cases hfield : s.token? = some (.symbol .dot)
  · cases room with
    | zero =>
        rw [suffixes_zero (Or.inr hfield)] at h
        cases h
    | succ room =>
        rw [suffixes_of_field hfield, bind_eq_ok_iff] at h
        rcases h with ⟨field, s1, hname, h⟩
        have hadvance : s.advance.marks false = s.marks false :=
          marks_advance_of_token hfield rfl
        exact suffixes_spans room (hhead.field hadvance (marks_of_identifier hname)) h
  · rw [suffixes_of_other hcall hfield] at h
    cases h
    exact hhead
termination_by (room, 0)

theorem arguments_spans (room : Nat) {args : List Expr} {s s' : ParseState}
    (h : arguments room s = .ok args s') :
    s.marks false = marksOfExprs args ++ s'.marks false ∧ args.length ≤ maxArguments ∧
      CallsFitIn args := by
  rw [arguments, get_bind, bind_eq_ok_iff] at h
  rcases h with ⟨args', s1, hargs, h⟩
  by_cases hcount : args'.length ≤ maxArguments
  · rw [if_pos hcount] at h
    cases h
    rcases marks_of_parenthesized (expression_spans room) hargs with ⟨hmarks, hfits⟩
    rw [marksOfExprs_eq]
    exact ⟨hmarks, hcount, callsFitIn_iff.mpr hfits⟩
  · rw [if_neg hcount] at h
    cases h
termination_by (room, 1)

theorem primary_spans (room : Nat) {s s' : ParseState} {e : Expr}
    (h : primary room s = .ok e s') : Spans s e s' := by
  cases hliteral : literal? s.token? with
  | some literal =>
      rw [primary_of_literal hliteral] at h
      cases h
      exact spans_of_literal? hliteral
  | none =>
      by_cases hident : ∃ name, s.token? = some (.ident name)
      · rcases hident with ⟨name, hident⟩
        rw [primary_of_ident hident] at h
        cases h
        exact ⟨marks_of_ident hident, trivial⟩
      by_cases hparen : s.token? = some (.symbol .leftParen)
      · rw [primary_of_leftParen hparen, bind_eq_ok_iff] at h
        rcases h with ⟨inner, s1, hinner, h⟩
        rw [bind_eq_ok_iff] at h
        rcases h with ⟨_, s2, hclose, h⟩
        cases h
        rw [Spans, ← marks_advance_of_token hparen rfl, marks_of_expect hclose rfl]
        exact expression_spans room hinner
      · rw [primary_of_other (not_exists.mp hident) hparen hliteral] at h
        cases h
termination_by (room, 1)

end

/-!
## Statements
-/

/-- What the step builds without errors has the marks that were read, and its
counts fit. -/
def Takes {α : Type} (step : Parser α) (parts : α -> List Mark) (Fits : α -> Prop) : Prop :=
  ∀ {s s' : ParseState} {x : α}, step s = .ok x s' -> s'.errors = [] ->
    s.marks false = parts x ++ s'.marks false ∧ Fits x

section Statements

variable {room : Nat} {inside : Parser (List Stmt)} {s s' : ParseState} {x : Stmt}

theorem braced_takes (hinside : Takes inside marksOfAll CountsFitAll) {context : String}
    {body : List Stmt} (h : braced inside context s = .ok body s') (herrors : s'.errors = []) :
    s.token? = some (.symbol .leftBrace) ∧
      s.advance.marks false = marksOfAll body ++ s'.marks false ∧ CountsFitAll body := by
  simp only [braced, bind_eq_ok_iff] at h
  rcases h with ⟨_, s1, hopen, body', s2, hbody, _, s3, hclose, h⟩
  cases h
  have herrors2 : s2.errors = [] := by
    rw [(expect_eq_ok hclose).2, errors_advance] at herrors
    exact herrors
  rcases expect_eq_ok hopen with ⟨htokens, rfl⟩
  rw [marks_of_expect hclose rfl]
  exact ⟨token?_of_tokens htokens, hinside hbody herrors2⟩

theorem block_takes (hinside : Takes inside marksOfAll CountsFitAll) (context : String) :
    Takes (block inside context) Block.marks Block.CountsFit := by
  intro s s' b h herrors
  simp only [block, bind_eq_ok_iff] at h
  rcases h with ⟨id, s1, hfresh, body, s2, hbraced, h⟩
  cases hfresh
  cases h
  rcases braced_takes hinside hbraced herrors with ⟨htoken, hmarks, hfits⟩
  rw [Block.marks, Block.CountsFit, (marks_of_leftBrace (s := s) htoken).2, hmarks]
  exact ⟨rfl, hfits⟩

theorem guarded_takes (hinside : Takes inside marksOfAll CountsFitAll) (room : Nat)
    (word : String) :
    Takes (guarded room inside word) (fun b => b.condition.marks ++ b.body.marks)
      (fun b => b.condition.CallsFit ∧ b.body.CountsFit) := by
  intro s s' b h herrors
  simp only [guarded, bind_eq_ok_iff] at h
  rcases h with ⟨_, s1, hopen, condition, s2, hcondition, _, s3, hclose, body, s4, hbody, h⟩
  cases h
  rcases expression_spans room hcondition with ⟨hmarks, hfits⟩
  rcases block_takes hinside _ hbody herrors with ⟨hmarks', hfits'⟩
  refine ⟨?_, hfits, hfits'⟩
  rw [← marks_of_expect hopen rfl, hmarks, ← marks_of_expect hclose rfl, hmarks', List.append_assoc]

theorem declaration_takes (htoken : s.token? = some (.keyword .varWord))
    (h : declaration room s = .ok x s') :
    s.marks false = x.marks ++ s'.marks false ∧ x.CountsFit := by
  simp only [declaration, advance_bind, bind_eq_ok_iff] at h
  rcases h with ⟨name, s1, hname, _, s2, hassign, value, s3, hvalue, _, s4, hclose, h⟩
  cases h
  rcases expression_spans room hvalue with ⟨hmarks, hfits⟩
  refine ⟨?_, hfits⟩
  rw [← marks_advance_of_token htoken rfl, marks_of_identifier hname,
    ← marks_of_expect hassign rfl, hmarks, marks_of_expect hclose rfl, Stmt.marks]
  rfl

theorem giveBack_takes (htoken : s.token? = some (.keyword .returnWord))
    (h : giveBack room s = .ok x s') : s.marks false = x.marks ++ s'.marks false ∧ x.CountsFit := by
  rw [giveBack, get_bind, advance_bind, isAt_bind] at h
  rw [← marks_advance_of_token htoken rfl]
  cases hat : s.advance.isAt (.symbol .semicolon) with
  | true =>
      rw [hat] at h
      change (expect .semicolon _ >>= fun _ => pure (Stmt.giveBack .null s.span)) s.advance
        = _ at h
      rw [bind_eq_ok_iff] at h
      rcases h with ⟨_, s1, hclose, h⟩
      cases h
      exact ⟨(marks_of_expect hclose rfl).symm, trivial⟩
  | false =>
      rw [hat] at h
      change (expression room >>= fun value => expect .semicolon _ >>= fun _ =>
        pure (Stmt.giveBack value s.span)) s.advance = _ at h
      simp only [bind_eq_ok_iff] at h
      rcases h with ⟨value, s1, hvalue, _, s2, hclose, h⟩
      cases h
      rw [marks_of_expect hclose rfl, Stmt.marks, Stmt.CountsFit]
      exact expression_spans room hvalue

theorem function_takes (hinside : Takes inside marksOfAll CountsFitAll)
    (htoken : s.token? = some (.keyword .fnWord)) (h : function inside s = .ok x s')
    (herrors : s'.errors = []) : s.marks false = x.marks ++ s'.marks false ∧ x.CountsFit := by
  simp only [function, advance_bind, bind_eq_ok_iff] at h
  rcases h with ⟨name, s1, hname, _, s2, hopen, params, s3, hparams, h⟩
  by_cases hcount : params.length ≤ maxArguments
  · rw [if_pos hcount, bind_eq_ok_iff] at h
    rcases h with ⟨body, s4, hbraced, h⟩
    cases h
    have hparam {s s' : ParseState} {x : Identifier}
        (h : identifier "parameter name" s = .ok x s') :
        s.marks true = [.name x] ++ s'.marks true ∧ True :=
      ⟨marks_of_identifier h, trivial⟩
    have hmarks : s2.marks true = params.map Mark.name ++ s3.marks true := by
      rw [List.map_eq_flatMap]
      exact (marks_of_parenthesized hparam hparams).1
    rcases braced_takes hinside hbraced herrors with ⟨hbrace, hmarks', hfits⟩
    refine ⟨?_, hcount, hfits⟩
    rw [marks_of_fnWord htoken, marks_of_identifier hname, ← marks_of_expect hopen rfl, hmarks,
      (marks_of_leftBrace hbrace).1, hmarks', Stmt.marks, List.cons_append, List.append_assoc]
    rfl
  · rw [if_neg hcount] at h
    cases h

theorem marks_choose_cons (first : Branch) (branches : List Branch)
    (otherwise : Option Block) :
    (Stmt.choose (first :: branches) otherwise).marks =
      first.condition.marks ++ first.body.marks ++
        (Stmt.choose branches otherwise).marks := by
  rcases first with ⟨condition, body⟩
  cases otherwise with
  | none => simp [Stmt.marks, marksOfBranches]
  | some last => simp [Stmt.marks, marksOfBranches]

theorem countsFit_choose_cons {first : Branch} {branches : List Branch}
    {otherwise : Option Block} :
    (Stmt.choose (first :: branches) otherwise).CountsFit ↔
      (first.condition.CallsFit ∧ first.body.CountsFit) ∧
        (Stmt.choose branches otherwise).CountsFit := by
  rcases first with ⟨condition, body⟩
  cases otherwise with
  | none => simp [Stmt.CountsFit, CountsFitBranches, and_assoc]
  | some last => simp [Stmt.CountsFit, CountsFitBranches, and_assoc]

theorem alternatives_take (hgrows : Grows inside)
    (hinside : Takes inside marksOfAll CountsFitAll) {rounds : List Located}
    {read branches : List Branch} {otherwise : Option Block}
    (h : alternatives room inside rounds read s = .ok (branches, otherwise) s')
    (herrors : s'.errors = []) :
    ∃ others, branches = read.reverse ++ others ∧
      s.marks false = (Stmt.choose others otherwise).marks ++ s'.marks false ∧
      (Stmt.choose others otherwise).CountsFit := by
  induction rounds generalizing read s with
  | nil =>
      cases h
      exact ⟨[], (List.append_nil _).symm, rfl, trivial⟩
  | cons _ rounds ih =>
      rw [alternatives, bind_eq_ok_iff] at h
      rcases h with ⟨found, s1, helse, h⟩
      rw [← marks_of_eat helse rfl]
      rcases eat_eq_ok helse with ⟨rfl, _, _⟩ | ⟨rfl, rfl, _⟩
      · rw [if_pos rfl, bind_eq_ok_iff] at h
        rcases h with ⟨found, s2, hif, h⟩
        rw [← marks_of_eat hif rfl]
        rcases eat_eq_ok hif with ⟨rfl, _, _⟩ | ⟨rfl, rfl, _⟩
        · rw [if_pos rfl, bind_eq_ok_iff] at h
          rcases h with ⟨first, s3, hfirst, h⟩
          have hrest := (grows_alternatives room hgrows rounds (first :: read)).of_ok h
          rcases guarded_takes hinside room _ hfirst (hrest.errors_eq_nil herrors) with
            ⟨hmarks, hfits⟩
          rcases ih h with ⟨others, rfl, hmarks', hfits'⟩
          refine ⟨first :: others, by simp, ?_, countsFit_choose_cons.mpr ⟨hfits, hfits'⟩⟩
          rw [hmarks, hmarks', marks_choose_cons, List.append_assoc _ _ (s'.marks false)]
        · rw [if_neg Bool.false_ne_true, bind_eq_ok_iff] at h
          rcases h with ⟨body, s3, hbody, h⟩
          cases h
          rcases block_takes hinside _ hbody herrors with ⟨hmarks, hfits⟩
          exact ⟨[], (List.append_nil _).symm, hmarks, trivial, hfits⟩
      · rw [if_neg Bool.false_ne_true] at h
        cases h
        exact ⟨[], (List.append_nil _).symm, rfl, trivial⟩

theorem choice_takes (hgrows : Grows inside)
    (hinside : Takes inside marksOfAll CountsFitAll)
    (htoken : s.token? = some (.keyword .ifWord)) (h : choice room inside s = .ok x s')
    (herrors : s'.errors = []) : s.marks false = x.marks ++ s'.marks false ∧ x.CountsFit := by
  rw [choice, advance_bind, bind_eq_ok_iff] at h
  rcases h with ⟨first, s1, hfirst, h⟩
  rw [get_bind, bind_eq_ok_iff] at h
  rcases h with ⟨⟨branches, otherwise⟩, s2, hothers, h⟩
  cases h
  have hrest := (grows_alternatives room hgrows _ _).of_ok hothers
  rcases guarded_takes hinside room _ hfirst (hrest.errors_eq_nil herrors) with ⟨hmarks, hfits⟩
  rcases alternatives_take hgrows hinside hothers herrors with ⟨others, rfl, hmarks', hfits'⟩
  change s.marks false = (Stmt.choose (first :: others) otherwise).marks ++ s'.marks false ∧
    (Stmt.choose (first :: others) otherwise).CountsFit
  refine ⟨?_, countsFit_choose_cons.mpr ⟨hfits, hfits'⟩⟩
  rw [← marks_advance_of_token htoken rfl, hmarks, hmarks', marks_choose_cons,
    List.append_assoc _ _ (s'.marks false)]

theorem loop_takes (hinside : Takes inside marksOfAll CountsFitAll)
    (htoken : s.token? = some (.keyword .whileWord)) (h : loop room inside s = .ok x s')
    (herrors : s'.errors = []) : s.marks false = x.marks ++ s'.marks false ∧ x.CountsFit := by
  rw [loop, advance_bind, bind_eq_ok_iff] at h
  rcases h with ⟨⟨condition, body⟩, s1, hbranch, h⟩
  cases h
  rw [← marks_advance_of_token htoken rfl, Stmt.marks, Stmt.CountsFit]
  exact guarded_takes hinside room _ hbranch herrors

theorem assignmentOrExpression_takes (h : assignmentOrExpression room s = .ok x s') :
    s.marks false = x.marks ++ s'.marks false ∧ x.CountsFit := by
  rw [assignmentOrExpression, get_bind, bind_eq_ok_iff] at h
  rcases h with ⟨first, s1, hfirst, h⟩
  rw [bind_eq_ok_iff] at h
  rcases h with ⟨found, s2, hassign, h⟩
  rcases expression_spans room hfirst with ⟨hmarks, hfits⟩
  rw [hmarks, ← marks_of_eat hassign rfl]
  rcases eat_eq_ok hassign with ⟨rfl, _, _⟩ | ⟨rfl, rfl, _⟩
  · have hvalue : ∀ {assigned : Expr -> Stmt}, (expression room >>= fun value =>
        expect .semicolon "';' after assignment" >>= fun _ => pure (assigned value)) s2
          = .ok x s' ->
        ∃ value, x = assigned value ∧ Spans s2 value s' := by
      intro assigned h
      simp only [bind_eq_ok_iff] at h
      rcases h with ⟨value, s3, hvalue, _, s4, hclose, h⟩
      cases h
      refine ⟨value, rfl, ?_⟩
      rw [Spans, marks_of_expect hclose rfl]
      exact expression_spans room hvalue
    cases first with
    | ident name =>
        rcases hvalue h with ⟨value, rfl, hmarks', hfits'⟩
        refine ⟨?_, hfits'⟩
        rw [hmarks']
        rfl
    | field receiver field =>
        rcases hvalue h with ⟨value, rfl, hmarks', hfits'⟩
        refine ⟨?_, hfits, hfits'⟩
        rw [hmarks', Expr.marks, Stmt.marks]
        simp
    | _ => cases h
  · rw [if_neg Bool.false_ne_true, bind_eq_ok_iff] at h
    rcases h with ⟨_, s3, hclose, h⟩
    cases h
    rw [marks_of_expect hclose rfl]
    exact ⟨rfl, hfits⟩

theorem statementForm_takes (hgrows : Grows inside)
    (hinside : Takes inside marksOfAll CountsFitAll) (room : Nat) :
    Takes (statementForm room inside) Stmt.marks Stmt.CountsFit := by
  intro s s' x h herrors
  rw [statementForm, get_bind] at h
  cases htoken : s.token? with
  | none =>
      rw [htoken] at h
      exact assignmentOrExpression_takes h
  | some t =>
      rw [htoken] at h
      cases t with
      | keyword word =>
          cases word with
          | varWord => exact declaration_takes htoken h
          | fnWord => exact function_takes hinside htoken h herrors
          | ifWord => exact choice_takes hgrows hinside htoken h herrors
          | whileWord => exact loop_takes hinside htoken h herrors
          | returnWord => exact giveBack_takes htoken h
          | elseWord => exact assignmentOrExpression_takes h
      | symbol symbol =>
          cases symbol with
          | leftBrace =>
              change (block inside _ >>= fun body => pure (Stmt.block body)) s = _ at h
              rw [bind_eq_ok_iff] at h
              rcases h with ⟨body, s1, hbody, h⟩
              cases h
              rw [Stmt.marks, Stmt.CountsFit]
              exact block_takes hinside _ hbody herrors
          | _ => exact assignmentOrExpression_takes h
      | _ => exact assignmentOrExpression_takes h

end Statements

/-!
## Programs
-/

section ReadAll

variable {statement : Parser Stmt} {s s' : ParseState} {body : List Stmt}

theorem ReadAll.takes (hgrows : Grows statement)
    (hstatement : Takes statement Stmt.marks Stmt.CountsFit)
    (h : ReadAll statement s body s') (herrors : s'.errors = []) :
    s.marks false = marksOfAll body ++ s'.marks false ∧ CountsFitAll body := by
  induction h with
  | nil => exact ⟨rfl, trivial⟩
  | cons hfirst hrest ih =>
      rcases hstatement hfirst ((hrest.leads hgrows).errors_eq_nil herrors) with ⟨hmarks, hfits⟩
      rcases ih herrors with ⟨hmarks', hfits'⟩
      refine ⟨?_, hfits, hfits'⟩
      rw [hmarks, hmarks', marksOfAll, List.append_assoc]

theorem statements_take (hgrows : Grows statement)
    (hstatement : Takes statement Stmt.marks Stmt.CountsFit) :
    Takes (statements statement) marksOfAll CountsFitAll := by
  intro s s' body h herrors
  unfold statements at h
  cases hin : statementsIn statement s.rest [] s with
  | mk parsed s1 =>
      rw [hin] at h
      cases h
      rcases readAll_of_statementsIn hgrows hin herrors with ⟨more, rfl, hmore⟩
      exact hmore.takes hgrows hstatement herrors

end ReadAll

theorem statement_takes (room : Nat) :
    Takes (statement room) Stmt.marks Stmt.CountsFit := by
  induction room with
  | zero =>
      refine statementForm_takes (grows_fail _) ?_ 0
      intro s s' body h
      cases h
  | succ room ih =>
      exact statementForm_takes (grows_statements (grows_statement room))
        (statements_take (grows_statement room) ih) (room + 1)

theorem program_takes {s : ParseState} {p : Program} (h : (program s).1 = .ok p) :
    ∃ s' : ParseState, s.marks false = marksOfAll p.statements ++ s'.marks false ∧
      CountsFitAll p.statements ∧ Grammar.StatementsForm s.tokens p.statements s'.tokens ∧
      s'.atEnd = true := by
  rcases readAll_of_program h with ⟨s', hread, herrors, hend⟩
  have hgrows := grows_statement maxNesting
  rcases hread.takes hgrows (statement_takes maxNesting) herrors with ⟨hmarks, hfits⟩
  exact ⟨s', hmarks, hfits, hread.sound hgrows (statement_sound maxNesting) herrors, hend⟩

end Parser

namespace Program

def marks (p : Program) : List Mark :=
  marksOfAll p.statements

def identifiers (p : Program) : List Identifier :=
  namesIn p.marks

theorem blocksIn_marks (p : Program) : blocksIn p.marks = p.blocks := by
  rw [marks, blocksIn_stmts, blocks_eq]

theorem marks_of_parse {source : String} {p : Program} (h : parse source = .ok p) :
    ∃ tokens, tokenize source = .ok tokens ∧ p.marks = numberMarks 0 0 false tokens ∧
      CountsFitAll p.statements := by
  unfold parse at h
  cases htokens : tokenize source with
  | error e =>
      rw [htokens] at h
      cases h
  | ok tokens =>
      rw [htokens] at h
      rcases tokenize_significant htokens with ⟨body, hall, hbody⟩
      rcases Parser.program_takes h with ⟨s', hmarks, hfits, hform, hend⟩
      rw [hall] at hform
      refine ⟨tokens, rfl, ?_, hfits⟩
      rw [ParseState.marks_of_endOfInput (tokens_eq_of_atEnd hform hend hbody),
        List.append_nil] at hmarks
      exact hmarks.symm.trans (numberMarks_filter_isSignificant 0 0 false tokens)

/-- The blocks of a parsed program are numbered from zero on, without gaps. -/
theorem blocks_of_parse {source : String} {p : Program} (h : parse source = .ok p) :
    p.blocks = List.range p.blocks.length := by
  rcases marks_of_parse h with ⟨tokens, _, hmarks, _⟩
  rw [← blocksIn_marks, hmarks, List.range_eq_range']
  exact blocksIn_numberMarks 0 0 false tokens

theorem blocks_nodup_of_parse {source : String} {p : Program} (h : parse source = .ok p) :
    p.blocks.Nodup := by
  rw [blocks_of_parse h]
  exact List.nodup_range

theorem pairwise_bindings_of_parse {source : String} {p : Program} (h : parse source = .ok p) :
    (p.bindings.map (·.id)).Pairwise (· < ·) := by
  rcases marks_of_parse h with ⟨tokens, _, hmarks, _⟩
  have hnames := pairwise_namesIn_numberMarks 0 0 false tokens
  rw [← hmarks] at hnames
  rw [bindings_eq]
  exact hnames.sublist ((bindingsOfAll_sublist _).map _)

theorem ids_and_counts_of_parse {source : String} {p : Program} (h : parse source = .ok p) :
    (p.bindings.map (·.id)).Nodup ∧ CountsFitAll p.statements := by
  rcases marks_of_parse h with ⟨_, _, _, hfits⟩
  exact ⟨(pairwise_bindings_of_parse h).imp Nat.ne_of_lt, hfits⟩

/-- A parsed program has the marks of its source: every name token is a name of
the tree, numbered by its place among them; every brace opens a block, numbered
by its place among those, or the body of a function.  The names to be resolved
come in the order of their numbers. -/
theorem parse_numbers_in_order {source : String} {p : Program} (h : parse source = .ok p) :
    ∃ tokens, tokenize source = .ok tokens ∧ p.marks = numberMarks 0 0 false tokens ∧
      p.identifiers =
        (nameTokens tokens).mapIdx (fun k t => { id := k, name := t.1, span := t.2 }) ∧
      p.blocks = blocksIn p.marks ∧ p.blocks = List.range p.blocks.length ∧
      (p.bindings.map (·.id)).Pairwise (· < ·) := by
  rcases marks_of_parse h with ⟨tokens, htokens, hmarks, _⟩
  refine ⟨tokens, htokens, hmarks, ?_, p.blocksIn_marks.symm, blocks_of_parse h,
    pairwise_bindings_of_parse h⟩
  rw [identifiers, hmarks, namesIn_numberMarks]
  simp only [Nat.zero_add]

def layeredSource : String :=
  "fn outer(a, b) \x7b\x7b return; \x7d fn inner(c) \x7b\x7b\x7d\x7d\x7d \x7b\x7b\x7d\x7d // end"

theorem parse_numbers_in_order_layered :
    ∃ p tokens, parse layeredSource = .ok p ∧ tokenize layeredSource = .ok tokens ∧
      p.identifiers.map (fun x => (x.id, x.name)) =
        [(0, "outer"), (1, "a"), (2, "b"), (3, "inner"), (4, "c")] ∧
      p.blocks = [0, 1, 2, 3] ∧ p.marks = numberMarks 0 0 false tokens ∧
      p.identifiers =
        (nameTokens tokens).mapIdx (fun k t => { id := k, name := t.1, span := t.2 }) ∧
      p.blocks = blocksIn p.marks ∧ p.blocks = List.range p.blocks.length ∧
      (p.bindings.map (·.id)).Pairwise (· < ·) := by
  have hparse : ∃ p, parse layeredSource = .ok p ∧
      (p.identifiers.map (fun x => (x.id, x.name)), p.blocks) =
        ([(0, "outer"), (1, "a"), (2, "b"), (3, "inner"), (4, "c")], [0, 1, 2, 3]) := by
    apply exists_ok_of_map (fun p => (p.identifiers.map (fun x => (x.id, x.name)), p.blocks))
      (y := ([(0, "outer"), (1, "a"), (2, "b"), (3, "inner"), (4, "c")], [0, 1, 2, 3]))
    · decide +kernel
    · exact fun _ _ hvalues => hvalues
  rcases hparse with ⟨p, hp, hvalues⟩
  rcases Prod.mk.inj hvalues with ⟨hidentifiers, hblocks⟩
  rcases parse_numbers_in_order hp with ⟨tokens, htokens, hnumbers⟩
  exact ⟨p, tokens, hp, htokens, hidentifiers, hblocks, hnumbers⟩

end Program
end StackScript
