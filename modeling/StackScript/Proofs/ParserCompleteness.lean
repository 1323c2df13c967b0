import StackScript.Proofs.ParserSoundness

/-!
# What is in the grammar is parsed

The grammar has no limits and the parser has three: how deep a tree gets, and
how many parameters and arguments there are.  In front of the tokens of a form
the parser builds the tree of that form, or one of its limits is the first
error that it meets.  The proof goes along derivations.  A derivation of a form
that groups to the left ends in its last operator, so it is followed by what the
parser still has to do behind it.
-/

namespace StackScript

open Grammar

/-- The fault is one that the grammar knows nothing of. -/
def SyntaxFault.IsLimit : SyntaxFault -> Prop
  | .tooDeep _ _ => True
  | .tooManyParameters _ count => maxArguments < count
  | .tooManyArguments count => maxArguments < count
  | _ => False

/-- The given tokens are left and no error is recorded. -/
structure ParseState.Fresh (s : ParseState) (ts : List Token) : Prop where
  tokens : s.tokens = ts
  errors : s.errors = []

namespace ParseState.Fresh

variable {s : ParseState} {t : Token} {ts : List Token}

theorem token?_eq (h : s.Fresh (t :: ts)) : s.token? = some t :=
  token?_of_tokens h.tokens

theorem advance (h : s.Fresh (t :: ts)) : s.advance.Fresh ts where
  tokens := tokens_advance h.tokens
  errors := s.errors_advance.trans h.errors

theorem isAt_eq_false (h : s.Fresh ts) (hother : ts.head? ≠ some t) : s.isAt t = false := by
  rw [isAt, ParseState.token?_eq, h.tokens]
  exact decide_eq_false hother

theorem not_stopped (h : s.Fresh (t :: ts)) (ht : (t.startsStatement || t.startsExpression) = true) :
    s.isAt (.symbol .rightBrace) = false ∧ s.atEnd = false := by
  rw [isAt, atEnd, h.token?_eq]
  constructor
  · apply decide_eq_false
    intro heq
    cases heq
    cases ht
  · apply decide_eq_false
    intro heq
    cases heq
    cases ht

end ParseState.Fresh

namespace Parser

/-!
## Outcomes
-/

section Outcomes

variable {α β : Type}

/-- The step fails at a limit, and that is the first error. -/
def Limited (r : EStateM.Result SyntaxError ParseState α) : Prop :=
  ∃ e s', r = .error e s' ∧ e.fault.IsLimit ∧ s'.errors = []

/-- The step gives a good result in front of the rest, or fails at a limit. -/
def Gives (r : EStateM.Result SyntaxError ParseState α) (Good : α -> Prop)
    (rest : List Token) : Prop :=
  (∃ x s', r = .ok x s' ∧ Good x ∧ s'.Fresh rest) ∨ Limited r

theorem limited_failTooDeep {s : ParseState} {ts : List Token} (h : s.Fresh ts) (what : String) :
    Limited (failTooDeep what s : EStateM.Result SyntaxError ParseState α) :=
  ⟨_, s, rfl, trivial, h.errors⟩

variable {step : Parser α} {next : α -> Parser β} {s : ParseState} {Good : α -> Prop}
  {Good' : β -> Prop} {middle rest : List Token}

theorem Limited.bind (h : Limited (step s)) : Limited ((step >>= next) s) := by
  rcases h with ⟨e, s', herror, hlimit, hs'⟩
  exact ⟨e, s', bind_of_error herror, hlimit, hs'⟩

theorem Gives.bind (h : Gives (step s) Good middle)
    (hnext : ∀ x s', Good x -> s'.Fresh middle -> Gives (next x s') Good' rest) :
    Gives ((step >>= next) s) Good' rest := by
  rcases h with ⟨x, s', hok, hx, hs'⟩ | hlimit
  · rw [bind_of_ok hok]
    exact hnext x s' hx hs'
  · exact Or.inr hlimit.bind

theorem Gives.mono {Good' : α -> Prop} (h : Gives (step s) Good rest)
    (hgood : ∀ x, Good x -> Good' x) : Gives (step s) Good' rest := by
  rcases h with ⟨x, s', hok, hx, hs'⟩ | hlimit
  · exact Or.inl ⟨x, s', hok, hgood x hx, hs'⟩
  · exact Or.inr hlimit

end Outcomes

/-!
## Lists
-/

section Lists

variable {α β : Type} {item : Parser α} {view : α -> β} {s : ParseState} {ts rest : List Token}

/-- The tokens are those of an item, and in front of them the step gives what
looks like it. -/
structure ParsedBy (item : Parser α) (view : α -> β) (ts : List Token) (x : α)
    (rest : List Token) : Prop where
  consumed : Consumed ts rest
  gives : ∀ s : ParseState, s.Fresh ts -> Gives (item s) (fun y => view y = view x) rest

theorem length_le_of_separated {xs : List α} (h : Separated (ParsedBy item view) ts xs rest) :
    xs.length ≤ ts.length + 1 := by
  induction h with
  | one _ => exact Nat.le_add_left _ _
  | more h _ ih =>
      have := h.consumed.length_le
      rw [List.length_cons] at this ⊢
      omega

theorem commaItems_of_not_comma (h : s.isAt (.symbol .comma) = false) (rounds : List Located)
    (read : List α) : commaItems item rounds read s = .ok read.reverse s := by
  cases rounds with
  | nil => rfl
  | cons _ rounds =>
      rw [commaItems, bind_of_ok (eat_of_not_isAt h)]
      rfl

theorem commaItems_of_comma (h : s.Fresh (.symbol .comma :: ts)) (round : Located)
    (rounds : List Located) (read : List α) :
    commaItems item (round :: rounds) read s =
      (item >>= fun x => commaItems item rounds (x :: read)) s.advance := by
  rw [commaItems, bind_of_ok (eat_of_tokens h.tokens)]
  rfl

theorem commaItems_gives {xs : List α} (h : Separated (ParsedBy item view) ts xs rest)
    (hrest : rest.head? ≠ some (.symbol .comma)) (rounds : List Located) (read : List α)
    {s : ParseState} (hrounds : xs.length ≤ rounds.length + 1) (hs : s.Fresh ts) :
    Gives ((item >>= fun x => commaItems item rounds (x :: read)) s)
      (fun ys => ys.map view = (read.reverse ++ xs).map view) rest := by
  induction h generalizing rounds read s with
  | one h =>
      refine (h.gives s hs).bind fun x s' hx hs' => ?_
      rw [commaItems_of_not_comma (hs'.isAt_eq_false hrest)]
      exact Or.inl ⟨_, s', rfl, by simp [hx], hs'⟩
  | more h hothers ih =>
      refine (h.gives s hs).bind fun x s' hx hs' => ?_
      cases rounds with
      | nil =>
          cases hothers with
          | one _ => simp at hrounds
          | more _ _ => simp at hrounds
      | cons round rounds =>
          rw [commaItems_of_comma hs']
          refine (ih hrest rounds (x :: read) (Nat.le_of_succ_le_succ hrounds) hs'.advance).mono ?_
          intro ys hys
          simp [hys, hx]

theorem commaSeparated_gives {xs : List α} (h : Separated (ParsedBy item view) ts xs rest)
    (hrest : rest.head? ≠ some (.symbol .comma)) (hs : s.Fresh ts) :
    Gives (commaSeparated item s) (fun ys => ys.map view = xs.map view) rest := by
  cases h with
  | one h =>
      refine (h.gives s hs).bind fun x s' hx hs' => ?_
      rw [get_bind, commaItems_of_not_comma (hs'.isAt_eq_false hrest)]
      exact Or.inl ⟨_, s', rfl, by simp [hx], hs'⟩
  | more h hothers =>
      refine (h.gives s hs).bind fun x s' hx hs' => ?_
      have hlength : s'.tokens.length = s'.rest.length := List.length_map _
      rw [hs'.tokens] at hlength
      rw [get_bind]
      cases hrounds : s'.rest with
      | nil =>
          rw [hrounds] at hlength
          cases hlength
      | cons round rounds =>
          rw [hrounds, List.length_cons, List.length_cons] at hlength
          have hcount := length_le_of_separated hothers
          rw [commaItems_of_comma hs']
          refine (commaItems_gives hothers hrest rounds [x] (by omega) hs'.advance).mono ?_
          intro ys hys
          simp [hys, hx]

theorem parenthesized_gives {xs : List α}
    (h : xs = [] ∧ ts = .symbol .rightParen :: rest ∨
      Separated (ParsedBy item view) ts xs (.symbol .rightParen :: rest) ∧
        ts.head? ≠ some (.symbol .rightParen))
    (closing : String) (hs : s.Fresh ts) :
    Gives (parenthesized item closing s) (fun ys => ys.map view = xs.map view) rest := by
  have hclose : ∀ (ys : List α) (s' : ParseState), ys.map view = xs.map view ->
      s'.Fresh (.symbol .rightParen :: rest) ->
      Gives ((expect .rightParen closing >>= fun _ => pure ys) s')
        (fun ys => ys.map view = xs.map view) rest := by
    intro ys s' hys hs'
    rw [bind_of_ok (expect_of_tokens hs'.tokens closing)]
    exact Or.inl ⟨ys, _, rfl, hys, hs'.advance⟩
  rw [parenthesized, isAt_bind]
  rcases h with ⟨rfl, rfl⟩ | ⟨h, hstart⟩
  · rw [ParseState.isAt_iff.mpr hs.token?_eq]
    exact hclose [] s rfl hs
  · rw [hs.isAt_eq_false hstart]
    exact (commaSeparated_gives h (by rintro ⟨⟩) hs).bind hclose

end Lists

end Parser

/-!
## Following tokens
-/

namespace Grammar

/-- An expression whose loosest operator has the given level ends in front of
the tokens: they do not begin with an operator of the level or a tighter one,
nor with a call or a field access. -/
structure Stops (n : Nat) (ts : List Token) : Prop where
  operator : ∀ op : BinaryOp, n ≤ op.level -> ts.head? ≠ some (.symbol op.symbol)
  call : ts.head? ≠ some (.symbol .leftParen)
  field : ts.head? ≠ some (.symbol .dot)

theorem Stops.tighter {n : Nat} {ts : List Token} (h : Stops n ts) : Stops (n + 1) ts where
  operator op hop := h.operator op (Nat.le_of_succ_le hop)
  call := h.call
  field := h.field

theorem stops_operator (op : BinaryOp) (ts : List Token) :
    Stops (op.level + 1) (.symbol op.symbol :: ts) where
  operator op' hlevel hsame := by
    have hsymbol : op.symbol = op'.symbol := by simpa using hsame
    have hop : op = op' := by
      cases op <;> cases op' <;> first | rfl | cases hsymbol
    subst hop
    exact absurd hlevel (Nat.not_succ_le_self _)
  call := by cases op <;> nofun
  field := by cases op <;> nofun

theorem stops_symbol {symbol : Symbol}
    (h : symbol ∈ [Symbol.comma, .rightParen, .semicolon, .assign]) (ts : List Token) :
    Stops 0 (.symbol symbol :: ts) := by
  simp only [List.mem_cons, List.not_mem_nil, or_false] at h
  rcases h with rfl | rfl | rfl | rfl <;>
    exact { operator := fun op _ => by cases op <;> nofun, call := by nofun, field := by nofun }

end Grammar

namespace Parser

/-!
## Expressions
-/

/-- The step has come to the expression, up to numbers and positions, and goes
on with the next step in front of the rest, or it fails at a limit. -/
def Reaches (r : EStateM.Result SyntaxError ParseState Expr) (next : Nat -> Expr -> Parser Expr)
    (e : Expr) (rest : List Token) : Prop :=
  (∃ room e' s', r = next room e' s' ∧ e'.bare = e.bare ∧ s'.Fresh rest) ∨ Limited r

def afterOperand (n room : Nat) (e : Expr) : Parser Expr :=
  match precedence.drop n with
  | [] => pure e
  | level :: tighter => chain level tighter room e

section Expressions

variable {n room : Nat} {s : ParseState} {e : Expr} {ts rest : List Token}

theorem operand_drop (h : n < tightest) (room : Nat) :
    operand (precedence.drop n) room =
      (operand (precedence.drop (n + 1)) room >>= fun e => afterOperand n room e) := by
  unfold afterOperand
  cases hdrop : precedence.drop n with
  | nil => exact absurd (List.drop_eq_nil_iff.mp hdrop) (Nat.not_le_of_lt h)
  | cons level tighter => rw [(drop_precedence hdrop).2, operand]

theorem afterOperand_of_stops (hs : s.Fresh rest) (hstops : Stops n rest) (room : Nat)
    (e : Expr) : afterOperand n room e s = .ok e s := by
  unfold afterOperand
  cases hdrop : precedence.drop n with
  | nil => rfl
  | cons level tighter =>
      apply chain_of_none
      cases hop : level.operator? s.token? with
      | none => rfl
      | some op =>
          rcases (operator?_eq_some_iff hdrop).mp hop with ⟨htoken, hlevel⟩
          rw [ParseState.token?_eq, hs.tokens] at htoken
          exact absurd htoken (hstops.operator op (Nat.le_of_eq hlevel.symm))

theorem afterOperand_of_operator {op : BinaryOp} (hs : s.Fresh (.symbol op.symbol :: ts))
    (room : Nat) (e : Expr) :
    afterOperand op.level (room + 1) e s =
      (operand (precedence.drop (op.level + 1)) room >>= fun right =>
        afterOperand op.level room (.binary op e right s.span)) s.advance := by
  unfold afterOperand
  cases hdrop : precedence.drop op.level with
  | nil => cases op <;> cases hdrop
  | cons level tighter =>
      rw [(drop_precedence hdrop).2]
      exact chain_of_some ((operator?_eq_some_iff hdrop).mpr ⟨hs.token?_eq, rfl⟩)

theorem afterOperand_zero {op : BinaryOp} (hs : s.Fresh (.symbol op.symbol :: ts)) (e : Expr) :
    afterOperand op.level 0 e s = failTooDeep "expression" s.advance := by
  unfold afterOperand
  cases hdrop : precedence.drop op.level with
  | nil => cases op <;> cases hdrop
  | cons level tighter =>
      exact chain_zero ((operator?_eq_some_iff hdrop).mpr ⟨hs.token?_eq, rfl⟩)

theorem Reaches.gives {r : EStateM.Result SyntaxError ParseState Expr}
    {next : Nat -> Expr -> Parser Expr} (h : Reaches r next e rest)
    (hnext : ∀ room e' s', s'.Fresh rest -> next room e' s' = .ok e' s') :
    Gives r (fun x => x.bare = e.bare) rest := by
  rcases h with ⟨room, e', s', hr, he', hs'⟩ | hlimit
  · exact Or.inl ⟨e', s', hr.trans (hnext room e' s' hs'), he', hs'⟩
  · exact Or.inr hlimit

theorem Reaches.expression (h : ∀ room s, s.Fresh ts ->
      Reaches (operand (precedence.drop 0) room s) (afterOperand 0) e rest)
    (hstops : Stops 0 rest) (room : Nat) (hs : s.Fresh ts) :
    Gives (expression room s) (fun x => x.bare = e.bare) rest := by
  cases room with
  | zero =>
      rw [Parser.expression]
      exact Or.inr (limited_failTooDeep hs _)
  | succ room =>
      rw [Parser.expression]
      exact (h room s hs).gives fun room e' s' hs' => afterOperand_of_stops hs' hstops room e'

theorem unaryOperator?_of_startsPrimary {t : Token} (h : t.startsPrimary = true) :
    unaryOperator? (some t) = none := by
  cases t with
  | symbol symbol => cases symbol <;> first | rfl | cases h
  | _ => rfl

theorem primary_gives_literal {t : Token} (h : literal? (some t) = some e)
    (hs : s.Fresh (t :: rest)) : Gives (primary room s) (fun x => x.bare = e.bare) rest :=
  Or.inl ⟨e, s.advance, primary_of_literal (hs.token?_eq ▸ h), rfl, hs.advance⟩

theorem arguments_gives {es : List Expr}
    (h : es = [] ∧ ts = .symbol .rightParen :: rest ∨
      Separated (ParsedBy (expression room) Expr.bare) ts es (.symbol .rightParen :: rest) ∧
        ∃ t ts', ts = t :: ts' ∧ t.startsExpression = true)
    (hs : s.Fresh ts) :
    Gives (arguments room s) (fun xs => xs.map Expr.bare = es.map Expr.bare) rest := by
  rw [arguments, get_bind]
  have hlist := h.imp_right fun ⟨hitems, t, ts', hts, ht⟩ =>
    And.intro hitems (show ts.head? ≠ some (Token.symbol .rightParen) by
      rw [hts]
      rintro ⟨⟩
      cases ht)
  refine (parenthesized_gives hlist _ hs).bind fun xs s' hxs hs' => ?_
  split
  · exact Or.inl ⟨xs, s', rfl, hxs, hs'⟩
  · next hcount => exact Or.inr ⟨_, s', rfl, Nat.lt_of_not_le hcount, hs'.errors⟩

end Expressions

mutual

theorem binary_reaches {n : Nat} {ts rest : List Token} {e : Expr} :
    BinaryForm n ts e rest -> Stops (n + 1) rest -> ∀ (room : Nat) (s : ParseState), s.Fresh ts ->
      Reaches (operand (precedence.drop n) room s) (afterOperand n) e rest
  | .unary h, hstops, room, s, hs => by
      have hunary : operand (precedence.drop tightest) room = unary room := by
        rw [show precedence.drop tightest = [] from rfl, operand]
      rw [hunary]
      rcases unary_gives h hstops.call hstops.field room s hs with ⟨x, s', hok, hx, hs'⟩ | hlimit
      · exact Or.inl ⟨room, x, s', hok, hx, hs'⟩
      · exact Or.inr hlimit
  | .tighter hlevel h, hstops, room, s, hs => by
      rw [operand_drop hlevel]
      have hinner := (binary_reaches h hstops.tighter room s hs).gives
        fun room e' s' hs' => afterOperand_of_stops hs' hstops room e'
      rcases hinner with ⟨x, s', hok, hx, hs'⟩ | hlimit
      · rw [bind_of_ok hok]
        exact Or.inl ⟨room, x, s', rfl, hx, hs'⟩
      · exact Or.inr hlimit.bind
  | @BinaryForm.operation _ _ _ op left right _ hleft hright, hstops, room, s, hs => by
      rcases binary_reaches hleft (stops_operator op _) room s hs with
        ⟨room', left', s', hr, hleft', hs'⟩ | hlimit
      · rw [hr]
        cases room' with
        | zero =>
            rw [afterOperand_zero hs']
            exact Or.inr (limited_failTooDeep hs'.advance _)
        | succ room' =>
            rw [afterOperand_of_operator hs']
            have hinner := (binary_reaches hright hstops.tighter room' _ hs'.advance).gives
              fun room e' s' hs' => afterOperand_of_stops hs' hstops room e'
            rcases hinner with ⟨right', s'', hok, hright', hs''⟩ | hlimit
            · rw [bind_of_ok hok]
              refine Or.inl ⟨room', _, s'', rfl, ?_, hs''⟩
              simp only [Expr.bare, hleft', hright']
            · exact Or.inr hlimit.bind
      · exact Or.inr hlimit

theorem unary_gives {ts rest : List Token} {e : Expr} :
    UnaryForm ts e rest -> rest.head? ≠ some (.symbol .leftParen) ->
      rest.head? ≠ some (.symbol .dot) -> ∀ (room : Nat) (s : ParseState), s.Fresh ts ->
      Gives (unary room s) (fun x => x.bare = e.bare) rest
  | .application h, hcall, hfield, room, s, hs => by
      rcases starts_of_application h with ⟨t, ts', hts, ht⟩
      have htoken := ParseState.token?_of_tokens (hs.tokens.trans hts)
      rw [unary_of_none (htoken ▸ unaryOperator?_of_startsPrimary ht)]
      refine (application_reaches h room s hs).gives fun room e' s' hs' => ?_
      rw [suffixes_of_other]
      · rwa [ParseState.token?_eq, hs'.tokens]
      · rwa [ParseState.token?_eq, hs'.tokens]
  | @UnaryForm.operation _ _ op e _ h, hcall, hfield, room, s, hs => by
      have hop := unaryOperator?_eq_some_iff.mpr hs.token?_eq
      cases room with
      | zero =>
          rw [unary_zero hop]
          exact Or.inr (limited_failTooDeep hs.advance _)
      | succ room =>
          rw [unary_of_some hop]
          refine (unary_gives h hcall hfield room _ hs.advance).bind fun x s' hx hs' => ?_
          refine Or.inl ⟨_, s', rfl, ?_, hs'⟩
          simp only [Expr.bare, hx]

theorem application_reaches {ts rest : List Token} {e : Expr} :
    ApplicationForm ts e rest -> ∀ (room : Nat) (s : ParseState), s.Fresh ts ->
      Reaches (application room s) suffixes e rest
  | .primary h, room, s, hs => by
      rw [application]
      rcases primary_gives h room s hs with ⟨x, s', hok, hx, hs'⟩ | hlimit
      · rw [bind_of_ok hok]
        exact Or.inl ⟨room, x, s', rfl, hx, hs'⟩
      · exact Or.inr hlimit.bind
  | .call hcallee harguments, room, s, hs => by
      rcases application_reaches hcallee room s hs with
        ⟨room', head, s', hr, hhead, hs'⟩ | hlimit
      · rw [hr]
        cases room' with
        | zero =>
            rw [suffixes_zero (Or.inl hs'.token?_eq)]
            exact Or.inr (limited_failTooDeep hs' _)
        | succ room' =>
            rw [suffixes_of_call hs'.token?_eq]
            have hlist := arguments_parsed harguments (stops_symbol (by decide) _) room'
            rcases arguments_gives hlist hs'.advance with ⟨es', s'', hok, hes', hs''⟩ | hlimit
            · rw [bind_of_ok hok]
              refine Or.inl ⟨room', _, s'', rfl, ?_, hs''⟩
              simp only [Expr.bare, hhead, bareExprs_eq_map, hes']
            · exact Or.inr hlimit.bind
      · exact Or.inr hlimit
  | .field h, room, s, hs => by
      rcases application_reaches h room s hs with ⟨room', head, s', hr, hhead, hs'⟩ | hlimit
      · rw [hr]
        cases room' with
        | zero =>
            rw [suffixes_zero (Or.inr hs'.token?_eq)]
            exact Or.inr (limited_failTooDeep hs' _)
        | succ room' =>
            rw [suffixes_of_field hs'.token?_eq]
            rcases identifier_of_tokens hs'.advance.tokens "field name after '.'" with
              ⟨field, s'', hok, hname, htokens, herrors⟩
            rw [bind_of_ok hok]
            refine Or.inl ⟨room', _, s'', rfl, ?_, htokens, herrors.trans hs'.advance.errors⟩
            simp only [Expr.bare, hhead, Identifier.bare, hname]
      · exact Or.inr hlimit

theorem primary_gives {ts rest : List Token} {e : Expr} :
    PrimaryForm ts e rest -> ∀ (room : Nat) (s : ParseState), s.Fresh ts ->
      Gives (primary room s) (fun x => x.bare = e.bare) rest
  | .number, _, _, hs | .string, _, _, hs | .bool, _, _, hs | .null, _, _, hs =>
      primary_gives_literal rfl hs
  | .ident, room, s, hs => by
      rw [primary_of_ident hs.token?_eq]
      exact Or.inl ⟨_, _, rfl, rfl, hs.advance.tokens, hs.advance.errors⟩
  | .parenthesized h, room, s, hs => by
      rw [primary_of_leftParen hs.token?_eq]
      have hinner := Reaches.expression
        (binary_reaches h (stops_symbol (by decide) _).tighter) (stops_symbol (by decide) _) room
        hs.advance
      refine hinner.bind fun x s' hx hs' => ?_
      rw [bind_of_ok (expect_of_tokens hs'.tokens _)]
      exact Or.inl ⟨x, _, rfl, hx, hs'.advance⟩

theorem arguments_parsed {ts rest : List Token} {es : List Expr} :
    ArgumentsForm ts es rest -> Stops 0 rest -> ∀ room : Nat, es = [] ∧ ts = rest ∨
      Separated (ParsedBy (expression room) Expr.bare) ts es rest ∧
        ∃ t ts', ts = t :: ts' ∧ t.startsExpression = true
  | .none, _, _ => Or.inl ⟨rfl, rfl⟩
  | .some h, hstops, room => Or.inr ⟨items_parsed h hstops room, starts_of_items h⟩

theorem items_parsed {ts rest : List Token} {es : List Expr} :
    ItemsForm ts es rest -> Stops 0 rest -> ∀ room : Nat,
      Separated (ParsedBy (expression room) Expr.bare) ts es rest
  | .one h, hstops, room =>
      .one ⟨consumed_of_binary h, fun _ hs =>
        Reaches.expression (binary_reaches h hstops.tighter) hstops room hs⟩
  | .more h hothers, hstops, room =>
      .more ⟨consumed_of_binary h, fun _ hs =>
          Reaches.expression (binary_reaches h (stops_symbol (by decide) _).tighter)
            (stops_symbol (by decide) _) room hs⟩
        (items_parsed hothers hstops room)

end

theorem expression_gives {ts rest : List Token} {e : Expr} {s : ParseState}
    (h : ExpressionForm ts e rest) (hstops : Stops 0 rest) (room : Nat) (hs : s.Fresh ts) :
    Gives (expression room s) (fun x => x.bare = e.bare) rest :=
  Reaches.expression (binary_reaches h hstops.tighter) hstops room hs

end Parser

/-!
## Recorded errors

A statement in a block that fails at a limit does not end the parse.  Its error
is recorded, and the first one recorded stays the first.
-/

def ParseState.Spoiled (s : ParseState) : Prop :=
  ∃ e, s.errors.getLast? = some e ∧ e.fault.IsLimit

theorem ParseState.Spoiled.of_leads {s s' : ParseState} (h : s.Spoiled) (hleads : s.Leads s') :
    s'.Spoiled := by
  rcases h with ⟨e, hlast, hlimit⟩
  rcases hleads.errors with ⟨front, hsplit⟩
  refine ⟨e, ?_, hlimit⟩
  rw [← hsplit, List.getLast?_append, hlast]
  rfl

namespace Parser

section Completion

variable {α β : Type} {step : Parser α} {next : α -> Parser β} {s : ParseState}
  {Good : α -> Prop} {Good' : β -> Prop} {middle rest : List Token}

/-- The step gives a good result or fails at a limit, or it has recorded a
limit first. -/
def Completes (r : EStateM.Result SyntaxError ParseState α) (Good : α -> Prop)
    (rest : List Token) : Prop :=
  Gives r Good rest ∨ (finalState r).Spoiled

theorem Completes.ok {x : α} {s' : ParseState} (hx : Good x) (hs' : s'.Fresh rest) :
    Completes (.ok x s') Good rest :=
  Or.inl (Or.inl ⟨x, s', rfl, hx, hs'⟩)

theorem Completes.mono {Good' : α -> Prop} (h : Completes (step s) Good rest)
    (hgood : ∀ x, Good x -> Good' x) : Completes (step s) Good' rest :=
  h.imp_left fun hgives => hgives.mono hgood

theorem Gives.andThen (h : Gives (step s) Good middle)
    (hnext : ∀ x s', Good x -> s'.Fresh middle -> Completes (next x s') Good' rest) :
    Completes ((step >>= next) s) Good' rest := by
  rcases h with ⟨x, s', hok, hx, hs'⟩ | hlimit
  · rw [bind_of_ok hok]
    exact hnext x s' hx hs'
  · exact Or.inl (Or.inr hlimit.bind)

theorem Completes.andThen (h : Completes (step s) Good middle) (hgrows : ∀ x, Grows (next x))
    (hnext : ∀ x s', Good x -> s'.Fresh middle -> Completes (next x s') Good' rest) :
    Completes ((step >>= next) s) Good' rest := by
  rcases h with h | hspoiled
  · exact h.andThen hnext
  · right
    cases hstep : step s with
    | ok x s' =>
        rw [hstep] at hspoiled
        rw [bind_of_ok hstep]
        exact hspoiled.of_leads (hgrows x s')
    | error e s' =>
        rw [hstep] at hspoiled
        rw [bind_of_error hstep]
        exact hspoiled

end Completion

/-!
## Statements
-/

def CompletesInside (inside : Parser (List Stmt)) : Prop :=
  ∀ {ts rest : List Token} {body : List Stmt} {s : ParseState},
    StatementsForm ts body (.symbol .rightBrace :: rest) -> s.Fresh ts ->
      Completes (inside s) (fun xs => xs.map Stmt.bare = body.map Stmt.bare)
        (.symbol .rightBrace :: rest)

section Statements

variable {room : Nat} {inside : Parser (List Stmt)} {s : ParseState} {ts rest : List Token}

theorem braced_completes (hinside : CompletesInside inside) {body : List Stmt}
    (h : StatementsForm ts body (.symbol .rightBrace :: rest)) (context : String)
    (hs : s.Fresh (.symbol .leftBrace :: ts)) :
    Completes (braced inside context s) (fun xs => xs.map Stmt.bare = body.map Stmt.bare)
      rest := by
  rw [braced, bind_of_ok (expect_of_tokens hs.tokens _)]
  refine (hinside h hs.advance).andThen
    (fun _ => grows_bind (grows_expect _ _) fun _ => grows_pure _) fun xs s' hxs hs' => ?_
  rw [bind_of_ok (expect_of_tokens hs'.tokens _)]
  exact .ok hxs hs'.advance

theorem block_completes (hinside : CompletesInside inside) {b : Block} (h : BlockForm ts b rest)
    (context : String) (hs : s.Fresh ts) :
    Completes (block inside context s) (fun x => x.bare = b.bare) rest := by
  cases h with
  | braces h =>
      have hfresh : { s with nextBlock := s.nextBlock + 1 }.Fresh _ := ⟨hs.tokens, hs.errors⟩
      rw [block, freshBlock_bind]
      refine (braced_completes hinside h context hfresh).andThen (fun _ => grows_pure _)
        fun xs s' hxs hs' => .ok ?_ hs'
      rw [Block.bare_eq, Block.bare_eq, hxs]

theorem guarded_completes (hinside : CompletesInside inside) {b : Branch}
    (h : BranchForm ts b rest) (room : Nat) (word : String) (hs : s.Fresh ts) :
    Completes (guarded room inside word s) (fun x => x.bare = b.bare) rest := by
  cases h with
  | guarded hcondition hbody =>
      rw [guarded, bind_of_ok (expect_of_tokens hs.tokens _)]
      refine (expression_gives hcondition (stops_symbol (by decide) _) room hs.advance).andThen
        fun condition s1 hsame hs1 => ?_
      rw [bind_of_ok (expect_of_tokens hs1.tokens _)]
      refine (block_completes hinside hbody _ hs1.advance).andThen (fun _ => grows_pure _)
        fun body s2 hbare hs2 => .ok ?_ hs2
      rw [Branch.bare, Branch.bare, hsame, hbare]

theorem declaration_gives {name : Identifier} {value : Expr}
    (h : ExpressionForm ts value (.symbol .semicolon :: rest)) (room : Nat)
    (hs : s.Fresh (.keyword .varWord :: .ident name.name :: .symbol .assign :: ts)) :
    Gives (declaration room s) (fun x => x.bare = (Stmt.declare name value).bare) rest := by
  rw [declaration, advance_bind]
  rcases identifier_of_tokens hs.advance.tokens "variable name after 'var'" with
    ⟨name', s1, hok, hname, htokens, herrors⟩
  have hs1 : s1.Fresh _ := ⟨htokens, herrors.trans hs.advance.errors⟩
  rw [bind_of_ok hok, bind_of_ok (expect_of_tokens hs1.tokens _)]
  refine (expression_gives h (stops_symbol (by decide) _) room hs1.advance).bind
    fun value' s2 hvalue hs2 => ?_
  rw [bind_of_ok (expect_of_tokens hs2.tokens _)]
  refine Or.inl ⟨_, _, rfl, ?_, hs2.advance⟩
  simp only [Stmt.bare, Identifier.bare, hname, hvalue]

theorem parameters_parsed {params : List Identifier} (h : ParametersForm ts params rest)
    (what : String) :
    params = [] ∧ ts = rest ∨ Separated (ParsedBy (identifier what) Identifier.bare) ts params rest
      ∧ ∃ name ts', ts = .ident name :: ts' := by
  have hname : ∀ {ts : List Token} {x : Identifier} {rest : List Token}, NameForm ts x rest ->
      ParsedBy (identifier what) Identifier.bare ts x rest := by
    rintro _ x rest rfl
    refine ⟨.cons (by rintro ⟨⟩) (.refl rest), fun s hs => ?_⟩
    rcases identifier_of_tokens hs.tokens what with ⟨y, s', hok, hname, htokens, herrors⟩
    refine Or.inl ⟨y, s', hok, ?_, htokens, herrors.trans hs.errors⟩
    simp only [Identifier.bare, hname]
  have hlist : ∀ {ts : List Token} {xs : List Identifier} {rest : List Token},
      Separated NameForm ts xs rest ->
        Separated (ParsedBy (identifier what) Identifier.bare) ts xs rest := by
    intro ts xs rest h
    induction h with
    | one h => exact .one (hname h)
    | more h _ ih => exact .more (hname h) ih
  cases h with
  | none => exact Or.inl ⟨rfl, rfl⟩
  | some h =>
      refine Or.inr ⟨hlist h, ?_⟩
      cases h with
      | one h => exact ⟨_, _, h⟩
      | more h _ => exact ⟨_, _, h⟩

theorem function_completes (hinside : CompletesInside inside) {name : Identifier}
    {params : List Identifier} {body : List Stmt} {ts' : List Token}
    (hparams : ParametersForm ts params (.symbol .rightParen :: .symbol .leftBrace :: ts'))
    (hbody : StatementsForm ts' body (.symbol .rightBrace :: rest))
    (hs : s.Fresh (.keyword .fnWord :: .ident name.name :: .symbol .leftParen :: ts)) :
    Completes (function inside s) (fun x => x.bare = (Stmt.function name params body).bare)
      rest := by
  rw [function, advance_bind]
  rcases identifier_of_tokens hs.advance.tokens "function name after 'fn'" with
    ⟨name', s1, hok, hname, htokens, herrors⟩
  have hs1 : s1.Fresh _ := ⟨htokens, herrors.trans hs.advance.errors⟩
  rw [bind_of_ok hok, bind_of_ok (expect_of_tokens hs1.tokens _)]
  have hlist : Gives (parenthesized (identifier "parameter name") "')' after parameters"
      s1.advance) (fun xs => xs.map Identifier.bare = params.map Identifier.bare)
        (.symbol .leftBrace :: ts') := by
    refine parenthesized_gives ?_ _ hs1.advance
    rcases parameters_parsed hparams "parameter name" with hnone | ⟨hsome, first, more, hts⟩
    · exact Or.inl hnone
    · refine Or.inr ⟨hsome, ?_⟩
      rw [hts]
      rintro ⟨⟩
  refine hlist.andThen fun params' s2 hparams' hs2 => ?_
  split
  · refine (braced_completes hinside hbody _ hs2).andThen (fun _ => grows_pure _)
      fun body' s3 hbody' hs3 => .ok ?_ hs3
    simp only [Stmt.bare, Identifier.bare, hname, bareStmts_eq_map, hbody', hparams']
  · next hcount =>
      exact Or.inl (Or.inr ⟨_, s2, rfl, Nat.lt_of_not_le hcount, hs2.errors⟩)

theorem map_reverse_cons_append {α β : Type} {view : α -> β} {x y : α} (h : view x = view y)
    (read others : List α) :
    ((x :: read).reverse ++ others).map view = (read.reverse ++ y :: others).map view := by
  simp [h]

/-- Each branch uses up a round and a token. -/
theorem alternatives_of_other (room : Nat) (rounds : List Located) (read : List Branch)
    (hs : s.Fresh rest) (hrest : rest.head? ≠ some (.keyword .elseWord)) :
    alternatives room inside rounds read s = .ok (read.reverse, none) s := by
  cases rounds with
  | nil => rfl
  | cons _ rounds =>
      rw [alternatives, bind_of_ok (eat_of_not_isAt (hs.isAt_eq_false hrest))]
      rfl

theorem alternatives_of_otherwise (room : Nat) (round : Located) (rounds : List Located)
    (read : List Branch) (hs : s.Fresh (.keyword .elseWord :: ts))
    (hif : s.advance.isAt (.keyword .ifWord) = false) :
    alternatives room inside (round :: rounds) read s =
      (block inside "after 'else'" >>= fun body => pure (read.reverse, some body)) s.advance := by
  rw [alternatives, bind_of_ok (eat_of_tokens hs.tokens), if_pos rfl,
    bind_of_ok (eat_of_not_isAt hif), if_neg Bool.false_ne_true]

theorem alternatives_of_branch (room : Nat) (round : Located) (rounds : List Located)
    (read : List Branch) (hs : s.Fresh (.keyword .elseWord :: .keyword .ifWord :: ts)) :
    alternatives room inside (round :: rounds) read s =
      (guarded room inside "if" >>= fun branch =>
        alternatives room inside rounds (branch :: read)) s.advance.advance := by
  rw [alternatives, bind_of_ok (eat_of_tokens hs.tokens), if_pos rfl,
    bind_of_ok (eat_of_tokens hs.advance.tokens), if_pos rfl]

theorem alternatives_completes (hgrows : Grows inside) (hinside : CompletesInside inside)
    (room : Nat) {ts rest : List Token} {branches : List Branch} {otherwise : Option Block} :
    AlternativesForm ts branches otherwise rest -> rest.head? ≠ some (.keyword .elseWord) ->
      ∀ (rounds : List Located) (read : List Branch) (s : ParseState),
        ts.length ≤ rounds.length -> s.Fresh ts ->
        Completes (alternatives room inside rounds read s)
          (fun x => x.1.map Branch.bare = (read.reverse ++ branches).map Branch.bare ∧
            x.2.map Block.bare = otherwise.map Block.bare) rest
  | .none, hrest, rounds, read, s, _, hs => by
      rw [alternatives_of_other room rounds read hs hrest]
      exact .ok ⟨by rw [List.append_nil], rfl⟩ hs
  | .otherwise h, _, [], _, _, hlength, _ => absurd hlength (Nat.not_succ_le_zero _)
  | .otherwise h, _, round :: rounds, read, s, _, hs => by
      have hif : s.advance.isAt (.keyword .ifWord) = false := by
        cases h with
        | braces _ => exact hs.advance.isAt_eq_false (by rintro ⟨⟩)
      rw [alternatives_of_otherwise room round rounds read hs hif]
      refine (block_completes hinside h _ hs.advance).andThen (fun _ => grows_pure _)
        fun body s' hbody hs' => .ok ⟨?_, congrArg some hbody⟩ hs'
      rw [List.append_nil]
  | .branch hfirst hothers, _, [], _, _, hlength, _ => absurd hlength (Nat.not_succ_le_zero _)
  | .branch hfirst hothers, hrest, round :: rounds, read, s, hlength, hs => by
      rw [alternatives_of_branch room round rounds read hs]
      refine (guarded_completes hinside hfirst room _ hs.advance.advance).andThen
        (fun _ => grows_alternatives room hgrows rounds _) fun first s' hsame hs' => ?_
      have hconsumed := (consumed_of_branch hfirst).length_le
      simp only [List.length_cons] at hlength
      have hrounds := Nat.le_trans hconsumed (Nat.le_of_succ_le (Nat.le_of_succ_le_succ hlength))
      refine (alternatives_completes hgrows hinside room hothers hrest rounds (first :: read) s'
        hrounds hs').mono ?_
      rintro ⟨branches', otherwise'⟩ ⟨hbranches, hotherwise⟩
      exact ⟨hbranches.trans (map_reverse_cons_append hsame read _), hotherwise⟩

theorem choice_completes (hgrows : Grows inside) (hinside : CompletesInside inside)
    {first : Branch} {branches : List Branch} {otherwise : Option Block} {ts' : List Token}
    (hfirst : BranchForm ts first ts') (hothers : AlternativesForm ts' branches otherwise rest)
    (hrest : rest.head? ≠ some (.keyword .elseWord)) (room : Nat)
    (hs : s.Fresh (.keyword .ifWord :: ts)) :
    Completes (choice room inside s)
      (fun x => x.bare = (Stmt.choose (first :: branches) otherwise).bare) rest := by
  rw [choice, advance_bind]
  refine (guarded_completes hinside hfirst room _ hs.advance).andThen ?_
    fun first' s1 hsame hs1 => ?_
  · exact fun first => grows_bind grows_get fun s => grows_bind
      (grows_alternatives room hgrows s.rest [first]) fun _ => grows_pure _
  · rw [get_bind]
    have hrounds : ts'.length ≤ s1.rest.length := by
      rw [← hs1.tokens]
      exact Nat.le_of_eq (List.length_map _)
    refine (alternatives_completes hgrows hinside room hothers hrest s1.rest [first'] s1 hrounds
      hs1).andThen (fun _ => grows_pure _) ?_
    rintro ⟨branches', otherwise'⟩ s2 ⟨hbranches, hotherwise⟩ hs2
    refine .ok ?_ hs2
    rw [Stmt.bare_choose, Stmt.bare_choose, hbranches, hotherwise]
    simp [hsame]

theorem loop_completes (hinside : CompletesInside inside) {condition : Expr} {body : Block}
    (h : BranchForm ts { condition, body } rest) (room : Nat)
    (hs : s.Fresh (.keyword .whileWord :: ts)) :
    Completes (loop room inside s) (fun x => x.bare = (Stmt.loop condition body).bare) rest := by
  rw [loop, advance_bind]
  refine (guarded_completes hinside h room _ hs.advance).andThen (fun _ => grows_pure _)
    fun branch s' hbranch hs' => .ok ?_ hs'
  rw [Branch.bare, Branch.bare, Branch.mk.injEq] at hbranch
  simp only [Stmt.bare, hbranch]

theorem giveBack_gives {value : Expr} {span : Span}
    (h : ExpressionForm ts value (.symbol .semicolon :: rest)) (room : Nat)
    (hs : s.Fresh (.keyword .returnWord :: ts)) :
    Gives (giveBack room s) (fun x => x.bare = (Stmt.giveBack value span).bare) rest := by
  rcases starts_of_binary h with ⟨t, ts', hts, ht⟩
  have hsemicolon : s.advance.isAt (.symbol .semicolon) = false := by
    apply hs.advance.isAt_eq_false
    rw [hts]
    rintro ⟨⟩
    cases ht
  rw [giveBack, get_bind, advance_bind, isAt_bind, hsemicolon]
  refine (expression_gives h (stops_symbol (by decide) _) room hs.advance).bind
    fun value' s1 hvalue hs1 => ?_
  change Gives ((expect .semicolon _ >>= fun _ => pure (Stmt.giveBack value' s.span)) s1) _ _
  rw [bind_of_ok (expect_of_tokens hs1.tokens _)]
  refine Or.inl ⟨_, _, rfl, ?_, hs1.advance⟩
  simp only [Stmt.bare, hvalue]

theorem giveBack_gives_null {span : Span} (room : Nat)
    (hs : s.Fresh (.keyword .returnWord :: .symbol .semicolon :: rest)) :
    Gives (giveBack room s) (fun x => x.bare = (Stmt.giveBack .null span).bare) rest := by
  rw [giveBack, get_bind, advance_bind, isAt_bind,
    ParseState.isAt_iff.mpr hs.advance.token?_eq]
  change Gives ((expect .semicolon _ >>= fun _ => pure (Stmt.giveBack .null s.span)) s.advance)
    _ _
  rw [bind_of_ok (expect_of_tokens hs.advance.tokens _)]
  exact Or.inl ⟨_, _, rfl, by simp only [Stmt.bare], hs.advance.advance⟩

theorem assigned_gives {value : Expr} (h : ExpressionForm ts value (.symbol .semicolon :: rest))
    (room : Nat) (assigned : Expr -> Stmt) {x : Stmt}
    (hassigned : ∀ value', value'.bare = value.bare -> (assigned value').bare = x.bare)
    (hs : s.Fresh ts) :
    Gives ((expression room >>= fun value => expect .semicolon "';' after assignment" >>= fun _ =>
      pure (assigned value)) s) (fun y => y.bare = x.bare) rest := by
  refine (expression_gives h (stops_symbol (by decide) _) room hs).bind
    fun value' s1 hvalue hs1 => ?_
  rw [bind_of_ok (expect_of_tokens hs1.tokens _)]
  exact Or.inl ⟨_, _, rfl, hassigned value' hvalue, hs1.advance⟩

theorem assignment_gives {target : Expr} {value : Expr} {x : Stmt} {ts' : List Token}
    (htarget : ExpressionForm ts target (.symbol .assign :: ts'))
    (hvalue : ExpressionForm ts' value (.symbol .semicolon :: rest)) (room : Nat)
    (hs : s.Fresh ts)
    (hassigned : (∃ name, target = .ident name ∧ x = .assign name value) ∨
      ∃ receiver field, target = .field receiver field ∧ x = .assignField receiver field value) :
    Gives (assignmentOrExpression room s) (fun y => y.bare = x.bare) rest := by
  rw [assignmentOrExpression, get_bind]
  refine (expression_gives htarget (stops_symbol (by decide) _) room hs).bind
    fun first s1 hfirst hs1 => ?_
  rw [bind_of_ok (eat_of_tokens hs1.tokens)]
  rcases hassigned with ⟨name, rfl, rfl⟩ | ⟨receiver, field, rfl, rfl⟩
  · cases first <;> simp only [Expr.bare, reduceCtorEq, Expr.ident.injEq] at hfirst
    next name' =>
      refine assigned_gives hvalue room (.assign name') ?_ hs1.advance
      intro value' hvalue'
      simp only [Stmt.bare, hfirst, hvalue']
  · cases first <;> simp only [Expr.bare, reduceCtorEq, Expr.field.injEq] at hfirst
    next receiver' field' =>
      refine assigned_gives hvalue room (.assignField receiver' field') ?_ hs1.advance
      intro value' hvalue'
      simp only [Stmt.bare, hfirst, hvalue']

theorem evaluation_gives {value : Expr} (h : ExpressionForm ts value (.symbol .semicolon :: rest))
    (room : Nat) (hs : s.Fresh ts) :
    Gives (assignmentOrExpression room s) (fun y => y.bare = (Stmt.evaluate value).bare) rest := by
  rw [assignmentOrExpression, get_bind]
  refine (expression_gives h (stops_symbol (by decide) _) room hs).bind
    fun first s1 hfirst hs1 => ?_
  rw [bind_of_ok (eat_of_not_isAt (hs1.isAt_eq_false (by rintro ⟨⟩))), if_neg Bool.false_ne_true,
    bind_of_ok (expect_of_tokens hs1.tokens _)]
  refine Or.inl ⟨_, _, rfl, ?_, hs1.advance⟩
  simp only [Stmt.bare, hfirst]

theorem statementForm_of_startsExpression {t : Token} (hs : s.Fresh (t :: ts))
    (h : t.startsExpression = true) :
    statementForm room inside s = assignmentOrExpression room s := by
  rw [statementForm, get_bind, hs.token?_eq]
  cases t with
  | keyword word => cases h
  | symbol symbol => cases symbol <;> first | rfl | cases h
  | _ => rfl

end Statements

/-- Every statement is parsed, unless a part of it could stand behind it. -/
def CompletesStatement (statement : Parser Stmt) : Prop :=
  ∀ {ts rest : List Token} {x : Stmt} {s : ParseState}, StatementForm ts x rest ->
    rest.head? ≠ some (.keyword .elseWord) -> s.Fresh ts ->
      Completes (statement s) (fun y => y.bare = x.bare) rest

theorem statementForm_completes {inside : Parser (List Stmt)} (hgrows : Grows inside)
    (hinside : CompletesInside inside) (room : Nat) :
    CompletesStatement (statementForm room inside) := by
  intro ts rest x s h hrest hs
  have hexpression : ∀ {n : Nat} {e : Expr} {rest' : List Token}, BinaryForm n ts e rest' ->
      statementForm room inside s = assignmentOrExpression room s := by
    intro n e rest' h
    rcases starts_of_binary h with ⟨t, ts', rfl, ht⟩
    exact statementForm_of_startsExpression hs ht
  cases h with
  | declare h =>
      rw [statementForm, get_bind, hs.token?_eq]
      exact Or.inl (declaration_gives h room hs)
  | block h =>
      have hopen : statementForm room inside s =
          (block inside "to open block" >>= fun body => pure (Stmt.block body)) s := by
        cases h with
        | braces _ => rw [statementForm, get_bind, hs.token?_eq]
      rw [hopen]
      refine (block_completes hinside h _ hs).andThen (fun _ => grows_pure _)
        fun body s' hbody hs' => .ok ?_ hs'
      simp only [Stmt.bare, hbody]
  | function hparams hbody =>
      rw [statementForm, get_bind, hs.token?_eq]
      exact function_completes hinside hparams hbody hs
  | choose hfirst hothers =>
      rw [statementForm, get_bind, hs.token?_eq]
      exact choice_completes hgrows hinside hfirst hothers hrest room hs
  | loop h =>
      rw [statementForm, get_bind, hs.token?_eq]
      exact loop_completes hinside h room hs
  | giveBack h =>
      rw [statementForm, get_bind, hs.token?_eq]
      exact Or.inl (giveBack_gives h room hs)
  | giveBackNull =>
      rw [statementForm, get_bind, hs.token?_eq]
      exact Or.inl (giveBack_gives_null room hs)
  | assign htarget hvalue =>
      rw [hexpression htarget]
      exact Or.inl (assignment_gives htarget hvalue room hs (Or.inl ⟨_, rfl, rfl⟩))
  | assignField htarget hvalue =>
      rw [hexpression htarget]
      exact Or.inl (assignment_gives htarget hvalue room hs (Or.inr ⟨_, _, rfl, rfl⟩))
  | evaluate h =>
      rw [hexpression h]
      exact Or.inl (evaluation_gives h room hs)

/-!
## Lists of statements
-/

section StatementLists

variable {statement : Parser Stmt} {s : ParseState} {ts rest : List Token}

theorem recovering_completes {Good : Stmt -> Prop} (h : Completes (statement s) Good rest) :
    (∃ x s', recovering statement s = (some x, s') ∧ Good x ∧ s'.Fresh rest) ∨
      (recovering statement s).2.Spoiled := by
  unfold recovering
  cases hstatement : statement s with
  | ok x s' =>
      rw [hstatement] at h
      rcases h with (⟨y, s'', hok, hy, hs''⟩ | ⟨e, s'', herror, _⟩) | hspoiled
      · cases hok
        exact Or.inl ⟨x, s', rfl, hy, hs''⟩
      · cases herror
      · exact Or.inr hspoiled
  | error e s' =>
      rw [hstatement] at h
      right
      rcases h with (⟨y, s'', hok, _⟩ | ⟨e', s'', herror, hlimit, herrors⟩) | hspoiled
      · cases hok
      · cases herror
        have hfirst : (s'.record e).Spoiled := by
          refine ⟨e, ?_, hlimit⟩
          rw [ParseState.record, herrors]
          rfl
        exact hfirst.of_leads (leads_resumed (.refl _))
      · exact hspoiled.of_leads (leads_resumed (s'.leads_record e))

theorem not_stopped {x : Stmt} (h : StatementForm ts x rest) (hs : s.Fresh ts) :
    s.isAt (.symbol .rightBrace) = false ∧ s.atEnd = false := by
  rcases starts_of_statement h with ⟨t, ts', rfl, ht⟩
  exact hs.not_stopped ht

/-- The statements up to a closing brace.  Each one uses up a round and a
token. -/
theorem statementsIn_of_brace (rounds : List Located) (read : List Stmt) (hs : s.Fresh rest)
    (hrest : rest.head? = some (.symbol .rightBrace)) :
    statementsIn statement rounds read s = (read.reverse, s) := by
  cases rounds with
  | nil => rfl
  | cons _ rounds =>
      have hat : s.isAt (.symbol .rightBrace) = true := by
        rw [ParseState.isAt_iff, ParseState.token?_eq, hs.tokens, hrest]
      rw [statementsIn, hat]
      rfl

theorem statementsIn_of_some (round : Located) (rounds : List Located) (read : List Stmt)
    (hbrace : s.isAt (.symbol .rightBrace) = false) (hend : s.atEnd = false) {parsed : Stmt}
    (h : recovering statement s = (some parsed, s')) :
    statementsIn statement (round :: rounds) read s =
      statementsIn statement rounds (parsed :: read) s' := by
  rw [statementsIn, hbrace, hend, h]
  rfl

theorem spoiled_statementsIn (hgrows : Grows statement) (round : Located)
    (rounds : List Located) (read : List Stmt) (hbrace : s.isAt (.symbol .rightBrace) = false)
    (hend : s.atEnd = false) (hspoiled : (recovering statement s).2.Spoiled) :
    (statementsIn statement (round :: rounds) read s).2.Spoiled := by
  rw [statementsIn, hbrace, hend]
  cases hrecovering : recovering statement s with
  | mk parsed? s' =>
      rw [hrecovering] at hspoiled
      cases parsed? with
      | none => exact hspoiled.of_leads (leads_statementsIn hgrows rounds _ s')
      | some x => exact hspoiled.of_leads (leads_statementsIn hgrows rounds _ s')

theorem statementsIn_completes (hgrows : Grows statement)
    (hstatement : CompletesStatement statement) {ts rest : List Token} {body : List Stmt} :
    StatementsForm ts body rest -> rest.head? = some (.symbol .rightBrace) ->
      ∀ (rounds : List Located) (read : List Stmt) (s : ParseState),
        ts.length ≤ rounds.length -> s.Fresh ts ->
        (statementsIn statement rounds read s).1.map Stmt.bare =
            (read.reverse ++ body).map Stmt.bare ∧
          (statementsIn statement rounds read s).2.Fresh rest ∨
        (statementsIn statement rounds read s).2.Spoiled
  | .nil, hrest, rounds, read, s, _, hs => by
      rw [statementsIn_of_brace rounds read hs hrest]
      exact Or.inl ⟨by rw [List.append_nil], hs⟩
  | .cons h _, _, [], _, _, hlength, _ =>
      absurd (Nat.lt_of_lt_of_le h.length_lt hlength) (Nat.not_lt_zero _)
  | .cons h hothers, hrest, round :: rounds, read, s, hlength, hs => by
      rcases not_stopped h hs with ⟨hbrace, hend⟩
      have hnext := head?_of_statements (t := .keyword .elseWord) hothers rfl
        (by rw [hrest]; rintro ⟨⟩)
      have hshort := h.length_lt
      rw [List.length_cons] at hlength
      rcases recovering_completes (hstatement h hnext hs) with ⟨x, s', hx, hsame, hs'⟩ | hspoiled
      · rw [statementsIn_of_some round rounds read hbrace hend hx]
        have hmore := statementsIn_completes hgrows hstatement hothers hrest rounds (x :: read) s'
          (Nat.le_of_lt_succ (Nat.lt_of_lt_of_le hshort hlength)) hs'
        rw [map_reverse_cons_append hsame] at hmore
        exact hmore
      · exact Or.inr (spoiled_statementsIn hgrows round rounds read hbrace hend hspoiled)

theorem statements_completes (hgrows : Grows statement)
    (hstatement : CompletesStatement statement) : CompletesInside (statements statement) := by
  intro ts rest body s h hs
  have hrounds : ts.length ≤ s.rest.length := by
    rw [← hs.tokens]
    exact Nat.le_of_eq (List.length_map _)
  rcases statementsIn_completes hgrows hstatement h rfl s.rest [] s hrounds hs with
    ⟨hmap, hfresh⟩ | hspoiled
  · exact Or.inl (Or.inl ⟨_, _, rfl, hmap, hfresh⟩)
  · exact Or.inr hspoiled

end StatementLists

theorem statement_completes (room : Nat) : CompletesStatement (statement room) := by
  induction room with
  | zero =>
      refine statementForm_completes (grows_fail _) ?_ 0
      intro ts rest body s _ hs
      exact Or.inl (Or.inr (limited_failTooDeep hs _))
  | succ room ih =>
      exact statementForm_completes (grows_statements (grows_statement room))
        (statements_completes (grows_statement room) ih) (room + 1)

/-!
## Programs
-/

theorem topLevelIn_of_end (rounds : List Located) (read : List Stmt) (hs : s.Fresh rest)
    (hrest : rest.head? = some .endOfInput) : topLevelIn rounds read s = (read.reverse, s) := by
  cases rounds with
  | nil => rfl
  | cons _ rounds =>
      have hend : s.atEnd = true := by
        rw [ParseState.atEnd, ParseState.token?_eq, hs.tokens, hrest]
        rfl
      rw [topLevelIn, hend]
      rfl

theorem topLevelIn_of_some (round : Located) (rounds : List Located) (read : List Stmt)
    (hbrace : s.isAt (.symbol .rightBrace) = false) (hend : s.atEnd = false) {parsed : Stmt}
    (h : recovering (statement maxNesting) s = (some parsed, s')) :
    topLevelIn (round :: rounds) read s = topLevelIn rounds (parsed :: read) s' := by
  rw [topLevelIn, hbrace, hend, h]
  rfl

theorem spoiled_topLevelIn (round : Located) (rounds : List Located) (read : List Stmt)
    (hbrace : s.isAt (.symbol .rightBrace) = false) (hend : s.atEnd = false)
    (hspoiled : (recovering (statement maxNesting) s).2.Spoiled) :
    (topLevelIn (round :: rounds) read s).2.Spoiled := by
  rw [topLevelIn, hbrace, hend]
  cases hrecovering : recovering (statement maxNesting) s with
  | mk parsed? s' =>
      rw [hrecovering] at hspoiled
      cases parsed? with
      | none => exact hspoiled.of_leads (leads_topLevelIn rounds _ s')
      | some x => exact hspoiled.of_leads (leads_topLevelIn rounds _ s')

theorem topLevelIn_completes {ts rest : List Token} {body : List Stmt} :
    StatementsForm ts body rest -> rest.head? = some .endOfInput ->
      ∀ (rounds : List Located) (read : List Stmt) (s : ParseState),
        ts.length ≤ rounds.length -> s.Fresh ts ->
        (topLevelIn rounds read s).1.map Stmt.bare = (read.reverse ++ body).map Stmt.bare ∧
          (topLevelIn rounds read s).2.errors = [] ∨
        (topLevelIn rounds read s).2.Spoiled
  | .nil, hrest, rounds, read, s, _, hs => by
      rw [topLevelIn_of_end rounds read hs hrest]
      exact Or.inl ⟨by rw [List.append_nil], hs.errors⟩
  | .cons h _, _, [], _, _, hlength, _ =>
      absurd (Nat.lt_of_lt_of_le h.length_lt hlength) (Nat.not_lt_zero _)
  | .cons h hothers, hrest, round :: rounds, read, s, hlength, hs => by
      rcases not_stopped h hs with ⟨hbrace, hend⟩
      have hnext := head?_of_statements (t := .keyword .elseWord) hothers rfl
        (by rw [hrest]; rintro ⟨⟩)
      have hshort := h.length_lt
      rw [List.length_cons] at hlength
      rcases recovering_completes (statement_completes maxNesting h hnext hs) with
        ⟨x, s', hx, hsame, hs'⟩ | hspoiled
      · rw [topLevelIn_of_some round rounds read hbrace hend hx]
        have hmore := topLevelIn_completes hothers hrest rounds (x :: read) s'
          (Nat.le_of_lt_succ (Nat.lt_of_lt_of_le hshort hlength)) hs'
        rw [map_reverse_cons_append hsame] at hmore
        exact hmore
      · exact Or.inr (spoiled_topLevelIn round rounds read hbrace hend hspoiled)

end Parser

namespace Program

theorem ofTokens_of_programForm {tokens : List Located} {p : Program}
    (h : ProgramForm (ParseState.ofTokens tokens).tokens p) :
    (∃ p', ofTokens tokens = .ok p' ∧ p'.bare = p.bare) ∨
      ∃ e errors, ofTokens tokens = .error (e :: errors) ∧ e.fault.IsLimit := by
  unfold ofTokens Parser.program
  have hcomplete := Parser.topLevelIn_completes h rfl (ParseState.ofTokens tokens).rest []
    (ParseState.ofTokens tokens) (Nat.le_of_eq (List.length_map _)) ⟨rfl, rfl⟩
  cases htop : Parser.topLevelIn (ParseState.ofTokens tokens).rest [] (.ofTokens tokens) with
  | mk parsed s' =>
      rw [htop] at hcomplete
      dsimp only at hcomplete ⊢
      rcases hcomplete with ⟨hmap, herrors⟩ | ⟨e, hlast, hlimit⟩
      · have hmap' : parsed.map Stmt.bare = p.statements.map Stmt.bare := hmap
        have hempty : s'.errors.isEmpty = true := List.isEmpty_iff.mpr herrors
        rw [if_pos hempty]
        refine Or.inl ⟨_, rfl, ?_⟩
        simp only [Program.bare, bareStmts_eq_map, hmap']
      · rcases List.getLast?_eq_some_iff.mp hlast with ⟨later, herrors⟩
        have hempty : ¬ s'.errors.isEmpty = true := by simp [herrors]
        rw [if_neg hempty]
        exact Or.inr ⟨e, later.reverse, by simp [herrors], hlimit⟩

/-- The parser accepts the grammar and nothing else, and the tree that it builds
is that of the derivation.  In front of a limit the grammar and the parser part,
and then the limit is the first error. -/
theorem ofTokens_accepts_exactly {tokens : List Located} {body : List Token}
    (htokens : (tokens.filter (·.token.isSignificant)).map (·.token) = body ++ [.endOfInput])
    (hbody : .endOfInput ∉ body) :
    (∀ p, ofTokens tokens = .ok p -> ProgramForm (body ++ [.endOfInput]) p) ∧
      ∀ p, ProgramForm (body ++ [.endOfInput]) p ->
        (∃ p', ofTokens tokens = .ok p' ∧ p'.bare = p.bare) ∨
          ∃ e errors, ofTokens tokens = .error (e :: errors) ∧ e.fault.IsLimit := by
  constructor
  · intro p h
    exact programForm_of_ofTokens htokens hbody h
  · intro p h
    rw [← htokens] at h
    exact ofTokens_of_programForm h

-- `o.f = 1 - 2 * g(a) - 3;` and a comment behind it
theorem ofTokens_accepts_exactly_assignment :
    let name (text : String) : Identifier := { id := 0, name := text, span := .start }
    let value : Expr :=
      .binary .subtract
        (.binary .subtract (.number 1)
          (.binary .multiply (.number 2) (.call (.ident (name "g")) [.ident (name "a")] .start)
            .start) .start)
        (.number 3) .start
    let p : Program := { statements := [.assignField (.ident (name "o")) (name "f") value] }
    let body : List Token :=
      [.ident "o", .symbol .dot, .ident "f", .symbol .assign, .integer 1, .symbol .minus,
        .integer 2, .symbol .star, .ident "g", .symbol .leftParen, .ident "a",
        .symbol .rightParen, .symbol .minus, .integer 3, .symbol .semicolon]
    let tokens : List Located :=
      (body ++ [Token.comment "done", .newline, .endOfInput]).map fun t =>
        { token := t, span := .start }
    ProgramForm (body ++ [.endOfInput]) p ∧
      ((∃ p', ofTokens tokens = .ok p' ∧ p'.bare = p.bare) ∨
        ∃ e errors, ofTokens tokens = .error (e :: errors) ∧ e.fault.IsLimit) := by
  intro name value p body tokens
  have hprimary : ∀ {ts rest : List Token} {e : Expr}, PrimaryForm ts e rest ->
      BinaryForm tightest ts e rest := fun h => .unary (.application (.primary h))
  have hname : ∀ (text : String) (rest : List Token),
      PrimaryForm (.ident text :: rest) (.ident (name text)) rest :=
    fun text rest => @PrimaryForm.ident (name text) rest
  have htarget : ∀ rest : List Token, ExpressionForm
      (.ident "o" :: .symbol .dot :: .ident "f" :: rest) (.field (.ident (name "o")) (name "f"))
      rest := by
    intro rest
    exact BinaryForm.loosen (.unary (.application (.field (.primary (hname "o" _)))))
      (by decide) (by decide)
  have hcall : ∀ rest : List Token, UnaryForm
      (.ident "g" :: .symbol .leftParen :: .ident "a" :: .symbol .rightParen :: rest)
      (.call (.ident (name "g")) [.ident (name "a")] .start) rest := by
    intro rest
    exact .application (.call (.primary (hname "g" _))
      (.some (.one ((hprimary (hname "a" _)).loosen (by decide) (by decide)))))
  have hvalue : BinaryForm BinaryOp.subtract.level (body.drop 4 ++ [.endOfInput]) value
      (.symbol .semicolon :: [.endOfInput]) := by
    refine .operation (.operation ((hprimary .number).loosen ?_ ?_) ?_)
      ((hprimary .number).loosen ?_ ?_)
    · decide
    · decide
    · exact @BinaryForm.operation _ _ _ .multiply _ _ .start
        ((hprimary .number).loosen (by decide) (by decide)) (.unary (hcall _))
    · decide
    · decide
  have hform : ProgramForm (body ++ [.endOfInput]) p :=
    .cons (.assignField (htarget _) (hvalue.loosen (by decide) (by decide))) .nil
  have hbody : .endOfInput ∉ body := by decide
  exact ⟨hform, (ofTokens_accepts_exactly rfl hbody).2 p hform⟩

end Program
end StackScript
