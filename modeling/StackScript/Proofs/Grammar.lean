import StackScript.Program.Outline

/-!
# The grammar

The forms of the language, each as a relation between a list of tokens, a tree
and the tokens that are left behind the form.  Numbers and positions in a tree
are free: the grammar does not speak of them.

    program     := statement*
    block       := "{" statement* "}"
    statement   := "var" ID "=" expr ";"
                 | block
                 | "fn" ID "(" (ID ("," ID)*)? ")" block
                 | "if" "(" expr ")" block ("else" "if" "(" expr ")" block)* ("else" block)?
                 | "while" "(" expr ")" block
                 | "return" expr? ";"
                 | expr "=" expr ";"
                 | expr ";"
    expr        := six levels of binary operators, all grouping to the left
    unary       := ("!" | "-") unary | application
    application := primary ("(" args? ")" | "." ID)*
    primary     := NUMBER | STRING | "true" | "false" | "null" | ID | "(" expr ")"
-/

namespace StackScript

def BinaryOp.level : BinaryOp -> Nat
  | or => 0
  | and => 1
  | equal | notEqual => 2
  | less | lessEqual | greater | greaterEqual => 3
  | add | subtract => 4
  | multiply | divide => 5

def tightest : Nat := 6

namespace Grammar

/-!
## Lists
-/

inductive Separated {α : Type} (Item : List Token -> α -> List Token -> Prop) :
    List Token -> List α -> List Token -> Prop where
  | one {ts rest : List Token} {x : α} (h : Item ts x rest) : Separated Item ts [x] rest
  | more {ts ts' rest : List Token} {x : α} {xs : List α} (h : Item ts x (.symbol .comma :: ts'))
      (hs : Separated Item ts' xs rest) : Separated Item ts (x :: xs) rest

def NameForm (ts : List Token) (x : Identifier) (rest : List Token) : Prop :=
  ts = .ident x.name :: rest

inductive ParametersForm : List Token -> List Identifier -> List Token -> Prop where
  | none {rest : List Token} : ParametersForm rest [] rest
  | some {ts rest : List Token} {xs : List Identifier} (h : Separated NameForm ts xs rest) :
      ParametersForm ts xs rest

/-!
## Expressions
-/

mutual

/-- An expression whose loosest operator has the given level or a tighter one.
Operators of one level group to the left. -/
inductive BinaryForm : Nat -> List Token -> Expr -> List Token -> Prop where
  | unary {ts rest : List Token} {e : Expr} (h : UnaryForm ts e rest) :
      BinaryForm tightest ts e rest
  | tighter {level : Nat} {ts rest : List Token} {e : Expr} (hlevel : level < tightest)
      (h : BinaryForm (level + 1) ts e rest) : BinaryForm level ts e rest
  | operation {ts ts' rest : List Token} {op : BinaryOp} {left right : Expr} {span : Span}
      (hleft : BinaryForm op.level ts left (.symbol op.symbol :: ts'))
      (hright : BinaryForm (op.level + 1) ts' right rest) :
      BinaryForm op.level ts (.binary op left right span) rest

inductive UnaryForm : List Token -> Expr -> List Token -> Prop where
  | application {ts rest : List Token} {e : Expr} (h : ApplicationForm ts e rest) :
      UnaryForm ts e rest
  | operation {ts rest : List Token} {op : UnaryOp} {e : Expr} {span : Span}
      (h : UnaryForm ts e rest) :
      UnaryForm (.symbol op.symbol :: ts) (.unary op e span) rest

inductive ApplicationForm : List Token -> Expr -> List Token -> Prop where
  | primary {ts rest : List Token} {e : Expr} (h : PrimaryForm ts e rest) :
      ApplicationForm ts e rest
  | call {ts ts' rest : List Token} {callee : Expr} {arguments : List Expr} {span : Span}
      (hcallee : ApplicationForm ts callee (.symbol .leftParen :: ts'))
      (harguments : ArgumentsForm ts' arguments (.symbol .rightParen :: rest)) :
      ApplicationForm ts (.call callee arguments span) rest
  | field {ts rest : List Token} {receiver : Expr} {name : Identifier}
      (h : ApplicationForm ts receiver (.symbol .dot :: .ident name.name :: rest)) :
      ApplicationForm ts (.field receiver name) rest

inductive PrimaryForm : List Token -> Expr -> List Token -> Prop where
  | number {value : Int32} {rest : List Token} :
      PrimaryForm (.integer value :: rest) (.number value) rest
  | string {text : String} {rest : List Token} :
      PrimaryForm (.string text :: rest) (.string text) rest
  | bool {value : Bool} {rest : List Token} : PrimaryForm (.bool value :: rest) (.bool value) rest
  | null {rest : List Token} : PrimaryForm (.null :: rest) .null rest
  | ident {name : Identifier} {rest : List Token} :
      PrimaryForm (.ident name.name :: rest) (.ident name) rest
  | parenthesized {ts rest : List Token} {e : Expr}
      (h : BinaryForm 0 ts e (.symbol .rightParen :: rest)) :
      PrimaryForm (.symbol .leftParen :: ts) e rest

inductive ArgumentsForm : List Token -> List Expr -> List Token -> Prop where
  | none {rest : List Token} : ArgumentsForm rest [] rest
  | some {ts rest : List Token} {es : List Expr} (h : ItemsForm ts es rest) :
      ArgumentsForm ts es rest

inductive ItemsForm : List Token -> List Expr -> List Token -> Prop where
  | one {ts rest : List Token} {e : Expr} (h : BinaryForm 0 ts e rest) : ItemsForm ts [e] rest
  | more {ts ts' rest : List Token} {e : Expr} {es : List Expr}
      (h : BinaryForm 0 ts e (.symbol .comma :: ts')) (hs : ItemsForm ts' es rest) :
      ItemsForm ts (e :: es) rest

end

def ExpressionForm : List Token -> Expr -> List Token -> Prop :=
  BinaryForm 0

/-- What binds tightly stands where something looser may stand. -/
theorem BinaryForm.loosen {n level : Nat} {ts rest : List Token} {e : Expr}
    (h : BinaryForm level ts e rest) (hle : n ≤ level) (hlevel : level ≤ tightest) :
    BinaryForm n ts e rest := by
  induction hle with
  | refl => exact h
  | step _ ih => exact ih (.tighter hlevel h) (Nat.le_of_succ_le hlevel)

theorem itemsForm_of_separated {ts rest : List Token} {es : List Expr}
    (h : Separated ExpressionForm ts es rest) : ItemsForm ts es rest := by
  induction h with
  | one h => exact .one h
  | more h _ ih => exact .more h ih

/-!
## Statements
-/

mutual

inductive StatementForm : List Token -> Stmt -> List Token -> Prop where
  | declare {ts rest : List Token} {name : Identifier} {value : Expr}
      (h : ExpressionForm ts value (.symbol .semicolon :: rest)) :
      StatementForm (.keyword .varWord :: .ident name.name :: .symbol .assign :: ts)
        (.declare name value) rest
  | block {ts rest : List Token} {body : Block} (h : BlockForm ts body rest) :
      StatementForm ts (.block body) rest
  | function {ts ts' rest : List Token} {name : Identifier} {params : List Identifier}
      {body : List Stmt}
      (hparams : ParametersForm ts params (.symbol .rightParen :: .symbol .leftBrace :: ts'))
      (hbody : StatementsForm ts' body (.symbol .rightBrace :: rest)) :
      StatementForm (.keyword .fnWord :: .ident name.name :: .symbol .leftParen :: ts)
        (.function name params body) rest
  | choose {ts ts' rest : List Token} {first : Branch} {branches : List Branch}
      {otherwise : Option Block} (hfirst : BranchForm ts first ts')
      (hothers : AlternativesForm ts' branches otherwise rest) :
      StatementForm (.keyword .ifWord :: ts) (.choose (first :: branches) otherwise) rest
  | loop {ts rest : List Token} {condition : Expr} {body : Block}
      (h : BranchForm ts { condition, body } rest) :
      StatementForm (.keyword .whileWord :: ts) (.loop condition body) rest
  | giveBack {ts rest : List Token} {value : Expr} {span : Span}
      (h : ExpressionForm ts value (.symbol .semicolon :: rest)) :
      StatementForm (.keyword .returnWord :: ts) (.giveBack value span) rest
  | giveBackNull {rest : List Token} {span : Span} :
      StatementForm (.keyword .returnWord :: .symbol .semicolon :: rest) (.giveBack .null span)
        rest
  | assign {ts ts' rest : List Token} {target : Identifier} {value : Expr}
      (htarget : ExpressionForm ts (.ident target) (.symbol .assign :: ts'))
      (hvalue : ExpressionForm ts' value (.symbol .semicolon :: rest)) :
      StatementForm ts (.assign target value) rest
  | assignField {ts ts' rest : List Token} {receiver : Expr} {field : Identifier} {value : Expr}
      (htarget : ExpressionForm ts (.field receiver field) (.symbol .assign :: ts'))
      (hvalue : ExpressionForm ts' value (.symbol .semicolon :: rest)) :
      StatementForm ts (.assignField receiver field value) rest
  | evaluate {ts rest : List Token} {value : Expr}
      (h : ExpressionForm ts value (.symbol .semicolon :: rest)) :
      StatementForm ts (.evaluate value) rest

inductive BlockForm : List Token -> Block -> List Token -> Prop where
  | braces {ts rest : List Token} {id : BlockId} {statements : List Stmt}
      (h : StatementsForm ts statements (.symbol .rightBrace :: rest)) :
      BlockForm (.symbol .leftBrace :: ts) { id, statements } rest

inductive BranchForm : List Token -> Branch -> List Token -> Prop where
  | guarded {ts ts' rest : List Token} {condition : Expr} {body : Block}
      (hcondition : ExpressionForm ts condition (.symbol .rightParen :: ts'))
      (hbody : BlockForm ts' body rest) :
      BranchForm (.symbol .leftParen :: ts) { condition, body } rest

inductive AlternativesForm : List Token -> List Branch -> Option Block -> List Token -> Prop where
  | none {rest : List Token} : AlternativesForm rest [] none rest
  | otherwise {ts rest : List Token} {body : Block} (h : BlockForm ts body rest) :
      AlternativesForm (.keyword .elseWord :: ts) [] (some body) rest
  | branch {ts ts' rest : List Token} {first : Branch} {branches : List Branch}
      {otherwise : Option Block} (hfirst : BranchForm ts first ts')
      (hothers : AlternativesForm ts' branches otherwise rest) :
      AlternativesForm (.keyword .elseWord :: .keyword .ifWord :: ts) (first :: branches)
        otherwise rest

inductive StatementsForm : List Token -> List Stmt -> List Token -> Prop where
  | nil {rest : List Token} : StatementsForm rest [] rest
  | cons {ts ts' rest : List Token} {s : Stmt} {statements : List Stmt}
      (h : StatementForm ts s ts') (hs : StatementsForm ts' statements rest) :
      StatementsForm ts (s :: statements) rest

end

def ProgramForm (ts : List Token) (program : Program) : Prop :=
  StatementsForm ts program.statements [.endOfInput]

/-!
## Consumed tokens
-/

/-- The rest stands at the end of the tokens, and the end of the input is not
among those in front of it. -/
def Consumed (ts rest : List Token) : Prop :=
  ∃ front, ts = front ++ rest ∧ .endOfInput ∉ front

namespace Consumed

variable {ts ts' rest : List Token} {t : Token}

theorem refl (ts : List Token) : Consumed ts ts :=
  ⟨[], rfl, List.not_mem_nil⟩

theorem cons (ht : t ≠ .endOfInput) (h : Consumed ts rest) : Consumed (t :: ts) rest := by
  rcases h with ⟨front, rfl, hfront⟩
  refine ⟨t :: front, rfl, ?_⟩
  rw [List.mem_cons]
  rintro (hsame | hmem)
  · exact ht hsame.symm
  · exact hfront hmem

theorem trans (h : Consumed ts ts') (h' : Consumed ts' rest) : Consumed ts rest := by
  rcases h with ⟨front, rfl, hfront⟩
  rcases h' with ⟨front', rfl, hfront'⟩
  refine ⟨front ++ front', (List.append_assoc _ _ _).symm, ?_⟩
  rw [List.mem_append]
  rintro (hmem | hmem)
  · exact hfront hmem
  · exact hfront' hmem

theorem tail (h : Consumed ts (t :: rest)) (ht : t ≠ .endOfInput) : Consumed ts rest :=
  h.trans (cons ht (refl rest))

theorem length_le (h : Consumed ts rest) : rest.length ≤ ts.length := by
  rcases h with ⟨front, rfl, _⟩
  simp

theorem eq_of_endOfInput {body more : List Token} (hbody : .endOfInput ∉ body)
    (h : Consumed (body ++ [.endOfInput]) (.endOfInput :: more)) : more = [] := by
  rcases h with ⟨front, hsplit, hfront⟩
  rcases List.append_eq_append_iff.mp hsplit with ⟨middle, _, hend⟩ | ⟨middle, hmiddle, hend⟩
  · have hlength := congrArg List.length hend
    rw [List.length_append, List.length_cons, List.length_cons] at hlength
    exact List.eq_nil_of_length_eq_zero (by simp at hlength; omega)
  · cases middle with
    | nil => exact (List.cons.inj hend).2
    | cons t middle =>
        rw [(List.cons.inj hend).1] at hbody
        exact absurd (by simp [hmiddle]) hbody

theorem ne_nil {body : List Token} (h : Consumed (body ++ [.endOfInput]) rest) : rest ≠ [] := by
  rintro rfl
  rcases h with ⟨front, hsplit, hfront⟩
  rw [List.append_nil] at hsplit
  exact hfront (by simp [← hsplit])

end Consumed

theorem consumed_of_separated {α : Type} {Item : List Token -> α -> List Token -> Prop}
    {ts rest : List Token} {xs : List α}
    (hitem : ∀ {ts x rest}, Item ts x rest -> Consumed ts rest)
    (h : Separated Item ts xs rest) : Consumed ts rest := by
  induction h with
  | one h => exact hitem h
  | more h _ ih => exact (hitem h).trans (.cons (by nofun) ih)

theorem consumed_of_parameters {ts rest : List Token} {xs : List Identifier}
    (h : ParametersForm ts xs rest) : Consumed ts rest := by
  cases h with
  | none => exact .refl _
  | some h =>
      apply consumed_of_separated _ h
      rintro _ name rest rfl
      exact .cons (by nofun) (.refl rest)

mutual

theorem consumed_of_binary {n : Nat} {ts rest : List Token} {e : Expr} :
    BinaryForm n ts e rest -> Consumed ts rest
  | .unary h => consumed_of_unary h
  | .tighter _ h => consumed_of_binary h
  | .operation hleft hright =>
      ((consumed_of_binary hleft).tail (by nofun)).trans (consumed_of_binary hright)

theorem consumed_of_unary {ts rest : List Token} {e : Expr} :
    UnaryForm ts e rest -> Consumed ts rest
  | .application h => consumed_of_application h
  | .operation h => .cons (by nofun) (consumed_of_unary h)

theorem consumed_of_application {ts rest : List Token} {e : Expr} :
    ApplicationForm ts e rest -> Consumed ts rest
  | .primary h => consumed_of_primary h
  | .call hcallee harguments =>
      ((consumed_of_application hcallee).tail (by nofun)).trans
        ((consumed_of_arguments harguments).tail (by nofun))
  | .field h => ((consumed_of_application h).tail (by nofun)).tail (by nofun)

theorem consumed_of_primary {ts rest : List Token} {e : Expr} :
    PrimaryForm ts e rest -> Consumed ts rest
  | .number | .string | .bool | .null | .ident => .cons (by nofun) (.refl rest)
  | .parenthesized h => .cons (by nofun) ((consumed_of_binary h).tail (by nofun))

theorem consumed_of_arguments {ts rest : List Token} {es : List Expr} :
    ArgumentsForm ts es rest -> Consumed ts rest
  | .none => .refl ts
  | .some h => consumed_of_items h

theorem consumed_of_items {ts rest : List Token} {es : List Expr} :
    ItemsForm ts es rest -> Consumed ts rest
  | .one h => consumed_of_binary h
  | .more h hs => ((consumed_of_binary h).tail (by nofun)).trans (consumed_of_items hs)

end

mutual

theorem consumed_of_statement {ts rest : List Token} {s : Stmt} :
    StatementForm ts s rest -> Consumed ts rest
  | .declare h =>
      .cons (by nofun) (.cons (by nofun) (.cons (by nofun)
        ((consumed_of_binary h).tail (by nofun))))
  | .block h => consumed_of_block h
  | .function hparams hbody =>
      .cons (by nofun) (.cons (by nofun) (.cons (by nofun)
        ((((consumed_of_parameters hparams).tail (by nofun)).tail (by nofun)).trans
          ((consumed_of_statements hbody).tail (by nofun)))))
  | .choose hfirst hothers =>
      .cons (by nofun) ((consumed_of_branch hfirst).trans (consumed_of_alternatives hothers))
  | .loop h => .cons (by nofun) (consumed_of_branch h)
  | .giveBack h => .cons (by nofun) ((consumed_of_binary h).tail (by nofun))
  | .giveBackNull => .cons (by nofun) (.cons (by nofun) (.refl rest))
  | .assign htarget hvalue | .assignField htarget hvalue =>
      ((consumed_of_binary htarget).tail (by nofun)).trans
        ((consumed_of_binary hvalue).tail (by nofun))
  | .evaluate h => (consumed_of_binary h).tail (by nofun)

theorem consumed_of_block {ts rest : List Token} {b : Block} :
    BlockForm ts b rest -> Consumed ts rest
  | .braces h => .cons (by nofun) ((consumed_of_statements h).tail (by nofun))

theorem consumed_of_branch {ts rest : List Token} {b : Branch} :
    BranchForm ts b rest -> Consumed ts rest
  | .guarded hcondition hbody =>
      .cons (by nofun) (((consumed_of_binary hcondition).tail (by nofun)).trans
        (consumed_of_block hbody))

theorem consumed_of_alternatives {ts rest : List Token} {branches : List Branch}
    {otherwise : Option Block} : AlternativesForm ts branches otherwise rest -> Consumed ts rest
  | .none => .refl ts
  | .otherwise h => .cons (by nofun) (consumed_of_block h)
  | .branch hfirst hothers =>
      .cons (by nofun) (.cons (by nofun)
        ((consumed_of_branch hfirst).trans (consumed_of_alternatives hothers)))

theorem consumed_of_statements {ts rest : List Token} {statements : List Stmt} :
    StatementsForm ts statements rest -> Consumed ts rest
  | .nil => .refl ts
  | .cons h hs => (consumed_of_statement h).trans (consumed_of_statements hs)

end

theorem BlockForm.length_lt {ts rest : List Token} {b : Block} (h : BlockForm ts b rest) :
    rest.length < ts.length := by
  cases h with
  | braces h =>
      have := (consumed_of_statements h).length_le
      rw [List.length_cons] at this ⊢
      omega

theorem StatementForm.length_lt {ts rest : List Token} {s : Stmt} (h : StatementForm ts s rest) :
    rest.length < ts.length := by
  -- The last token of a statement that does not begin with a keyword is known.
  cases h with
  | declare h =>
      have := ((consumed_of_binary h).tail (by nofun)).length_le
      simp only [List.length_cons]
      omega
  | block h => exact h.length_lt
  | function hparams hbody =>
      have := (consumed_of_parameters hparams).length_le
      have := (consumed_of_statements hbody).length_le
      simp only [List.length_cons] at *
      omega
  | choose hfirst hothers =>
      have := ((consumed_of_branch hfirst).trans (consumed_of_alternatives hothers)).length_le
      exact Nat.lt_succ_of_le this
  | loop h => exact Nat.lt_succ_of_le (consumed_of_branch h).length_le
  | giveBack h =>
      exact Nat.lt_succ_of_le ((consumed_of_binary h).tail (by nofun)).length_le
  | giveBackNull =>
      simp only [List.length_cons]
      omega
  | assign htarget hvalue =>
      have := ((consumed_of_binary htarget).tail (by nofun)).length_le
      exact Nat.lt_of_lt_of_le (Nat.lt_of_succ_le (consumed_of_binary hvalue).length_le) this
  | assignField htarget hvalue =>
      have := ((consumed_of_binary htarget).tail (by nofun)).length_le
      exact Nat.lt_of_lt_of_le (Nat.lt_of_succ_le (consumed_of_binary hvalue).length_le) this
  | evaluate h => exact Nat.lt_of_succ_le (consumed_of_binary h).length_le

end Grammar

/-!
## First tokens
-/

def Token.startsPrimary : Token -> Bool
  | integer _ | string _ | bool _ | null | ident _ | symbol .leftParen => true
  | _ => false

def Token.startsExpression : Token -> Bool
  | symbol .bang | symbol .minus => true
  | t => t.startsPrimary

theorem Token.startsExpression_of_primary {t : Token} (h : t.startsPrimary = true) :
    t.startsExpression = true := by
  cases t with
  | symbol s => cases s <;> first | rfl | cases h
  | _ => exact h

namespace Grammar

theorem starts_of_primary {ts rest : List Token} {e : Expr} (h : PrimaryForm ts e rest) :
    ∃ t ts', ts = t :: ts' ∧ t.startsPrimary = true := by
  cases h <;> exact ⟨_, _, rfl, rfl⟩

theorem starts_of_application {ts rest : List Token} {e : Expr} :
    ApplicationForm ts e rest -> ∃ t ts', ts = t :: ts' ∧ t.startsPrimary = true
  | .primary h => starts_of_primary h
  | .call hcallee _ => starts_of_application hcallee
  | .field h => starts_of_application h

theorem starts_of_unary {ts rest : List Token} {e : Expr} :
    UnaryForm ts e rest -> ∃ t ts', ts = t :: ts' ∧ t.startsExpression = true
  | .application h => by
      rcases starts_of_application h with ⟨t, ts', rfl, ht⟩
      exact ⟨t, ts', rfl, Token.startsExpression_of_primary ht⟩
  | @UnaryForm.operation ts' _ op _ _ _ => ⟨.symbol op.symbol, ts', rfl, by cases op <;> rfl⟩

theorem starts_of_binary {n : Nat} {ts rest : List Token} {e : Expr} :
    BinaryForm n ts e rest -> ∃ t ts', ts = t :: ts' ∧ t.startsExpression = true
  | .unary h => starts_of_unary h
  | .tighter _ h => starts_of_binary h
  | .operation hleft _ => starts_of_binary hleft

theorem starts_of_items {ts rest : List Token} {es : List Expr} (h : ItemsForm ts es rest) :
    ∃ t ts', ts = t :: ts' ∧ t.startsExpression = true := by
  cases h with
  | one h => exact starts_of_binary h
  | more h _ => exact starts_of_binary h

theorem starts_of_statement {ts rest : List Token} {x : Stmt} (h : StatementForm ts x rest) :
    ∃ t ts', ts = t :: ts' ∧ (t.startsStatement || t.startsExpression) = true := by
  have hexpression : ∀ {e : Expr} {rest : List Token}, ExpressionForm ts e rest ->
      ∃ t ts', ts = t :: ts' ∧ (t.startsStatement || t.startsExpression) = true := by
    intro e rest h
    rcases starts_of_binary h with ⟨t, ts', hts, ht⟩
    exact ⟨t, ts', hts, by rw [ht, Bool.or_true]⟩
  cases h with
  | block h =>
      cases h with
      | braces _ => exact ⟨_, _, rfl, rfl⟩
  | assign htarget _ => exact hexpression htarget
  | assignField htarget _ => exact hexpression htarget
  | evaluate h => exact hexpression h
  | _ => exact ⟨_, _, rfl, rfl⟩

theorem head?_of_statements {ts rest : List Token} {body : List Stmt} {t : Token}
    (h : StatementsForm ts body rest)
    (ht : (t.startsStatement || t.startsExpression) = false)
    (hrest : rest.head? ≠ some t) : ts.head? ≠ some t := by
  cases h with
  | nil => exact hrest
  | cons h _ =>
      rcases starts_of_statement h with ⟨t', ts', rfl, ht'⟩
      rintro ⟨⟩
      rw [ht] at ht'
      cases ht'

end Grammar

/-!
## Trees without numbers and positions
-/

def Identifier.bare (name : Identifier) : Identifier where
  id := 0
  name := name.name
  span := .start

mutual

def Expr.bare : Expr -> Expr
  | .call callee arguments _ => .call callee.bare (bareExprs arguments) .start
  | .unary op operand _ => .unary op operand.bare .start
  | .binary op left right _ => .binary op left.bare right.bare .start
  | .string text => .string text
  | .number value => .number value
  | .bool value => .bool value
  | .null => .null
  | .ident name => .ident name.bare
  | .field receiver name => .field receiver.bare name.bare

def bareExprs : List Expr -> List Expr
  | [] => []
  | e :: rest => e.bare :: bareExprs rest

end

theorem bareExprs_eq_map (es : List Expr) : bareExprs es = es.map Expr.bare := by
  induction es with
  | nil => rw [bareExprs, List.map_nil]
  | cons e rest ih => rw [bareExprs, List.map_cons, ih]

mutual

def Stmt.bare : Stmt -> Stmt
  | .declare name value => .declare name.bare value.bare
  | .assign target value => .assign target.bare value.bare
  | .assignField receiver field value => .assignField receiver.bare field.bare value.bare
  | .function name params body => .function name.bare (params.map Identifier.bare) (bareStmts body)
  | .choose branches none => .choose (bareBranches branches) none
  | .choose branches (some otherwise) => .choose (bareBranches branches) (some otherwise.bare)
  | .loop condition body => .loop condition.bare body.bare
  | .giveBack value _ => .giveBack value.bare .start
  | .evaluate value => .evaluate value.bare
  | .block body => .block body.bare

def Block.bare : Block -> Block
  | { statements, .. } => { id := 0, statements := bareStmts statements }

def bareStmts : List Stmt -> List Stmt
  | [] => []
  | s :: rest => s.bare :: bareStmts rest

def bareBranches : List Branch -> List Branch
  | [] => []
  | { condition, body } :: rest =>
      { condition := condition.bare, body := body.bare } :: bareBranches rest

end

def Branch.bare (branch : Branch) : Branch where
  condition := branch.condition.bare
  body := branch.body.bare

theorem bareStmts_eq_map (statements : List Stmt) :
    bareStmts statements = statements.map Stmt.bare := by
  induction statements with
  | nil => rw [bareStmts, List.map_nil]
  | cons s rest ih => rw [bareStmts, List.map_cons, ih]

theorem bareBranches_eq_map (branches : List Branch) :
    bareBranches branches = branches.map Branch.bare := by
  induction branches with
  | nil => rw [bareBranches, List.map_nil]
  | cons first rest ih =>
      rcases first with ⟨condition, body⟩
      rw [bareBranches, List.map_cons, ih]
      rfl

theorem Block.bare_eq (b : Block) :
    b.bare = { id := 0, statements := b.statements.map Stmt.bare } := by
  rcases b with ⟨id, statements⟩
  rw [Block.bare, bareStmts_eq_map]

theorem Stmt.bare_choose (branches : List Branch) (otherwise : Option Block) :
    (Stmt.choose branches otherwise).bare =
      .choose (branches.map Branch.bare) (otherwise.map Block.bare) := by
  cases otherwise with
  | none => rw [Stmt.bare, bareBranches_eq_map, Option.map_none]
  | some body => rw [Stmt.bare, bareBranches_eq_map, Option.map_some]

def Program.bare (program : Program) : Program where
  statements := bareStmts program.statements

end StackScript
