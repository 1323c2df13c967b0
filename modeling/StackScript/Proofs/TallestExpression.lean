import Mathlib.Tactic.IntervalCases
import StackScript.Proofs.ExpressionHeight
import StackScript.Proofs.ParserCompleteness
import StackScript.Proofs.SpacedTokens

/-!
# The tallest expression

A storey is an operand with as many accesses behind it as there is room for,
and then as many operators of each level, from the tightest to the loosest.  All
of them group to the left, so each makes the tree one level taller.  A tower is
a storey in parentheses on top of a lower tower.  Inside of blocks it reaches
the height that no expression at that depth goes beyond, so the heights of
expressions are known exactly, and with them the depths at which the nesting
limit is a limit of heights too.
-/

namespace StackScript

open Grammar

/-!
## Towers
-/

namespace Tower

def run (symbol : Symbol) : Nat -> List Token
  | 0 => []
  | count + 1 => .symbol symbol :: .ident "x" :: run symbol count

def operators : List BinaryOp :=
  [.or, .and, .equal, .less, .add, .multiply]

def storey (base : List Token) (count : Nat) : List BinaryOp -> List Token
  | [] => base ++ run .dot count
  | op :: tighter => storey base count tighter ++ run op.symbol count

def tokens : Nat -> List Token
  | 0 => [.ident "x"]
  | count + 1 =>
      .symbol .leftParen :: (storey (tokens count) count operators ++ [.symbol .rightParen])

def statement : Nat -> List Token
  | 0 => [.keyword .returnWord, .symbol .semicolon]
  | count + 1 => storey (tokens count) count operators ++ [.symbol .semicolon]

def nested (body : List Token) : Nat -> List Token
  | 0 => body
  | depth + 1 => .symbol .leftBrace :: (nested body depth ++ [.symbol .rightBrace])

theorem level_of_drop {n : Nat} {op : BinaryOp} {tighter : List BinaryOp}
    (h : operators.drop n = op :: tighter) :
    op.level = n ∧ n < tightest ∧ operators.drop (n + 1) = tighter := by
  have hn : n < 6 := by
    rcases Nat.lt_or_ge n 6 with hn | hn
    · exact hn
    · rw [List.drop_eq_nil_of_le hn] at h
      cases h
  interval_cases n <;> cases h <;> decide

theorem tokens_eq_cons (count : Nat) :
    ∃ t base, tokens count = t :: base ∧ t.startsPrimary = true := by
  cases count with
  | zero => exact ⟨_, _, rfl, rfl⟩
  | succ count => exact ⟨_, _, rfl, rfl⟩

theorem storey_cons (t : Token) (base : List Token) (count : Nat) (ops : List BinaryOp) :
    ∃ more, storey (t :: base) count ops = t :: more := by
  induction ops with
  | nil => exact ⟨_, rfl⟩
  | cons op tighter ih =>
      rcases ih with ⟨more, hmore⟩
      rw [storey, hmore]
      exact ⟨_, rfl⟩

def Starts (ts : List Token) : Prop :=
  ∃ t more, ts = t :: more ∧ (t.startsStatement || t.startsExpression) = true

theorem starts_statement (count : Nat) : Starts (statement count) := by
  cases count with
  | zero => exact ⟨_, _, rfl, rfl⟩
  | succ count =>
      rcases tokens_eq_cons count with ⟨t, base, htokens, ht⟩
      rcases storey_cons t base count operators with ⟨more, hmore⟩
      rw [statement, htokens, hmore]
      refine ⟨t, _, rfl, ?_⟩
      rw [Token.startsExpression_of_primary ht, Bool.or_true]

theorem starts_nested {body : List Token} (h : Starts body) (depth : Nat) :
    Starts (nested body depth) := by
  cases depth with
  | zero => exact h
  | succ depth => exact ⟨_, _, rfl, rfl⟩

def IsBrick (t : Token) : Prop :=
  t = .ident "x" ∨ t = .keyword .returnWord ∨ ∃ symbol, t = .symbol symbol

theorem isBrick_symbol (symbol : Symbol) : IsBrick (.symbol symbol) :=
  Or.inr (Or.inr ⟨symbol, rfl⟩)

theorem isBrick_of_mem_run {symbol : Symbol} {count : Nat} :
    ∀ t ∈ run symbol count, IsBrick t := by
  induction count with
  | zero => exact List.forall_mem_nil _
  | succ count ih =>
      rw [run, List.forall_mem_cons, List.forall_mem_cons]
      exact ⟨isBrick_symbol symbol, Or.inl rfl, ih⟩

theorem isBrick_of_mem_storey {base : List Token} (hbase : ∀ t ∈ base, IsBrick t) (count : Nat)
    (ops : List BinaryOp) : ∀ t ∈ storey base count ops, IsBrick t := by
  induction ops with
  | nil => exact List.forall_mem_append.mpr ⟨hbase, isBrick_of_mem_run⟩
  | cons op tighter ih => exact List.forall_mem_append.mpr ⟨ih, isBrick_of_mem_run⟩

theorem isBrick_of_mem_tokens (count : Nat) : ∀ t ∈ tokens count, IsBrick t := by
  induction count with
  | zero => exact List.forall_mem_singleton.mpr (Or.inl rfl)
  | succ count ih =>
      rw [tokens, List.forall_mem_cons, List.forall_mem_append, List.forall_mem_singleton]
      exact ⟨isBrick_symbol _, isBrick_of_mem_storey ih count operators, isBrick_symbol _⟩

theorem isBrick_of_mem_statement (count : Nat) : ∀ t ∈ statement count, IsBrick t := by
  cases count with
  | zero =>
      rw [statement, List.forall_mem_cons, List.forall_mem_singleton]
      exact ⟨Or.inr (Or.inl rfl), isBrick_symbol _⟩
  | succ count =>
      rw [statement, List.forall_mem_append, List.forall_mem_singleton]
      exact ⟨isBrick_of_mem_storey (isBrick_of_mem_tokens count) count operators,
        isBrick_symbol _⟩

theorem isBrick_of_mem_nested {body : List Token} (hbody : ∀ t ∈ body, IsBrick t) (depth : Nat) :
    ∀ t ∈ nested body depth, IsBrick t := by
  induction depth with
  | zero => exact hbody
  | succ depth ih =>
      rw [nested, List.forall_mem_cons, List.forall_mem_append, List.forall_mem_singleton]
      exact ⟨isBrick_symbol _, ih, isBrick_symbol _⟩

theorem isWord_x : Token.IsWord "x" (.ident "x") where
  first := ⟨'x', [], rfl, rfl⟩
  chars := List.all_eq_true.mp rfl
  token := rfl

theorem isWord_return : Token.IsWord "return" (.keyword .returnWord) where
  first := ⟨'r', _, rfl, rfl⟩
  chars := List.all_eq_true.mp rfl
  token := rfl

theorem IsBrick.legible {t : Token} (h : IsBrick t) : t.Legible := by
  rcases h with rfl | rfl | ⟨symbol, rfl⟩
  · exact Token.legible_word isWord_x
  · exact Token.legible_word isWord_return
  · exact Token.legible_symbol symbol

theorem IsBrick.isSignificant {t : Token} (h : IsBrick t) : t.isSignificant = true := by
  rcases h with rfl | rfl | ⟨symbol, rfl⟩
  · rfl
  · rfl
  · rfl

end Tower

namespace Parser

/-!
## Parsing towers
-/

/-- In front of the tokens the step gives an expression of the height, and the
rest is left. -/
def Raises (step : Parser Expr) (ts : List Token) (height : Nat) (rest : List Token) : Prop :=
  ∀ s : ParseState, s.Fresh ts ->
    ∃ e s', step s = .ok e s' ∧ e.height = height ∧ s'.Fresh rest

section Raises

variable {n room count height : Nat} {ts rest : List Token}

theorem raises_name (room : Nat) (rest : List Token) :
    Raises (primary room) (.ident "x" :: rest) 1 rest := by
  intro s hs
  rw [primary_of_ident hs.token?_eq]
  exact ⟨_, _, rfl, rfl, hs.advance.tokens, hs.advance.errors⟩

theorem raises_suffixes (head : Expr) (count : Nat)
    (hcall : rest.head? ≠ some (.symbol .leftParen)) (hfield : rest.head? ≠ some (.symbol .dot))
    (hroom : count ≤ room) :
    Raises (suffixes room head) (Tower.run .dot count ++ rest) (head.height + count) rest := by
  induction count generalizing room head with
  | zero =>
      intro s hs
      refine ⟨head, s, suffixes_of_other ?_ ?_, rfl, hs⟩
      · rw [ParseState.token?_eq, hs.tokens]
        exact hcall
      · rw [ParseState.token?_eq, hs.tokens]
        exact hfield
  | succ count ih =>
      intro s hs
      rcases Nat.exists_eq_succ_of_ne_zero (Nat.ne_zero_of_lt hroom) with ⟨room', rfl⟩
      rcases identifier_of_tokens hs.advance.tokens "field name after '.'" with
        ⟨x, s1, hx, _, htokens, herrors⟩
      rw [suffixes_of_field hs.token?_eq, bind_of_ok hx]
      have hs1 : s1.Fresh (Tower.run .dot count ++ rest) :=
        ⟨htokens, herrors.trans hs.advance.errors⟩
      rcases ih (.field head x) (Nat.le_of_succ_le_succ hroom) s1 hs1 with
        ⟨e, s', he, hheight, hs'⟩
      refine ⟨e, s', he, ?_, hs'⟩
      rw [hheight, Expr.height, Nat.add_assoc, Nat.add_comm 1 count]

theorem raises_operand (h : Raises (unary room) ts height rest) (hstops : Stops n rest)
    (hn : n ≤ tightest) : Raises (operand (precedence.drop n) room) ts height rest := by
  induction hk : tightest - n generalizing n with
  | zero =>
      have hlast : precedence.drop n = [] := List.drop_eq_nil_of_le (Nat.le_of_sub_eq_zero hk)
      rw [hlast, operand]
      exact h
  | succ k ih =>
      intro s hs
      have hlt : n < tightest := Nat.lt_of_sub_eq_succ hk
      rcases ih hstops.tighter hlt (by omega) s hs with ⟨e, s', he, hheight, hs'⟩
      refine ⟨e, s', ?_, hheight, hs'⟩
      rw [operand_drop hlt, bind_of_ok he, afterOperand_of_stops hs' hstops]

theorem raises_unary {t : Token} (h : Raises (application room) (t :: ts) height rest)
    (ht : t.startsPrimary = true) : Raises (unary room) (t :: ts) height rest := by
  intro s hs
  rw [unary_of_none (hs.token?_eq ▸ unaryOperator?_of_startsPrimary ht)]
  exact h s hs

theorem stops_run {op : BinaryOp} (hstops : Stops op.level rest) (count : Nat) :
    Stops (op.level + 1) (Tower.run op.symbol count ++ rest) := by
  cases count with
  | zero => exact hstops.tighter
  | succ count => exact stops_operator op _

theorem raises_operand_name (hstops : Stops n rest) (hn : n ≤ tightest) (room : Nat) :
    Raises (operand (precedence.drop n) room) (.ident "x" :: rest) 1 rest := by
  apply raises_operand _ hstops hn
  apply raises_unary _ rfl
  intro s hs
  rcases raises_name room rest s hs with ⟨e, s1, he, hheight, hs1⟩
  rw [application, bind_of_ok he]
  rcases raises_suffixes e 0 hstops.call hstops.field (Nat.zero_le room) s1 hs1 with
    ⟨e', s', he', hheight', hs'⟩
  exact ⟨e', s', he', hheight'.trans hheight, hs'⟩

theorem raises_chain {op : BinaryOp} (left : Expr) (hstops : Stops op.level rest)
    (hlevel : op.level < tightest) (hroom : count ≤ room) :
    Raises (afterOperand op.level room left) (Tower.run op.symbol count ++ rest)
      (left.height + count) rest := by
  induction count generalizing room left with
  | zero =>
      intro s hs
      exact ⟨left, s, afterOperand_of_stops hs hstops room left, rfl, hs⟩
  | succ count ih =>
      intro s hs
      rcases Nat.exists_eq_succ_of_ne_zero (Nat.ne_zero_of_lt hroom) with ⟨room', rfl⟩
      rcases raises_operand_name (stops_run hstops count) hlevel room' s.advance hs.advance with
        ⟨right, s1, hright, hone, hs1⟩
      rw [afterOperand_of_operator hs, bind_of_ok hright]
      rcases ih (.binary op left right s.span) (Nat.le_of_succ_le_succ hroom) s1 hs1 with
        ⟨e, s', he, hheight, hs'⟩
      refine ⟨e, s', he, ?_, hs'⟩
      rw [hheight, Expr.height, hone, Nat.max_eq_left left.height_pos, Nat.add_assoc,
        Nat.add_comm 1 count]

/-- A storey on an operand adds the count once for the accesses, and once for
each operator. -/
theorem raises_storey {t : Token} {base : List Token} (ht : t.startsPrimary = true)
    (hbase : ∀ rest, Raises (primary room) (t :: base ++ rest) height rest) (hroom : count ≤ room)
    {ops : List BinaryOp} (hops : Tower.operators.drop n = ops) (hn : n ≤ tightest)
    (hstops : Stops n rest) :
    Raises (operand (precedence.drop n) room) (Tower.storey (t :: base) count ops ++ rest)
      (height + (ops.length + 1) * count) rest := by
  induction ops generalizing n rest with
  | nil =>
      apply raises_operand _ hstops hn
      rw [Tower.storey, List.append_assoc, List.cons_append]
      apply raises_unary _ ht
      intro s hs
      rcases hbase _ s hs with ⟨head, s1, hhead, hheight, hs1⟩
      rw [application, bind_of_ok hhead]
      rcases raises_suffixes head count hstops.call hstops.field hroom s1 hs1 with
        ⟨e, s', he, hsum, hs'⟩
      refine ⟨e, s', he, ?_, hs'⟩
      rw [hsum, hheight, List.length_nil, Nat.zero_add, Nat.one_mul]
  | cons op tighter ih =>
      rcases Tower.level_of_drop hops with ⟨rfl, hlevel, htighter⟩
      intro s hs
      rw [Tower.storey, List.append_assoc] at hs
      rcases ih htighter hlevel (stops_run hstops count) s hs with ⟨left, s1, hleft, hheight, hs1⟩
      rw [operand_drop hlevel, bind_of_ok hleft]
      rcases raises_chain left hstops hlevel hroom s1 hs1 with ⟨e, s', he, hsum, hs'⟩
      refine ⟨e, s', he, ?_, hs'⟩
      rw [hsum, hheight, List.length_cons, Nat.succ_mul (tighter.length + 1) count, Nat.add_assoc]

end Raises

theorem raises_top {count room : Nat} {rest : List Token}
    (htower : ∀ rest, Raises (primary room) (Tower.tokens count ++ rest) (tallest count) rest)
    (hroom : count ≤ room) (hstops : Stops 0 rest) :
    Raises (expression (room + 1)) (Tower.storey (Tower.tokens count) count Tower.operators ++ rest)
      (tallest (count + 1)) rest := by
  rcases Tower.tokens_eq_cons count with ⟨t, base, htokens, ht⟩
  rw [htokens] at htower ⊢
  rw [expression]
  exact raises_storey ht htower hroom rfl (Nat.zero_le _) hstops

/-- A tower has the greatest height for the room that it takes. -/
theorem raises_tower {count room : Nat} (hroom : count ≤ room) (rest : List Token) :
    Raises (primary room) (Tower.tokens count ++ rest) (tallest count) rest := by
  induction count generalizing room rest with
  | zero => exact raises_name room rest
  | succ count ih =>
      intro s hs
      rcases Nat.exists_eq_succ_of_ne_zero (Nat.ne_zero_of_lt hroom) with ⟨room', rfl⟩
      have hroom' := Nat.le_of_succ_le_succ hroom
      rw [Tower.tokens, List.cons_append, List.append_assoc] at hs
      rcases raises_top (ih hroom') hroom' (stops_symbol (by decide) rest) s.advance hs.advance with
        ⟨e, s1, he, hheight, hs1⟩
      rw [primary_of_leftParen hs.token?_eq, bind_of_ok he,
        bind_of_ok (expect_of_tokens hs1.tokens _)]
      exact ⟨e, s1.advance, rfl, hheight, hs1.advance⟩

/-- In front of the tokens the step gives a statement that has an expression of
the height, so deep inside of it. -/
def Holds (step : Parser Stmt) (ts : List Token) (depth height : Nat) : Prop :=
  ∀ (rest : List Token) (s : ParseState), s.Fresh (ts ++ rest) ->
    ∃ (x : Stmt) (e : Expr) (s' : ParseState), step s = .ok x s' ∧ e.height = height ∧
      (∀ start, ∀ part ∈ e.parts, (start + depth, part) ∈ x.expressions start) ∧ s'.Fresh rest

theorem exists_inside (room : Nat) : ∃ inside, statement room = statementForm room inside := by
  cases room with
  | zero => exact ⟨_, rfl⟩
  | succ room => exact ⟨_, rfl⟩

/-- Nothing has to be parsed for the value that is left out. -/
theorem holds_giveBack (room : Nat) : Holds (statement room) (Tower.statement 0) 0 1 := by
  intro rest s hs
  rcases exists_inside room with ⟨inside, hinside⟩
  refine ⟨.giveBack .null s.span, .null, s.advance.advance, ?_, rfl, ?_, hs.advance.advance⟩
  · rw [hinside, statementForm, get_bind, hs.token?_eq]
    change giveBack room s = _
    rw [giveBack, get_bind, advance_bind, isAt_bind, ParseState.isAt_iff.mpr hs.advance.token?_eq]
    change (expect .semicolon _ >>= fun _ => pure (Stmt.giveBack .null s.span)) s.advance = _
    rw [bind_of_ok (expect_of_tokens hs.advance.tokens _)]
    rfl
  · intro start part hpart
    exact List.mem_map.mpr ⟨part, hpart, rfl⟩

theorem holds_statement {count room : Nat} (hcount : count ≤ room) :
    Holds (statement room) (Tower.statement count) 0 (tallest count) := by
  cases count with
  | zero => exact holds_giveBack room
  | succ count =>
      intro rest s hs
      rcases Nat.exists_eq_succ_of_ne_zero (Nat.ne_zero_of_lt hcount) with ⟨room', rfl⟩
      have hroom := Nat.le_of_succ_le_succ hcount
      rcases Tower.tokens_eq_cons count with ⟨t, base, htokens, ht⟩
      rcases Tower.storey_cons t base count Tower.operators with ⟨more, hmore⟩
      have hfirst : s.Fresh (t :: (more ++ [.symbol .semicolon] ++ rest)) := by
        rw [Tower.statement, htokens, hmore] at hs
        exact hs
      rw [Tower.statement, List.append_assoc] at hs
      rcases raises_top (raises_tower hroom) hroom (stops_symbol (by decide) rest) s hs with
        ⟨e, s1, he, hheight, hs1⟩
      have hassign : s1.isAt (.symbol .assign) = false := by
        apply hs1.isAt_eq_false
        intro heq
        cases heq
      refine ⟨.evaluate e, e, s1.advance, ?_, hheight, ?_, hs1.advance⟩
      · rw [statement, statementForm_of_startsExpression hfirst
          (Token.startsExpression_of_primary ht), assignmentOrExpression, get_bind, bind_of_ok he,
          bind_of_ok (eat_of_not_isAt hassign), if_neg Bool.false_ne_true,
          bind_of_ok (expect_of_tokens hs1.tokens _)]
        rfl
      · intro start part hpart
        exact List.mem_map.mpr ⟨part, hpart, rfl⟩

theorem exists_rest {s : ParseState} {t : Token} {ts : List Token} (h : s.Fresh (t :: ts)) :
    ∃ round rounds, s.rest = round :: rounds := by
  cases hrest : s.rest with
  | nil =>
      have hempty := h.tokens
      rw [ParseState.tokens, hrest] at hempty
      cases hempty
  | cons round rounds => exact ⟨round, rounds, rfl⟩

theorem statements_single {room : Nat} {s s1 : ParseState} {x : Stmt} {t : Token}
    {ts rest : List Token} (hx : statement room s = .ok x s1) (hs : s.Fresh (t :: ts))
    (ht : (t.startsStatement || t.startsExpression) = true)
    (hs1 : s1.Fresh (.symbol .rightBrace :: rest)) :
    statements (statement room) s = .ok [x] s1 := by
  rcases hs.not_stopped ht with ⟨hbrace, hend⟩
  rcases exists_rest hs with ⟨round, rounds, hrest⟩
  have hrecovering : recovering (statement room) s = (some x, s1) := by
    rw [recovering, hx]
  have hin : statementsIn (statement room) s.rest [] s = ([x], s1) := by
    rw [hrest, statementsIn_of_some round rounds [] hbrace hend hrecovering,
      statementsIn_of_brace rounds _ hs1 rfl]
    rfl
  unfold statements
  rw [hin]

theorem holds_block {room depth height : Nat} {ts : List Token}
    (h : Holds (statement room) ts depth height) (hts : Tower.Starts ts) :
    Holds (statement (room + 1)) (.symbol .leftBrace :: (ts ++ [.symbol .rightBrace]))
      (depth + 1) height := by
  intro rest s hs
  rcases hts with ⟨t, more, hstart, ht⟩
  rw [List.cons_append, List.append_assoc] at hs
  have hopen : ParseState.Fresh { s with nextBlock := s.nextBlock + 1 }
      (.symbol .leftBrace :: (ts ++ ([.symbol .rightBrace] ++ rest))) :=
    ⟨hs.tokens, hs.errors⟩
  have hbody := hopen.advance
  rcases h _ _ hbody with ⟨x, e, s1, hx, hheight, hparts, hs1⟩
  have hstatements := statements_single hx (hstart ▸ hbody) ht hs1
  have hbraced : braced (statements (statement room)) "to open block"
      { s with nextBlock := s.nextBlock + 1 } = .ok [x] s1.advance := by
    rw [braced, bind_of_ok (expect_of_tokens hopen.tokens _), bind_of_ok hstatements,
      bind_of_ok (expect_of_tokens hs1.tokens _)]
    rfl
  refine ⟨.block { id := s.nextBlock, statements := [x] }, e, s1.advance, ?_, hheight, ?_,
    hs1.advance⟩
  · rw [statement, statementForm, get_bind, hs.token?_eq]
    change (block (statements (statement room)) "to open block" >>= fun b =>
      pure (Stmt.block b)) s = _
    have hblock : block (statements (statement room)) "to open block" s =
        .ok { id := s.nextBlock, statements := [x] } s1.advance := by
      rw [block, freshBlock_bind, bind_of_ok hbraced]
      rfl
    rw [bind_of_ok hblock]
    rfl
  · intro start part hpart
    have hinner := hparts (start + 1) part hpart
    rw [Nat.add_assoc, Nat.add_comm 1 depth] at hinner
    exact List.mem_append_left _ hinner

theorem holds_nested {count room : Nat} (hcount : count ≤ room) (depth : Nat) :
    Holds (statement (room + depth)) (Tower.nested (Tower.statement count) depth) depth
      (tallest count) := by
  induction depth with
  | zero => exact holds_statement hcount
  | succ depth ih =>
      exact holds_block ih (Tower.starts_nested (Tower.starts_statement count) depth)

theorem topLevelIn_single {s s1 : ParseState} {x : Stmt} {t : Token} {ts : List Token}
    (hx : statement maxNesting s = .ok x s1) (hs : s.Fresh (t :: ts))
    (ht : (t.startsStatement || t.startsExpression) = true) (hs1 : s1.Fresh [.endOfInput]) :
    topLevelIn s.rest [] s = ([x], s1) := by
  rcases hs.not_stopped ht with ⟨hbrace, hend⟩
  rcases exists_rest hs with ⟨round, rounds, hrest⟩
  have hrecovering : recovering (statement maxNesting) s = (some x, s1) := by
    rw [recovering, hx]
  rw [hrest, topLevelIn_of_some round rounds [] hbrace hend hrecovering,
    topLevelIn_of_end rounds _ hs1 rfl]
  rfl

end Parser

namespace Program

/-!
## Heights in programs
-/

/-- The text of a tower in blocks is a program, as long as there is room for the
blocks and the storeys. -/
theorem parse_tower {depth count : Nat} (h : count + depth ≤ maxNesting) :
    ∃ (program : Program) (e : Expr),
      parse (spaced (Tower.nested (Tower.statement count) depth)) = .ok program ∧
      e.height = tallest count ∧ ∀ part ∈ e.parts, (depth, part) ∈ program.expressions := by
  have hbricks : ∀ t ∈ Tower.nested (Tower.statement count) depth, Tower.IsBrick t :=
    Tower.isBrick_of_mem_nested (Tower.isBrick_of_mem_statement count) depth
  rcases tokenize_spaced fun t ht => (hbricks t ht).legible with ⟨located, htokenize, htokens⟩
  have hsignificant : ∀ t ∈ located.map (·.token), t.isSignificant = true := by
    rw [htokens, List.forall_mem_append, List.forall_mem_singleton]
    exact ⟨fun t ht => (hbricks t ht).isSignificant, rfl⟩
  have hall : (ParseState.ofTokens located).rest = located :=
    List.filter_eq_self.mpr fun t ht => hsignificant t.token (List.mem_map_of_mem ht)
  have hfresh : (ParseState.ofTokens located).Fresh
      (Tower.nested (Tower.statement count) depth ++ [.endOfInput]) := by
    refine ⟨?_, rfl⟩
    rw [ParseState.tokens, hall, htokens]
  have hroom : maxNesting - depth + depth = maxNesting :=
    Nat.sub_add_cancel (Nat.le_trans (Nat.le_add_left depth count) h)
  have hholds := Parser.holds_nested (Nat.le_sub_of_add_le h) depth
  rw [hroom] at hholds
  rcases hholds _ _ hfresh with ⟨x, e, s', hx, hheight, hparts, hs'⟩
  rcases Tower.starts_nested (Tower.starts_statement count) depth with ⟨t, more, hstart, ht⟩
  have htop := Parser.topLevelIn_single hx (hstart ▸ hfresh) ht hs'
  refine ⟨{ statements := [x] }, e, ?_, hheight, ?_⟩
  · simp only [parse, htokenize, ofTokens, Parser.program, htop, hs'.errors]
    rfl
  · intro part hpart
    have hpart := hparts 0 part hpart
    rw [Nat.zero_add] at hpart
    exact List.mem_append_left _ hpart

theorem exists_height_iff {depth height : Nat} :
    (∃ source program, parse source = .ok program ∧
        ∃ e, (depth, e) ∈ program.expressions ∧ e.height = height) ↔
      depth ≤ maxNesting ∧ 1 ≤ height ∧ height ≤ tallest (maxNesting - depth) := by
  constructor
  · intro h
    rcases h with ⟨source, program, hparse, e, he, rfl⟩
    rcases within_of_parse hparse _ he with ⟨hdepth, hheight⟩
    exact ⟨hdepth, e.height_pos, hheight⟩
  · intro h
    rcases h with ⟨hdepth, hpos, hle⟩
    rcases parse_tower (Nat.le_of_eq (Nat.sub_add_cancel hdepth)) with
      ⟨program, e, hparse, hheight, hparts⟩
    rcases e.exists_part_of_height hpos (hheight ▸ hle) with ⟨part, hpart, hpartHeight⟩
    exact ⟨_, program, hparse, part, hparts part hpart, hpartHeight⟩

theorem tallest_le_maxNesting_iff {room : Nat} : tallest room ≤ maxNesting ↔ room ≤ 6 := by
  constructor
  · intro h
    by_contra hroom
    have htall : tallest 7 ≤ tallest room := tallest_mono (Nat.not_le.mp hroom)
    exact absurd (Nat.le_trans htall h) (by decide)
  · intro h
    exact Nat.le_trans (tallest_mono h) (by decide : tallest 6 ≤ maxNesting)

/-- Expressions at a depth have every height up to the greatest one.  Only from
depth 122 on is that one within the nesting limit. -/
theorem heights_at_depth (depth : Nat) :
    (∀ height,
      (∃ source program, parse source = .ok program ∧
          ∃ e, (depth, e) ∈ program.expressions ∧ e.height = height) ↔
        depth ≤ maxNesting ∧ 1 ≤ height ∧ height ≤ tallest (maxNesting - depth)) ∧
      ((∀ source program, parse source = .ok program ->
          ∀ e, (depth, e) ∈ program.expressions -> e.height ≤ maxNesting) ↔
        122 ≤ depth) := by
  refine ⟨fun height => exists_height_iff, ?_⟩
  have hlimit : maxNesting = 128 := rfl
  constructor
  · intro hwithin
    by_contra hshallow
    have hroom : ¬ maxNesting - depth ≤ 6 := by omega
    have hdepth : depth ≤ maxNesting := by omega
    have htall : maxNesting + 1 ≤ tallest (maxNesting - depth) :=
      Nat.not_le.mp (mt tallest_le_maxNesting_iff.mp hroom)
    rcases exists_height_iff.mpr ⟨hdepth, Nat.le_add_left 1 maxNesting, htall⟩ with
      ⟨source, program, hparse, e, he, hheight⟩
    have hle := hwithin source program hparse e he
    rw [hheight] at hle
    exact Nat.not_succ_le_self _ hle
  · intro hdeep source program hparse e he
    have hroom : maxNesting - depth ≤ 6 := by omega
    exact Nat.le_trans (within_of_parse hparse _ he).2 (tallest_le_maxNesting_iff.mpr hroom)

/-- Seven storeys outside of all blocks are enough to go beyond the limit. -/
theorem maxNesting_lt_height :
    ∃ program, parse (spaced (Tower.statement 7)) = .ok program ∧
      ∃ e, (0, e) ∈ program.expressions ∧ maxNesting < e.height := by
  rcases parse_tower (by decide : 7 + 0 ≤ maxNesting) with ⟨program, e, hparse, hheight, hparts⟩
  refine ⟨program, hparse, e, hparts e e.mem_parts_self, ?_⟩
  rw [hheight]
  decide

end Program
end StackScript
