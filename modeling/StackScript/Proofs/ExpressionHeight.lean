import Mathlib.Order.MinMax
import StackScript.Proofs.ParserSteps

/-!
# The height of expressions

The parser counts how deep it is in a tree.  An operator, a call or an access
makes it count one more level for what comes behind, but the operand in front
was read before that, and it ends up below all the operators that follow.  So a
tree gets taller than the limit: each of the seven forms that group to the left
can add the whole room that is left, and parentheses let all of them do so again
with one level less.  This module has the heights that this comes to, and shows
that no expression of a program is taller.
-/

namespace StackScript

/-!
## Heights
-/

mutual

def Expr.height : Expr -> Nat
  | .call callee arguments _ => max callee.height (heightOfAll arguments) + 1
  | .unary _ operand _ => operand.height + 1
  | .binary _ left right _ => max left.height right.height + 1
  | .field receiver _ => receiver.height + 1
  | .ident _ | .string _ | .number _ | .bool _ | .null => 1

def heightOfAll : List Expr -> Nat
  | [] => 0
  | e :: rest => max e.height (heightOfAll rest)

end

mutual

def Expr.parts : Expr -> List Expr
  | .call callee arguments span =>
      .call callee arguments span :: (callee.parts ++ partsOfAll arguments)
  | .unary op operand span => .unary op operand span :: operand.parts
  | .binary op left right span => .binary op left right span :: (left.parts ++ right.parts)
  | .field receiver name => .field receiver name :: receiver.parts
  | .ident name => [.ident name]
  | .string text => [.string text]
  | .number value => [.number value]
  | .bool value => [.bool value]
  | .null => [.null]

def partsOfAll : List Expr -> List Expr
  | [] => []
  | e :: rest => e.parts ++ partsOfAll rest

end

def Expr.partsAt (depth : Nat) (e : Expr) : List (Nat × Expr) :=
  e.parts.map (depth, ·)

mutual

/-- All expressions in a statement at a depth, each with its own: every block and
every body of a function is one deeper. -/
def Stmt.expressions (depth : Nat) : Stmt -> List (Nat × Expr)
  | .declare _ value => value.partsAt depth
  | .assign _ value => value.partsAt depth
  | .assignField receiver _ value => receiver.partsAt depth ++ value.partsAt depth
  | .function _ _ body => expressionsOfAll (depth + 1) body
  | .choose branches none => expressionsOfBranches depth branches
  | .choose branches (some otherwise) =>
      expressionsOfBranches depth branches ++ otherwise.expressions (depth + 1)
  | .loop condition body => condition.partsAt depth ++ body.expressions (depth + 1)
  | .giveBack value _ => value.partsAt depth
  | .evaluate value => value.partsAt depth
  | .block body => body.expressions (depth + 1)

def Block.expressions (depth : Nat) : Block -> List (Nat × Expr)
  | { statements, .. } => expressionsOfAll depth statements

def expressionsOfAll (depth : Nat) : List Stmt -> List (Nat × Expr)
  | [] => []
  | s :: rest => s.expressions depth ++ expressionsOfAll depth rest

def expressionsOfBranches (depth : Nat) : List Branch -> List (Nat × Expr)
  | [] => []
  | { condition, body } :: rest =>
      condition.partsAt depth ++ (body.expressions (depth + 1) ++ expressionsOfBranches depth rest)

end

def Program.expressions (program : Program) : List (Nat × Expr) :=
  expressionsOfAll 0 program.statements

/-- The greatest height of an expression that is parsed with so much room. -/
def tallest : Nat -> Nat
  | 0 => 1
  | room + 1 => tallest room + 7 * room

theorem tallest_pos (room : Nat) : 1 ≤ tallest room := by
  induction room with
  | zero => exact Nat.le_refl 1
  | succ room ih => exact Nat.le_trans ih (Nat.le_add_right _ _)

theorem tallest_le_succ (room : Nat) : tallest room ≤ tallest (room + 1) :=
  Nat.le_add_right _ _

theorem tallest_mono {room room' : Nat} (h : room ≤ room') : tallest room ≤ tallest room' :=
  monotone_nat_of_le_succ tallest_le_succ h

example : tallest maxNesting = 56897 := by
  decide +kernel

namespace Expr

theorem height_pos (e : Expr) : 1 ≤ e.height := by
  cases e <;> simp [height]

theorem heightOfAll_le_iff {es : List Expr} {limit : Nat} :
    heightOfAll es ≤ limit ↔ ∀ e ∈ es, e.height ≤ limit := by
  induction es with
  | nil => simp [heightOfAll]
  | cons e rest ih => rw [heightOfAll, Nat.max_le, ih, List.forall_mem_cons]

mutual

theorem height_le_of_mem_parts : ∀ (e : Expr) {part : Expr}, part ∈ e.parts ->
    part.height ≤ e.height
  | .call callee arguments span, part, h => by
      rw [parts, List.mem_cons, List.mem_append] at h
      rcases h with rfl | hcallee | harguments
      · exact Nat.le_refl _
      · have hle := height_le_of_mem_parts callee hcallee
        exact Nat.le_succ_of_le (Nat.le_trans hle (Nat.le_max_left _ _))
      · have hle := height_le_of_mem_partsOfAll arguments harguments
        exact Nat.le_succ_of_le (Nat.le_trans hle (Nat.le_max_right _ _))
  | .unary op operand span, part, h => by
      rw [parts, List.mem_cons] at h
      rcases h with rfl | hoperand
      · exact Nat.le_refl _
      · exact Nat.le_succ_of_le (height_le_of_mem_parts operand hoperand)
  | .binary op left right span, part, h => by
      rw [parts, List.mem_cons, List.mem_append] at h
      rcases h with rfl | hleft | hright
      · exact Nat.le_refl _
      · have hle := height_le_of_mem_parts left hleft
        exact Nat.le_succ_of_le (Nat.le_trans hle (Nat.le_max_left _ _))
      · have hle := height_le_of_mem_parts right hright
        exact Nat.le_succ_of_le (Nat.le_trans hle (Nat.le_max_right _ _))
  | .field receiver name, part, h => by
      rw [parts, List.mem_cons] at h
      rcases h with rfl | hreceiver
      · exact Nat.le_refl _
      · exact Nat.le_succ_of_le (height_le_of_mem_parts receiver hreceiver)
  | .ident _, part, h | .string _, part, h | .number _, part, h | .bool _, part, h
  | .null, part, h => by
      rw [List.mem_singleton.mp h]

theorem height_le_of_mem_partsOfAll : ∀ (es : List Expr) {part : Expr}, part ∈ partsOfAll es ->
    part.height ≤ heightOfAll es
  | [], part, h => by
      cases h
  | e :: rest, part, h => by
      rw [partsOfAll, List.mem_append] at h
      rw [heightOfAll]
      rcases h with hfirst | hrest
      · exact Nat.le_trans (height_le_of_mem_parts e hfirst) (Nat.le_max_left _ _)
      · exact Nat.le_trans (height_le_of_mem_partsOfAll rest hrest) (Nat.le_max_right _ _)

end

theorem mem_parts_self (e : Expr) : e ∈ e.parts := by
  cases e <;> simp [parts]

mutual

/-- An expression holds others of every lesser height. -/
theorem exists_part_of_height : ∀ (e : Expr) {height : Nat}, 1 ≤ height -> height ≤ e.height ->
    ∃ part ∈ e.parts, part.height = height
  | e, height, hpos, hle => by
      rcases Nat.eq_or_lt_of_le hle with rfl | hlt
      · exact ⟨e, e.mem_parts_self, rfl⟩
      · cases e with
        | call callee arguments span =>
            rcases le_max_iff.mp (Nat.le_of_lt_succ hlt) with hcallee | harguments
            · rcases exists_part_of_height callee hpos hcallee with ⟨part, hpart, hheight⟩
              exact ⟨part, List.mem_cons_of_mem _ (List.mem_append_left _ hpart), hheight⟩
            · rcases exists_part_of_heightOfAll arguments hpos harguments with
                ⟨part, hpart, hheight⟩
              exact ⟨part, List.mem_cons_of_mem _ (List.mem_append_right _ hpart), hheight⟩
        | unary op operand span =>
            rcases exists_part_of_height operand hpos (Nat.le_of_lt_succ hlt) with
              ⟨part, hpart, hheight⟩
            exact ⟨part, List.mem_cons_of_mem _ hpart, hheight⟩
        | binary op left right span =>
            rcases le_max_iff.mp (Nat.le_of_lt_succ hlt) with hleft | hright
            · rcases exists_part_of_height left hpos hleft with ⟨part, hpart, hheight⟩
              exact ⟨part, List.mem_cons_of_mem _ (List.mem_append_left _ hpart), hheight⟩
            · rcases exists_part_of_height right hpos hright with ⟨part, hpart, hheight⟩
              exact ⟨part, List.mem_cons_of_mem _ (List.mem_append_right _ hpart), hheight⟩
        | field receiver name =>
            rcases exists_part_of_height receiver hpos (Nat.le_of_lt_succ hlt) with
              ⟨part, hpart, hheight⟩
            exact ⟨part, List.mem_cons_of_mem _ hpart, hheight⟩
        | _ => exact absurd hpos (Nat.not_le_of_lt hlt)

theorem exists_part_of_heightOfAll : ∀ (es : List Expr) {height : Nat}, 1 ≤ height ->
    height ≤ heightOfAll es -> ∃ part ∈ partsOfAll es, part.height = height
  | [], height, hpos, hle => absurd (Nat.le_trans hpos hle) (Nat.not_succ_le_zero 0)
  | e :: rest, height, hpos, hle => by
      rw [heightOfAll, le_max_iff] at hle
      rcases hle with hfirst | hrest
      · rcases exists_part_of_height e hpos hfirst with ⟨part, hpart, hheight⟩
        exact ⟨part, List.mem_append_left _ hpart, hheight⟩
      · rcases exists_part_of_heightOfAll rest hpos hrest with ⟨part, hpart, hheight⟩
        exact ⟨part, List.mem_append_right _ hpart, hheight⟩

end

end Expr

/-- None of the expressions is taller than what its depth leaves of the room for
a whole program. -/
def Within (total : Nat) (es : List (Nat × Expr)) : Prop :=
  ∀ p ∈ es, p.1 ≤ total ∧ p.2.height ≤ tallest (total - p.1)

namespace Within

variable {total depth : Nat} {es es' : List (Nat × Expr)}

theorem parts {room : Nat} (htotal : depth + room = total) {e : Expr}
    (h : e.height ≤ tallest room) : Within total (e.partsAt depth) := by
  intro p hp
  rcases List.mem_map.mp hp with ⟨part, hpart, rfl⟩
  rw [← htotal, Nat.add_sub_cancel_left]
  exact ⟨Nat.le_add_right depth room, Nat.le_trans (e.height_le_of_mem_parts hpart) h⟩

theorem append (h : Within total es) (h' : Within total es') : Within total (es ++ es') :=
  List.forall_mem_append.mpr ⟨h, h'⟩

theorem expressionsOfAll_iff {ss : List Stmt} :
    Within total (expressionsOfAll depth ss) ↔ ∀ s ∈ ss, Within total (s.expressions depth) := by
  induction ss with
  | nil => simp [expressionsOfAll, Within]
  | cons s rest ih =>
      rw [expressionsOfAll, List.forall_mem_cons, ← ih]
      exact List.forall_mem_append

theorem expressionsOfBranches_iff {branches : List Branch} :
    Within total (expressionsOfBranches depth branches) ↔
      ∀ branch ∈ branches, Within total (branch.condition.partsAt depth) ∧
        Within total (branch.body.expressions (depth + 1)) := by
  induction branches with
  | nil => simp [expressionsOfBranches, Within]
  | cons branch rest ih =>
      rcases branch with ⟨condition, body⟩
      rw [expressionsOfBranches, List.forall_mem_cons, ← ih, and_assoc]
      exact List.forall_mem_append.trans (and_congr_right fun _ => List.forall_mem_append)

end Within

/-!
## Results of steps
-/

namespace Parser

variable {α β : Type}

/-- Whatever the step gives is good. -/
def Makes (step : Parser α) (Good : α -> Prop) : Prop :=
  ∀ s x s', step s = .ok x s' -> Good x

section Makes

variable {step : Parser α} {next : α -> Parser β} {Good : α -> Prop} {Good' : β -> Prop}

theorem makes_pure {x : α} (h : Good x) : Makes (pure x) Good := by
  intro s y s' hok
  cases hok
  exact h

theorem makes_throw (e : SyntaxError) : Makes (throw e) Good :=
  nofun

theorem makes_fail (fault : Option Token -> SyntaxFault) : Makes (fail fault) Good :=
  nofun

theorem makes_bind (h : Makes step Good) (hnext : ∀ x, Good x -> Makes (next x) Good') :
    Makes (step >>= next) Good' := by
  intro s y s'' hok
  rcases bind_eq_ok_iff.mp hok with ⟨x, s', hx, hy⟩
  exact hnext x (h s x s' hx) s' y s'' hy

theorem makes_then (hnext : ∀ x, Makes (next x) Good') : Makes (step >>= next) Good' :=
  makes_bind (fun _ _ _ _ => trivial) fun x _ => hnext x

theorem makes_mono {Good' : α -> Prop} (h : Makes step Good) (himp : ∀ x, Good x -> Good' x) :
    Makes step Good' :=
  fun s x s' hok => himp x (h s x s' hok)

theorem makes_commaItems (h : Makes step Good) (rounds : List Located) {read : List α}
    (hread : ∀ x ∈ read, Good x) : Makes (commaItems step rounds read) fun xs => ∀ x ∈ xs, Good x := by
  have hdone : Makes (pure read.reverse) fun xs => ∀ x ∈ xs, Good x :=
    makes_pure fun x hx => hread x (List.mem_reverse.mp hx)
  induction rounds generalizing read with
  | nil => exact hdone
  | cons _ rounds ih =>
      refine makes_then fun found => ?_
      cases found with
      | false => exact hdone
      | true =>
          refine makes_bind h fun x hx => ?_
          have hall : ∀ y ∈ x :: read, Good y := List.forall_mem_cons.mpr ⟨hx, hread⟩
          exact ih hall (makes_pure fun y hy => hall y (List.mem_reverse.mp hy))

theorem makes_parenthesized (h : Makes step Good) (closing : String) :
    Makes (parenthesized step closing) fun xs => ∀ x ∈ xs, Good x := by
  have hclose : ∀ xs : List α, (∀ x ∈ xs, Good x) ->
      Makes (expect .rightParen closing >>= fun _ => pure xs) fun xs => ∀ x ∈ xs, Good x :=
    fun xs hxs => makes_then fun _ => makes_pure hxs
  have hitems : Makes (commaSeparated step) fun xs => ∀ x ∈ xs, Good x :=
    makes_bind h fun first hfirst => makes_then fun s =>
      makes_commaItems h s.rest (List.forall_mem_singleton.mpr hfirst)
  refine makes_then fun found => ?_
  cases found with
  | true => exact makes_bind (makes_pure (List.forall_mem_nil _)) hclose
  | false => exact makes_bind hitems hclose

end Makes

/-!
## Expressions
-/

theorem height_of_literal? {t : Option Token} {e : Expr} (h : literal? t = some e) :
    e.height = 1 := by
  cases t with
  | none => cases h
  | some t =>
      cases t with
      | integer value =>
          cases h
          rfl
      | string text =>
          cases h
          rfl
      | bool value =>
          cases h
          rfl
      | null =>
          cases h
          rfl
      | _ => cases h

def reach (levels : List Level) (room : Nat) : Nat :=
  tallest room + (levels.length + 1) * room

theorem reach_nil (room : Nat) : reach [] room = tallest room + room := by
  rw [reach, List.length_nil, Nat.zero_add, Nat.one_mul]

theorem reach_cons (level : Level) (tighter : List Level) (room : Nat) :
    reach (level :: tighter) room = reach tighter room + room := by
  rw [reach, reach, List.length_cons, Nat.succ_mul (tighter.length + 1) room, Nat.add_assoc]

theorem reach_le_succ (levels : List Level) (room : Nat) :
    reach levels room ≤ reach levels (room + 1) :=
  Nat.add_le_add (tallest_le_succ room) (Nat.mul_le_mul_left _ (Nat.le_succ room))

mutual

theorem height_expression : ∀ room : Nat, Makes (expression room) (·.height ≤ tallest room)
  | 0 => by
      rw [expression]
      exact makes_fail _
  | room + 1 => by
      rw [expression]
      exact height_operand precedence room
termination_by room => (room, 0)

theorem height_operand : ∀ (levels : List Level) (room : Nat),
    Makes (operand levels room) (·.height ≤ reach levels room)
  | [], room => by
      rw [operand, reach_nil]
      exact height_unary room
  | level :: tighter, room => by
      rw [operand, reach_cons]
      exact makes_bind (height_operand tighter room) fun left hleft =>
        height_chain level tighter room left (Nat.le_refl _) hleft
termination_by levels room => (room, 4 + levels.length)

/-- Each operator of a chain adds one to the height, and takes one from the
room. -/
theorem height_chain (level : Level) (tighter : List Level) (room : Nat) (left : Expr) {limit : Nat}
    (hlimit : reach tighter room ≤ limit) (hleft : left.height ≤ limit) :
    Makes (chain level tighter room left) (·.height ≤ limit + room) := by
  rw [chain]
  refine makes_then fun s => ?_
  cases level.operator? s.token? with
  | none => exact makes_pure (Nat.le_trans hleft (Nat.le_add_right _ _))
  | some op =>
      refine makes_then fun _ => ?_
      cases room with
      | zero => exact makes_fail _
      | succ room =>
          have hshorter := Nat.le_trans (reach_le_succ tighter room) hlimit
          refine makes_bind (height_operand tighter room) fun right hright => ?_
          have hnext : (Expr.binary op left right s.span).height ≤ limit + 1 := by
            rw [Expr.height]
            exact Nat.succ_le_succ (Nat.max_le.mpr ⟨hleft, Nat.le_trans hright hshorter⟩)
          rw [Nat.add_comm room 1, ← Nat.add_assoc]
          exact height_chain level tighter room _ (Nat.le_succ_of_le hshorter) hnext
termination_by (room, 0)

theorem height_unary (room : Nat) : Makes (unary room) (·.height ≤ tallest room + room) := by
  rw [unary]
  refine makes_then fun s => ?_
  cases unaryOperator? s.token? with
  | none => exact height_application room
  | some op =>
      refine makes_then fun _ => ?_
      cases room with
      | zero => exact makes_fail _
      | succ room =>
          refine makes_bind (height_unary room) fun inner hinner => makes_pure ?_
          rw [Expr.height]
          exact Nat.succ_le_succ
            (Nat.le_trans hinner (Nat.add_le_add_right (tallest_le_succ room) room))
termination_by (room, 3)

theorem height_application (room : Nat) :
    Makes (application room) (·.height ≤ tallest room + room) := by
  rw [application]
  exact makes_bind (height_primary room) fun head hhead =>
    height_suffixes room head (Nat.le_refl _) hhead
termination_by (room, 2)

theorem height_suffixes (room : Nat) (head : Expr) {limit : Nat} (hlimit : tallest room ≤ limit)
    (hhead : head.height ≤ limit) : Makes (suffixes room head) (·.height ≤ limit + room) := by
  rw [suffixes.eq_def]
  refine makes_then fun s => ?_
  split
  · cases room with
    | zero => exact makes_fail _
    | succ room =>
        have hshorter := Nat.le_trans (tallest_le_succ room) hlimit
        refine makes_then fun _ => makes_bind (height_arguments room) fun args hargs => ?_
        have hnext : (Expr.call head args s.span).height ≤ limit + 1 := by
          rw [Expr.height]
          apply Nat.succ_le_succ
          exact Nat.max_le.mpr ⟨hhead, Nat.le_trans (Expr.heightOfAll_le_iff.mpr hargs) hshorter⟩
        rw [Nat.add_comm room 1, ← Nat.add_assoc]
        exact height_suffixes room _ (Nat.le_succ_of_le hshorter) hnext
  · cases room with
    | zero => exact makes_fail _
    | succ room =>
        have hshorter := Nat.le_trans (tallest_le_succ room) hlimit
        refine makes_then fun _ => makes_then fun field => ?_
        have hnext : (Expr.field head field).height ≤ limit + 1 := by
          rw [Expr.height]
          exact Nat.succ_le_succ hhead
        rw [Nat.add_comm room 1, ← Nat.add_assoc]
        exact height_suffixes room _ (Nat.le_succ_of_le hshorter) hnext
  · exact makes_pure (Nat.le_trans hhead (Nat.le_add_right _ _))
termination_by (room, 0)

theorem height_arguments (room : Nat) :
    Makes (arguments room) fun args => ∀ e ∈ args, e.height ≤ tallest room := by
  rw [arguments]
  refine makes_then fun s => ?_
  refine makes_bind (makes_parenthesized (height_expression room) _) fun args hargs => ?_
  split
  · exact makes_pure hargs
  · exact makes_throw _
termination_by (room, 1)

theorem height_primary (room : Nat) : Makes (primary room) (·.height ≤ tallest room) := by
  rw [primary]
  refine makes_then fun s => ?_
  split
  · exact makes_then fun _ => makes_then fun x => makes_pure (tallest_pos room)
  · exact makes_then fun _ => makes_bind (height_expression room) fun inner hinner =>
      makes_then fun _ => makes_pure hinner
  · split
    · next hliteral =>
        refine makes_then fun _ => makes_pure ?_
        rw [height_of_literal? hliteral]
        exact tallest_pos room
    · exact makes_fail _
termination_by (room, 1)

end

/-!
## Statements
-/

section Statements

variable {total depth room : Nat} {inside : Parser (List Stmt)}

/-- Statements that were given up leave nothing behind. -/
theorem within_statementsIn {statement : Parser Stmt}
    (h : Makes statement fun s => Within total (s.expressions depth)) (rounds : List Located)
    {read : List Stmt} (hread : ∀ s ∈ read, Within total (s.expressions depth)) (s : ParseState) :
    ∀ parsed ∈ (statementsIn statement rounds read s).1,
      Within total (parsed.expressions depth) := by
  have hdone : ∀ parsed ∈ read.reverse, Within total (parsed.expressions depth) :=
    fun parsed hparsed => hread parsed (List.mem_reverse.mp hparsed)
  induction rounds generalizing read s with
  | nil => exact hdone
  | cons _ rounds ih =>
      rw [statementsIn, recovering]
      split
      · exact hdone
      · cases hrun : statement s with
        | error e s' => exact ih hread _ hdone
        | ok parsed s' =>
            have hall : ∀ other ∈ parsed :: read, Within total (other.expressions depth) :=
              List.forall_mem_cons.mpr ⟨h s parsed s' hrun, hread⟩
            exact ih hall s' fun other hother => hall other (List.mem_reverse.mp hother)

theorem within_statements {statement : Parser Stmt}
    (h : Makes statement fun s => Within total (s.expressions depth)) :
    Makes (statements statement) fun ss => Within total (expressionsOfAll depth ss) := by
  intro s ss s' hok
  cases hok
  exact Within.expressionsOfAll_iff.mpr
    (within_statementsIn h s.rest (List.forall_mem_nil _) s)

theorem within_expression (htotal : depth + room = total) :
    Makes (expression room) fun e => Within total (e.partsAt depth) :=
  makes_mono (height_expression room) fun _ h => .parts htotal h

theorem within_braced
    (hinside : Makes inside fun ss => Within total (expressionsOfAll depth ss)) (context : String) :
    Makes (braced inside context) fun ss => Within total (expressionsOfAll depth ss) :=
  makes_then fun _ => makes_bind hinside fun _ hbody => makes_then fun _ => makes_pure hbody

theorem within_block
    (hinside : Makes inside fun ss => Within total (expressionsOfAll depth ss)) (context : String) :
    Makes (block inside context) fun b => Within total (b.expressions depth) :=
  makes_then fun _ => makes_bind (within_braced hinside context) fun _ hbody => makes_pure hbody

theorem within_guarded (htotal : depth + room = total)
    (hinside : Makes inside fun ss => Within total (expressionsOfAll (depth + 1) ss))
    (word : String) :
    Makes (guarded room inside word) fun branch =>
      Within total (branch.condition.partsAt depth) ∧
        Within total (branch.body.expressions (depth + 1)) :=
  makes_then fun _ => makes_bind (within_expression htotal) fun _ hcondition =>
    makes_then fun _ => makes_bind (within_block hinside _) fun _ hbody =>
      makes_pure ⟨hcondition, hbody⟩

theorem within_declaration (htotal : depth + room = total) :
    Makes (declaration room) fun s => Within total (s.expressions depth) :=
  makes_then fun _ => makes_then fun _ => makes_then fun _ =>
    makes_bind (within_expression htotal) fun _ hvalue => makes_then fun _ => makes_pure hvalue

theorem within_function
    (hinside : Makes inside fun ss => Within total (expressionsOfAll (depth + 1) ss)) :
    Makes (function inside) fun s => Within total (s.expressions depth) := by
  refine makes_then fun _ => makes_then fun name => makes_then fun _ => makes_then fun params => ?_
  split
  · exact makes_bind (within_braced hinside _) fun _ hbody => makes_pure hbody
  · exact makes_throw _

theorem within_alternatives (htotal : depth + room = total)
    (hinside : Makes inside fun ss => Within total (expressionsOfAll (depth + 1) ss))
    (rounds : List Located) {read : List Branch}
    (hread : Within total (expressionsOfBranches depth read)) :
    Makes (alternatives room inside rounds read) fun p =>
      Within total ((Stmt.choose p.1 p.2).expressions depth) := by
  have hreversed : Within total (expressionsOfBranches depth read.reverse) := by
    rw [Within.expressionsOfBranches_iff] at hread ⊢
    exact fun branch hbranch => hread branch (List.mem_reverse.mp hbranch)
  induction rounds generalizing read with
  | nil => exact makes_pure hreversed
  | cons _ rounds ih =>
      refine makes_then fun found => ?_
      cases found with
      | false => exact makes_pure hreversed
      | true =>
          refine makes_then fun found => ?_
          cases found with
          | false =>
              exact makes_bind (within_block hinside _) fun _ hbody =>
                makes_pure (hreversed.append hbody)
          | true =>
              refine makes_bind (within_guarded htotal hinside _) fun branch hbranch => ?_
              rw [Within.expressionsOfBranches_iff] at hread
              have hall : ∀ other ∈ branch :: read,
                  Within total (other.condition.partsAt depth) ∧
                    Within total (other.body.expressions (depth + 1)) :=
                List.forall_mem_cons.mpr ⟨hbranch, hread⟩
              apply ih
              · exact Within.expressionsOfBranches_iff.mpr hall
              · rw [Within.expressionsOfBranches_iff]
                exact fun other hother => hall other (List.mem_reverse.mp hother)

theorem within_choice (htotal : depth + room = total)
    (hinside : Makes inside fun ss => Within total (expressionsOfAll (depth + 1) ss)) :
    Makes (choice room inside) fun s => Within total (s.expressions depth) := by
  refine makes_then fun _ => makes_bind (within_guarded htotal hinside _) fun first hfirst => ?_
  have hread : Within total (expressionsOfBranches depth [first]) :=
    Within.expressionsOfBranches_iff.mpr (List.forall_mem_singleton.mpr hfirst)
  exact makes_then fun s => makes_bind (within_alternatives htotal hinside s.rest hread)
    fun _ hall => makes_pure hall

theorem within_loop (htotal : depth + room = total)
    (hinside : Makes inside fun ss => Within total (expressionsOfAll (depth + 1) ss)) :
    Makes (loop room inside) fun s => Within total (s.expressions depth) :=
  makes_then fun _ => makes_bind (within_guarded htotal hinside _) fun _ hbranch =>
    makes_pure (hbranch.1.append hbranch.2)

theorem within_giveBack (htotal : depth + room = total) :
    Makes (giveBack room) fun s => Within total (s.expressions depth) := by
  have hclose : ∀ (span : Span) (value : Expr), Within total (value.partsAt depth) ->
      Makes (expect .semicolon "';' after return value" >>= fun _ =>
        pure (Stmt.giveBack value span)) fun s => Within total (s.expressions depth) :=
    fun _ _ hvalue => makes_then fun _ => makes_pure hvalue
  refine makes_then fun s => makes_then fun _ => makes_then fun found => ?_
  cases found with
  | true => exact makes_bind (makes_pure (.parts htotal (tallest_pos room))) (hclose _)
  | false => exact makes_bind (within_expression htotal) (hclose _)

theorem within_assignmentOrExpression (htotal : depth + room = total) :
    Makes (assignmentOrExpression room) fun s => Within total (s.expressions depth) := by
  have hvalue : ∀ assigned : Expr -> Stmt,
      (∀ value, Within total (value.partsAt depth) ->
        Within total ((assigned value).expressions depth)) ->
      Makes (expression room >>= fun value => expect .semicolon "';' after assignment" >>= fun _ =>
        pure (assigned value)) fun s => Within total (s.expressions depth) :=
    fun _ hassigned => makes_bind (within_expression htotal) fun value hvalue =>
      makes_then fun _ => makes_pure (hassigned value hvalue)
  refine makes_then fun s => makes_bind (height_expression room) fun first hfirst =>
    makes_then fun found => ?_
  cases found with
  | false => exact makes_then fun _ => makes_pure (.parts htotal hfirst)
  | true =>
      cases first with
      | ident name => exact makes_bind (makes_pure fun _ hvalue => hvalue) hvalue
      | field receiver field =>
          have hreceiver : Within total (receiver.partsAt depth) :=
            .parts htotal (Nat.le_of_succ_le hfirst)
          exact makes_bind (makes_pure fun _ hvalue => hreceiver.append hvalue) hvalue
      | _ => exact makes_bind (makes_throw _) hvalue

theorem within_statementForm (htotal : depth + room = total)
    (hinside : Makes inside fun ss => Within total (expressionsOfAll (depth + 1) ss)) :
    Makes (statementForm room inside) fun s => Within total (s.expressions depth) := by
  refine makes_then fun s => ?_
  split
  · exact within_declaration htotal
  · exact within_function hinside
  · exact within_choice htotal hinside
  · exact within_loop htotal hinside
  · exact within_giveBack htotal
  · exact makes_bind (within_block hinside _) fun _ hbody => makes_pure hbody
  · exact within_assignmentOrExpression htotal

end Statements

theorem within_statement {total depth : Nat} (room : Nat) (htotal : depth + room = total) :
    Makes (statement room) fun s => Within total (s.expressions depth) := by
  induction room generalizing depth with
  | zero => exact within_statementForm htotal (makes_fail _)
  | succ room ih =>
      have hinner : depth + 1 + room = total := by
        rw [Nat.add_assoc, Nat.add_comm 1 room]
        exact htotal
      exact within_statementForm htotal (within_statements (ih hinner))

theorem within_topLevelIn (rounds : List Located) {read : List Stmt}
    (hread : ∀ s ∈ read, Within maxNesting (s.expressions 0)) (s : ParseState) :
    ∀ parsed ∈ (topLevelIn rounds read s).1, Within maxNesting (parsed.expressions 0) := by
  have hdone : ∀ parsed ∈ read.reverse, Within maxNesting (parsed.expressions 0) :=
    fun parsed hparsed => hread parsed (List.mem_reverse.mp hparsed)
  induction rounds generalizing read s with
  | nil => exact hdone
  | cons _ rounds ih =>
      rw [topLevelIn, recovering]
      split
      · exact hdone
      · split
        · exact ih hread _ hdone
        · cases hrun : statement maxNesting s with
          | error e s' => exact ih hread _ hdone
          | ok parsed s' =>
              have hparsed := within_statement maxNesting (Nat.zero_add _) s parsed s' hrun
              have hall : ∀ other ∈ parsed :: read, Within maxNesting (other.expressions 0) :=
                List.forall_mem_cons.mpr ⟨hparsed, hread⟩
              exact ih hall s' fun other hother => hall other (List.mem_reverse.mp hother)

end Parser

theorem Program.within_of_ofTokens {tokens : List Located} {program : Program}
    (h : ofTokens tokens = .ok program) : Within maxNesting program.expressions := by
  have hall := Parser.within_topLevelIn (ParseState.ofTokens tokens).rest (List.forall_mem_nil _)
    (.ofTokens tokens)
  unfold ofTokens Parser.program at h
  cases hrun : Parser.topLevelIn (ParseState.ofTokens tokens).rest [] (.ofTokens tokens) with
  | mk parsed s =>
      rw [hrun] at h hall
      dsimp only at h
      split at h
      · cases h
        exact Within.expressionsOfAll_iff.mpr hall
      · cases h

/-- No expression of a program is taller than what its depth leaves of the
nesting limit comes to. -/
theorem Program.within_of_parse {source : String} {program : Program}
    (h : parse source = .ok program) : Within maxNesting program.expressions := by
  unfold parse at h
  cases htokens : tokenize source with
  | ok tokens =>
      rw [htokens] at h
      exact within_of_ofTokens h
  | error e =>
      rw [htokens] at h
      cases h

end StackScript
