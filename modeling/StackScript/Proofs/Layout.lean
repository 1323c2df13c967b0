import StackScript.Proofs.Emission
import StackScript.Proofs.Outcomes

/-!
# The layout of structured code

Labels and jumps of a draft are resolved late.  For fragments that make their
labels themselves the outcome is known beforehand: the distance of each jump
depends on the lengths of the parts around it alone.  This module gives the
code of such a fragment as a list of items with relative jumps, and shows that
emission and resolution arrive at exactly these items.
-/

namespace StackScript

/-!
## Sizes
-/

section Sizes

variable {α : Type}

def totalSize (size : α -> Nat) : List α -> Nat
  | [] => 0
  | x :: rest => size x + totalSize size rest

variable {size : α -> Nat}

@[simp] theorem totalSize_nil : totalSize size [] = 0 := rfl

@[simp] theorem totalSize_cons (x : α) (rest : List α) :
    totalSize size (x :: rest) = size x + totalSize size rest := rfl

@[simp] theorem totalSize_append (xs ys : List α) :
    totalSize size (xs ++ ys) = totalSize size xs + totalSize size ys := by
  induction xs with
  | nil => simp
  | cons x rest ih => simp [ih, Nat.add_assoc]

end Sizes

/-!
## Items
-/

/-- An instruction of a fragment, with a constant itself in place of its
index. -/
inductive Item where
  | plain (instruction : Instruction)
  | pooled (opcode : Opcode) (c : PoolConstant)
  /-- Some function of the program. -/
  | function
  /-- A call with so many arguments. -/
  | call (count : Nat)
  | jump (opcode : Opcode) (distance : Nat)

namespace Item

def size : Item -> Nat
  | plain i => i.byteLength
  | _ => 2

def total (items : List Item) : Nat :=
  totalSize size items

@[simp] theorem total_nil : total [] = 0 := rfl

@[simp] theorem total_cons (item : Item) (items : List Item) :
    total (item :: items) = item.size + total items := rfl

@[simp] theorem total_append (items items' : List Item) :
    total (items ++ items') = total items + total items' :=
  totalSize_append items items'

@[simp] theorem size_pooled (opcode : Opcode) (c : PoolConstant) : (pooled opcode c).size = 2 := rfl

@[simp] theorem size_function : function.size = 2 := rfl

@[simp] theorem size_call (count : Nat) : (call count).size = 2 := rfl

@[simp] theorem size_jump (opcode : Opcode) (distance : Nat) : (jump opcode distance).size = 2 :=
  rfl

def pop : Item := plain { opcode := .pop }

@[simp] theorem size_pop : pop.size = 1 := rfl

def Encodes (constants : List PoolConstant) : Item -> Instruction -> Prop
  | plain i, j => j = i
  | pooled opcode c, j =>
      ∃ index, j = { opcode := opcode, argument := some index } ∧
        constants[index.toNat]? = some c
  | function, j =>
      ∃ index ref, j = { opcode := .constant, argument := some index } ∧
        constants[index.toNat]? = some (.function ref)
  | call count, j =>
      j = { opcode := .call, argument := some (UInt8.ofNat count) } ∧ count ≤ Fragment.maxCount
  | jump opcode distance, j =>
      j = { opcode := opcode, argument := some (UInt8.ofNat distance) } ∧ distance ≤ maxJump

end Item

/-!
## Structured fragments
-/

def Opcode.isJump : Opcode -> Bool
  | jumpForward | jumpForwardIfFalse | jumpBackward => true
  | _ => false

/-- The constant is of a kind that the opcode can use.  No fragment holds a
handle on a chunk itself. -/
def PoolConstant.Serves (opcode : Opcode) : PoolConstant -> Prop
  | int _ => opcode = .constant
  | string _ => opcode.takesConstant = true
  | function _ => False

/-- An instruction that stands for itself: it has its argument, which is neither
a constant nor a distance. -/
def Instruction.Plain (i : Instruction) : Prop :=
  i.WellFormed ∧ i.opcode.takesConstant = false ∧ i.opcode.isJump = false

namespace Fragment

mutual

/-- The fragment is made of plain instructions, constants and functions by the
compound forms.  The function that the code belongs to can be used if there is
one. -/
def Structured (inFunction : Bool) : Fragment -> Prop
  | instr i => i.Plain
  | pooled opcode c => c.Serves opcode
  | self => inFunction = true
  | builtin _ => True
  | define _ _ body => body.Structured true
  | sequence parts => AllStructured inFunction parts
  | call callee arguments => callee.Structured inFunction ∧ AllStructured inFunction arguments
  | both left right => left.Structured inFunction ∧ right.Structured inFunction
  | either left right => left.Structured inFunction ∧ right.Structured inFunction
  | choose branches otherwise =>
      BranchesStructured inFunction branches ∧ otherwise.Structured inFunction
  | loop condition body => condition.Structured inFunction ∧ body.Structured inFunction
  | _ => False

def AllStructured (inFunction : Bool) : List Fragment -> Prop
  | [] => True
  | part :: rest => part.Structured inFunction ∧ AllStructured inFunction rest

def BranchesStructured (inFunction : Bool) : List FragmentBranch -> Prop
  | [] => True
  | { condition, body } :: rest =>
      condition.Structured inFunction ∧ body.Structured inFunction ∧
        BranchesStructured inFunction rest

end

mutual

def items : Fragment -> List Item
  | instr i => [.plain i]
  | pooled opcode c => [.pooled opcode c]
  | self => [.function]
  | builtin _ => [.function]
  | define _ _ _ => [.function]
  | sequence parts => itemsOfAll parts
  | call callee arguments =>
      callee.items ++ itemsOfAll arguments ++ [.call arguments.length]
  | both left right =>
      left.items ++ .jump .jumpForwardIfFalse (1 + Item.total right.items) :: .pop :: right.items
  | either left right =>
      left.items ++ .jump .jumpForwardIfFalse 2 ::
        .jump .jumpForward (1 + Item.total right.items) :: .pop :: right.items
  | choose branches otherwise =>
      itemsOfBranches (Item.total otherwise.items) branches ++ otherwise.items
  | loop condition body =>
      condition.items ++ .jump .jumpForwardIfFalse (Item.total body.items + 3) :: .pop ::
        (body.items ++
          [.jump .jumpBackward (Item.total condition.items + Item.total body.items + 5), .pop])
  | _ => []

def itemsOfAll : List Fragment -> List Item
  | [] => []
  | part :: rest => part.items ++ itemsOfAll rest

/-- The code of branches in front of `rest` bytes for the case that none is
taken. -/
def itemsOfBranches (rest : Nat) : List FragmentBranch -> List Item
  | [] => []
  | { condition, body } :: others =>
      condition.items ++ .jump .jumpForwardIfFalse (Item.total body.items + 3) :: .pop ::
        (body.items ++ .jump .jumpForward (1 + Item.total (itemsOfBranches rest others) + rest) ::
          .pop :: itemsOfBranches rest others)

end

theorem items_choose_cons (condition body : Fragment) (rest : List FragmentBranch)
    (otherwise : Fragment) :
    (choose ({ condition, body } :: rest) otherwise).items =
      condition.items ++ .jump .jumpForwardIfFalse (Item.total body.items + 3) :: .pop ::
        (body.items ++ .jump .jumpForward (1 + Item.total (choose rest otherwise).items) ::
          .pop :: (choose rest otherwise).items) := by
  rw [items, itemsOfBranches, items, Item.total_append, Nat.add_assoc]
  simp only [List.append_assoc, List.cons_append]

end Fragment

/-!
## Resolved directives
-/

theorem encodes_of_jumpInstruction {d : Draft} {opcode : Opcode} {target : Label}
    {distance : Nat} {i : Instruction} (h : d.jumpInstruction opcode target distance = .ok i) :
    (Item.jump opcode distance).Encodes d.pool.constants i := by
  unfold Draft.jumpInstruction at h
  by_cases hdistance : distance ≤ maxJump
  · rw [if_pos hdistance] at h
    cases h
    exact ⟨rfl, hdistance⟩
  · rw [if_neg hdistance] at h
    cases h

/-- Between the drafts `d` and `d'` the items were added, as the labels of the
later draft `last` resolve them. -/
structure LaidOut (last d d' : Draft) (items : List Item) : Prop where
  position : d'.position = d.position + Item.total items
  code : ∃ directives, d'.directives.toList = d.directives.toList ++ directives ∧
    List.Forall₂
      (fun item directive => ∀ i, last.resolve directive = .ok i ->
        item.Encodes last.pool.constants i)
      items directives

namespace LaidOut

variable {last d d' d'' : Draft} {items items' : List Item}

theorem append (h : LaidOut last d d' items) (h' : LaidOut last d' d'' items') :
    LaidOut last d d'' (items ++ items') := by
  rcases h with ⟨hpos, directives, hcode, hitems⟩
  rcases h' with ⟨hpos', directives', hcode', hitems'⟩
  constructor
  · rw [hpos', hpos, Item.total_append, Nat.add_assoc]
  · refine ⟨directives ++ directives', ?_, List.rel_append hitems hitems'⟩
    rw [hcode', hcode, List.append_assoc]

theorem cons {item : Item} (h : LaidOut last d d' [item]) (h' : LaidOut last d' d'' items) :
    LaidOut last d d'' (item :: items) :=
  h.append h'

theorem silent (hpos : d'.position = d.position) (hcode : d'.directives = d.directives) :
    LaidOut last d d' [] where
  position := hpos
  code := ⟨[], by rw [hcode, List.append_nil], .nil⟩

theorem push {item : Item} {directive : Directive}
    (hsize : directive.byteLength = item.size)
    (hitem : ∀ i, last.resolve directive = .ok i -> item.Encodes last.pool.constants i) :
    LaidOut last d (d.push directive) [item] where
  position := by
    show d.position + directive.byteLength = _
    simp [hsize]
  code := by
    refine ⟨[directive], ?_, .cons hitem .nil⟩
    show (d.directives.push directive).toList = _
    rw [Array.toList_push]

theorem newLabel {name : Option String} {label : Label} (h : d.newLabel name = (label, d')) :
    LaidOut last d d' [] := by
  cases h
  exact silent rfl rfl

theorem place {label : Label} (h : d.place label = .ok d') : LaidOut last d d' [] := by
  rcases Draft.place_eq_ok h with ⟨_, _, _, hrest⟩
  rw [hrest]
  exact silent rfl rfl

theorem after_newLabel {name : Option String} {label : Label} (h : d.newLabel name = (label, d'))
    (h' : LaidOut last d' d'' items) : LaidOut last d d'' items :=
  (newLabel h).append h'

theorem after_place {label : Label} (h : d.place label = .ok d')
    (h' : LaidOut last d' d'' items) : LaidOut last d d'' items :=
  (place h).append h'

theorem then_place {label : Label} (h : LaidOut last d d' items)
    (h' : d'.place label = .ok d'') : LaidOut last d d'' items := by
  rw [← List.append_nil items]
  exact h.append (place h')

theorem instr (i : Instruction) : LaidOut last d (d.push (.instr i)) [.plain i] := by
  apply push rfl
  intro j hj
  cases hj
  rfl

theorem call {count : Nat} (hcount : count ≤ Fragment.maxCount) :
    LaidOut last d (d.push (.instr { opcode := .call, argument := some (UInt8.ofNat count) }))
      [.call count] := by
  apply push rfl
  intro j hj
  cases hj
  exact ⟨rfl, hcount⟩

theorem op {opcode : Opcode} {a a' : Assembler}
    (h : (Emit.op opcode).Yields d a () d' a') :
    LaidOut last d d' [.plain { opcode := opcode }] := by
  rcases Emit.yields_op_iff.mp h with ⟨rfl, rfl⟩
  exact instr _

theorem pooled {opcode : Opcode} {c : PoolConstant} {a a' : Assembler}
    (hopcode : opcode.takesConstant = true) (hfits : d.pool.Fits)
    (h : (Emit.pooled opcode c).Yields d a () d' a') (hlast : d'.Extends last) :
    LaidOut last d d' [.pooled opcode c] := by
  rcases Emit.yields_pooled_iff.mp h with ⟨index, d1, hstore, rfl, rfl⟩
  rcases Draft.store_eq_ok hstore with ⟨hpool, hrest⟩
  rcases Pool.store_eq_ok hfits hpool with ⟨hfits1, hindex, _⟩
  have hstored : LaidOut last d d1 [] := by
    rw [hrest]
    exact silent rfl rfl
  have hconstant : last.pool.constants[index.toNat]? = some c := by
    rcases ((Draft.extends_push d1 _).trans hlast).constants hfits1 with ⟨more, hmore⟩
    rw [← hmore, List.getElem?_append_left (List.getElem?_eq_some_iff.mp hindex).1]
    exact hindex
  refine hstored.append (push ?_ ?_)
  · cases opcode <;> first | rfl | cases hopcode
  · intro j hj
    cases hj
    exact ⟨index, rfl, hconstant⟩

theorem function {chunk : ChunkRef} {a a' : Assembler} (hfits : d.pool.Fits)
    (h : (Emit.pooled .constant (.function chunk)).Yields d a () d' a')
    (hlast : d'.Extends last) : LaidOut last d d' [.function] := by
  rcases pooled rfl hfits h hlast with ⟨hpos, directives, hcode, hitems⟩
  refine ⟨hpos, directives, hcode, ?_⟩
  cases hitems with
  | cons hitem hnil =>
      cases hnil
      refine .cons ?_ .nil
      intro j hj
      rcases hitem j hj with ⟨index, heq, hget⟩
      exact ⟨index, chunk, heq, hget⟩

/-!
A jump leaves its own place behind it in a label.  Once the label that it goes
to has its place too, the distance is the way between the two.
-/

theorem marked {directive : Directive} {item : Item} (hsize : directive.byteLength = 2)
    (hitem : item.size = 2)
    (hplace : ((d.newLabel none).2.push directive).place d.labels.size = .ok d')
    (hlast : d'.Extends last)
    (hresolve : last.positionOf d.labels.size = some d'.position ->
      ∀ i, last.resolve directive = .ok i -> item.Encodes last.pool.constants i) :
    LaidOut last d d' [item] := by
  rcases Draft.place_eq_ok hplace with ⟨_, hposition, _, hrest⟩
  have hhere : d'.position = ((d.newLabel none).2.push directive).position := by
    rw [hrest]
  have hplaced : last.positionOf d.labels.size = some d'.position := by
    rw [hhere]
    exact hlast.placed _ _ hposition
  have hlabel : LaidOut last d (d.newLabel none).2 [] := newLabel rfl
  have hpush : LaidOut last (d.newLabel none).2 ((d.newLabel none).2.push directive) [item] :=
    push (hsize.trans hitem.symm) (hresolve hplaced)
  exact (hlabel.append hpush).append (place hplace)

theorem jump_forward {target : Label} {distance : Nat} {a a' : Assembler}
    (h : (Emit.jump target).Yields d a () d' a') (hlast : d'.Extends last)
    (htarget : last.positionOf target = some (d'.position + distance)) (hpos : 0 < distance) :
    LaidOut last d d' [.jump .jumpForward distance] := by
  rcases Emit.yields_jump_iff.mp h with ⟨hplace, _⟩
  apply marked rfl rfl hplace hlast
  intro hhere i hi
  rw [Draft.resolve, Draft.labelPosition_eq_ok_iff.mpr htarget,
    Draft.labelPosition_eq_ok_iff.mpr hhere] at hi
  change (if d'.position < d'.position + distance then
    last.jumpInstruction .jumpForward target (d'.position + distance - d'.position)
    else _) = .ok i at hi
  rw [if_pos (by omega), Nat.add_sub_cancel_left] at hi
  exact encodes_of_jumpInstruction hi

theorem jump_backward {target : Label} {distance position : Nat} {a a' : Assembler}
    (h : (Emit.jump target).Yields d a () d' a') (hlast : d'.Extends last)
    (htarget : last.positionOf target = some position)
    (hdistance : position + distance = d'.position) :
    LaidOut last d d' [.jump .jumpBackward distance] := by
  rcases Emit.yields_jump_iff.mp h with ⟨hplace, _⟩
  apply marked rfl rfl hplace hlast
  intro hhere i hi
  rw [Draft.resolve, Draft.labelPosition_eq_ok_iff.mpr htarget,
    Draft.labelPosition_eq_ok_iff.mpr hhere] at hi
  change (if d'.position < position then _ else
    last.jumpInstruction .jumpBackward target (d'.position - position)) = .ok i at hi
  rw [if_neg (by omega), ← hdistance, Nat.add_sub_cancel_left] at hi
  exact encodes_of_jumpInstruction hi

theorem jumpIfFalse {target : Label} {distance : Nat} {a a' : Assembler}
    (h : (Emit.jumpIfFalse target).Yields d a () d' a') (hlast : d'.Extends last)
    (htarget : last.positionOf target = some (d'.position + distance)) :
    LaidOut last d d' [.jump .jumpForwardIfFalse distance] := by
  rcases Emit.yields_jumpIfFalse_iff.mp h with ⟨hplace, _⟩
  apply marked rfl rfl hplace hlast
  intro hhere i hi
  rw [Draft.resolve, Draft.labelPosition_eq_ok_iff.mpr htarget,
    Draft.labelPosition_eq_ok_iff.mpr hhere] at hi
  change (if d'.position + distance < d'.position then _ else
    last.jumpInstruction .jumpForwardIfFalse target (d'.position + distance - d'.position))
    = .ok i at hi
  rw [if_neg (by omega), Nat.add_sub_cancel_left] at hi
  exact encodes_of_jumpInstruction hi

end LaidOut

/-!
## Emission of structured fragments
-/

namespace Fragment

open Emit

theorem extends_of_emit {f : Fragment} {d d' : Draft} {a a' : Assembler}
    (h : f.emit.Yields d a () d' a') : d.Extends d' :=
  (actions_of_emit f h).draft_extends

theorem extends_of_emitAll {parts : List Fragment} {d d' : Draft} {a a' : Assembler}
    (h : (emitAll parts).Yields d a () d' a') : d.Extends d' :=
  (actions_of_emitAll parts h).draft_extends

theorem extends_of_emitBranches {after : Label} {branches : List FragmentBranch} {d d' : Draft}
    {a a' : Assembler} (h : (emitBranches after branches).Yields d a () d' a') :
    d.Extends d' :=
  (actions_of_emitBranches after branches h).draft_extends

theorem takesConstant_of_serves {opcode : Opcode} {c : PoolConstant} (h : c.Serves opcode) :
    opcode.takesConstant = true := by
  cases c with
  | int n =>
      cases h
      rfl
  | string text => exact h
  | function chunk => cases h

mutual

/-- A structured fragment is laid out as its items. -/
theorem laidOut_of_emit : ∀ (f : Fragment) {inFunction : Bool} {last d d' : Draft}
    {a a' : Assembler}, f.Structured inFunction -> d.pool.Fits ->
    f.emit.Yields d a () d' a' -> d'.Extends last -> LaidOut last d d' f.items
  | instr i, _, last, d, d', a, a', _, _, h, _ => by
      rw [emit, yields_push_iff] at h
      rcases h with ⟨rfl, rfl⟩
      exact .instr i
  | pooled opcode c, _, last, d, d', a, a', hf, hfits, h, hlast => by
      rw [emit] at h
      exact .pooled (takesConstant_of_serves hf) hfits h hlast
  | self, _, last, d, d', a, a', _, hfits, h, hlast => by
      simp only [emit, yields_bind_iff, yields_get_iff] at h
      rcases h with ⟨_, _, _, ⟨rfl, rfl, rfl⟩, hpooled⟩
      exact .function hfits hpooled hlast
  | builtin name, _, last, d, d', a, a', _, hfits, h, hlast => by
      simp only [emit, yields_bind_iff, yields_named?_iff] at h
      rcases h with ⟨chunk?, _, _, ⟨_, rfl, rfl⟩, hrest⟩
      cases chunk? with
      | some chunk => exact .function hfits hrest hlast
      | none => exact absurd hrest not_yields_throw
  | define name arity body, _, last, d, d', a, a', _, hfits, h, hlast => by
      simp only [emit, yields_bind_iff, yields_lift_iff] at h
      rcases h with ⟨ref, _, _, ⟨_, rfl⟩, hpooled⟩
      exact .function hfits hpooled hlast
  | sequence parts, _, last, d, d', a, a', hf, hfits, h, hlast => by
      rw [emit] at h
      rw [Structured] at hf
      exact laidOut_of_emitAll parts hf hfits h hlast
  | call callee arguments, _, last, d, d', a, a', hf, hfits, h, hlast => by
      rw [emit] at h
      rw [Structured] at hf
      by_cases hcount : arguments.length ≤ maxCount
      · simp only [hcount, if_true, yields_bind_iff, yields_push_iff] at h
        rcases h with ⟨_, d1, _, hcallee, _, d2, _, harguments, rfl, rfl⟩
        have hlast2 : d2.Extends last := (Draft.extends_push d2 _).trans hlast
        have hlast1 : d1.Extends last := (extends_of_emitAll harguments).trans hlast2
        have hfits1 : d1.pool.Fits := (extends_of_emit hcallee).fits hfits
        have hhead := laidOut_of_emit callee hf.1 hfits hcallee hlast1
        have htail := laidOut_of_emitAll arguments hf.2 hfits1 harguments hlast2
        exact (hhead.append htail).append (.call hcount)
      · simp only [hcount, if_false] at h
        exact absurd h not_yields_throw
  | both left right, _, last, d, d', a, a', hf, hfits, h, hlast => by
      simp only [emit, yields_bind_iff, yields_newLabel_iff, yields_place_iff] at h
      rw [Structured] at hf
      rcases h with ⟨after, d1, _, ⟨hnew, rfl⟩, _, d2, _, hleft, _, d3, _, hjump, _, d4, _, hpop,
        _, d5, _, hright, hplace, rfl⟩
      have hlast5 : d5.Extends last := (Draft.extends_place hplace).trans hlast
      have hlast4 : d4.Extends last := (extends_of_emit hright).trans hlast5
      have hlast3 : d3.Extends last := (Actions.of_op hpop).draft_extends.trans hlast4
      have hlast2 : d2.Extends last := (Actions.of_jumpIfFalse hjump).draft_extends.trans hlast3
      have hfits1 : d1.pool.Fits := (Draft.extends_of_newLabel hnew).fits hfits
      have hfits3 : d3.pool.Fits :=
        (Actions.of_jumpIfFalse hjump).draft_extends.fits ((extends_of_emit hleft).fits hfits1)
      have hfits4 : d4.pool.Fits := (Actions.of_op hpop).draft_extends.fits hfits3
      have hcodeLeft := laidOut_of_emit left hf.1 hfits1 hleft hlast2
      have hcodePop : LaidOut last d3 d4 [.pop] := .op hpop
      have hcodeRight := laidOut_of_emit right hf.2 hfits4 hright hlast5
      have htarget : last.positionOf after
          = some (d3.position + (1 + Item.total right.items)) := by
        rw [hlast.placed _ _ (Draft.place_eq_ok hplace).2.1, hcodeRight.position,
          hcodePop.position]
        simp [Nat.add_assoc]
      have hcodeJump := LaidOut.jumpIfFalse hjump hlast3 htarget
      exact .after_newLabel hnew (hcodeLeft.append
        (hcodeJump.cons (hcodePop.cons (hcodeRight.then_place hplace))))
  | either left right, _, last, d, d', a, a', hf, hfits, h, hlast => by
      simp only [emit, yields_bind_iff, yields_newLabel_iff, yields_place_iff] at h
      rw [Structured] at hf
      rcases h with ⟨rightSide, d1, _, ⟨hnewRight, rfl⟩, after, d2, _, ⟨hnew, rfl⟩, _, d3, _, hleft,
        _, d4, _, hskip, _, d5, _, hjump, _, d6, _, ⟨hplaceRight, rfl⟩, _, d7, _, hpop,
        _, d8, _, hright, hplace, rfl⟩
      have hlast8 : d8.Extends last := (Draft.extends_place hplace).trans hlast
      have hlast7 : d7.Extends last := (extends_of_emit hright).trans hlast8
      have hlast6 : d6.Extends last := (Actions.of_op hpop).draft_extends.trans hlast7
      have hlast5 : d5.Extends last := (Draft.extends_place hplaceRight).trans hlast6
      have hlast4 : d4.Extends last := (Actions.of_jump hjump).draft_extends.trans hlast5
      have hlast3 : d3.Extends last := (Actions.of_jumpIfFalse hskip).draft_extends.trans hlast4
      have hfits2 : d2.pool.Fits :=
        (Draft.extends_of_newLabel hnew).fits ((Draft.extends_of_newLabel hnewRight).fits hfits)
      have hfits4 : d4.pool.Fits :=
        (Actions.of_jumpIfFalse hskip).draft_extends.fits ((extends_of_emit hleft).fits hfits2)
      have hfits6 : d6.pool.Fits := (Draft.extends_place hplaceRight).fits
        ((Actions.of_jump hjump).draft_extends.fits hfits4)
      have hfits7 : d7.pool.Fits := (Actions.of_op hpop).draft_extends.fits hfits6
      have hcodeLeft := laidOut_of_emit left hf.1 hfits2 hleft hlast3
      have hcodePop : LaidOut last d6 d7 [.pop] := .op hpop
      have hcodeRight := laidOut_of_emit right hf.2 hfits7 hright hlast8
      have hcodePlace : LaidOut last d5 d6 [] := .place hplaceRight
      have htarget : last.positionOf after
          = some (d5.position + (1 + Item.total right.items)) := by
        rw [hlast.placed _ _ (Draft.place_eq_ok hplace).2.1, hcodeRight.position,
          hcodePop.position, hcodePlace.position]
        simp [Nat.add_assoc]
      have hcodeJump := LaidOut.jump_forward hjump hlast5 htarget (by omega)
      have htargetRight : last.positionOf rightSide = some (d4.position + 2) := by
        rw [hlast6.placed _ _ (Draft.place_eq_ok hplaceRight).2.1, hcodeJump.position]
        simp
      have hcodeSkip := LaidOut.jumpIfFalse hskip hlast4 htargetRight
      exact .after_newLabel hnewRight (.after_newLabel hnew (hcodeLeft.append
        (hcodeSkip.cons (hcodeJump.cons (.after_place hplaceRight
          (hcodePop.cons (hcodeRight.then_place hplace)))))))
  | choose branches otherwise, _, last, d, d', a, a', hf, hfits, h, hlast => by
      simp only [emit, yields_bind_iff, yields_newLabel_iff, yields_place_iff] at h
      rw [Structured] at hf
      rcases h with ⟨after, d1, _, ⟨hnew, rfl⟩, _, d2, _, hbranches, _, d3, _, hotherwise,
        hplace, rfl⟩
      have hlast3 : d3.Extends last := (Draft.extends_place hplace).trans hlast
      have hlast2 : d2.Extends last := (extends_of_emit hotherwise).trans hlast3
      have hfits1 : d1.pool.Fits := (Draft.extends_of_newLabel hnew).fits hfits
      have hfits2 : d2.pool.Fits := (extends_of_emitBranches hbranches).fits hfits1
      have hcodeOtherwise := laidOut_of_emit otherwise hf.2 hfits2 hotherwise hlast3
      have htarget : last.positionOf after
          = some (d2.position + Item.total otherwise.items) := by
        rw [hlast.placed _ _ (Draft.place_eq_ok hplace).2.1, hcodeOtherwise.position]
      have hcodeBranches := laidOut_of_emitBranches after branches hf.1 hfits1 hbranches hlast2
        htarget
      exact .after_newLabel hnew (hcodeBranches.append (hcodeOtherwise.then_place hplace))
  | loop condition body, _, last, d, d', a, a', hf, hfits, h, hlast => by
      simp only [emit, yields_bind_iff, yields_newLabel_iff, yields_place_iff] at h
      rw [Structured] at hf
      rcases h with ⟨before, d1, _, ⟨hnewBefore, rfl⟩, after, d2, _, ⟨hnew, rfl⟩, _, d3, _,
        ⟨hplaceBefore, rfl⟩, _, d4, _, hcondition, _, d5, _, hjump, _, d6, _, hpop, _, d7, _,
        hbody, _, d8, _, hback, _, d9, _, ⟨hplace, rfl⟩, hlastPop⟩
      have hlast9 : d9.Extends last := (Actions.of_op hlastPop).draft_extends.trans hlast
      have hlast8 : d8.Extends last := (Draft.extends_place hplace).trans hlast9
      have hlast7 : d7.Extends last := (Actions.of_jump hback).draft_extends.trans hlast8
      have hlast6 : d6.Extends last := (extends_of_emit hbody).trans hlast7
      have hlast5 : d5.Extends last := (Actions.of_op hpop).draft_extends.trans hlast6
      have hlast4 : d4.Extends last := (Actions.of_jumpIfFalse hjump).draft_extends.trans hlast5
      have hlast3 : d3.Extends last := (extends_of_emit hcondition).trans hlast4
      have hfits2 : d2.pool.Fits :=
        (Draft.extends_of_newLabel hnew).fits ((Draft.extends_of_newLabel hnewBefore).fits hfits)
      have hfits3 : d3.pool.Fits := (Draft.extends_place hplaceBefore).fits hfits2
      have hfits5 : d5.pool.Fits := (Actions.of_jumpIfFalse hjump).draft_extends.fits
        ((extends_of_emit hcondition).fits hfits3)
      have hfits6 : d6.pool.Fits := (Actions.of_op hpop).draft_extends.fits hfits5
      have hcodeCondition := laidOut_of_emit condition hf.1 hfits3 hcondition hlast4
      have hcodePop : LaidOut last d5 d6 [.pop] := .op hpop
      have hcodeBody := laidOut_of_emit body hf.2 hfits6 hbody hlast7
      have hcodeStart : LaidOut last d2 d3 [] := .place hplaceBefore
      have hcodeEnd : LaidOut last d8 d9 [] := .place hplace
      have hbefore : last.positionOf before = some d2.position :=
        hlast3.placed _ _ (Draft.place_eq_ok hplaceBefore).2.1
      have hbackPosition : d8.position = d7.position + 2 := by
        rcases yields_jump_iff.mp hback with ⟨hplaceBack, _⟩
        rw [(Draft.place_eq_ok hplaceBack).2.2.2]
        rfl
      have hjumpPosition : d5.position = d4.position + 2 := by
        rcases yields_jumpIfFalse_iff.mp hjump with ⟨hplaceJump, _⟩
        rw [(Draft.place_eq_ok hplaceJump).2.2.2]
        rfl
      have hdistance : d2.position + (Item.total condition.items + Item.total body.items + 5)
          = d8.position := by
        rw [hbackPosition, hcodeBody.position, hcodePop.position, hjumpPosition,
          hcodeCondition.position, hcodeStart.position]
        simp only [Item.total_nil, Item.total_cons, Item.size_pop]
        omega
      have hcodeBack := LaidOut.jump_backward hback hlast8 hbefore hdistance
      have htarget : last.positionOf after
          = some (d5.position + (Item.total body.items + 3)) := by
        rw [hlast9.placed _ _ (Draft.place_eq_ok hplace).2.1, hcodeBack.position,
          hcodeBody.position, hcodePop.position]
        simp only [Item.total_nil, Item.total_cons, Item.size_pop, Item.size_jump,
          Option.some.injEq]
        omega
      have hcodeJump := LaidOut.jumpIfFalse hjump hlast5 htarget
      exact .after_newLabel hnewBefore (.after_newLabel hnew (.after_place hplaceBefore
        (hcodeCondition.append (hcodeJump.cons (hcodePop.cons (hcodeBody.append
          (hcodeBack.cons (.after_place hplace (.op hlastPop)))))))))
  | store _, _, _, _, _, _, _, hf, _, _, _ => by cases hf
  | position, _, _, _, _, _, _, hf, _, _, _ => by cases hf
  | functionOrNull _, _, _, _, _, _, _, hf, _, _, _ => by cases hf
  | label _, _, _, _, _, _, _, hf, _, _, _ => by cases hf
  | place _, _, _, _, _, _, _, hf, _, _, _ => by cases hf
  | jump _, _, _, _, _, _, _, hf, _, _, _ => by cases hf
  | jumpIfFalse _, _, _, _, _, _, _, hf, _, _, _ => by cases hf

theorem laidOut_of_emitAll : ∀ (parts : List Fragment) {inFunction : Bool} {last d d' : Draft}
    {a a' : Assembler}, AllStructured inFunction parts -> d.pool.Fits ->
    (emitAll parts).Yields d a () d' a' -> d'.Extends last ->
    LaidOut last d d' (itemsOfAll parts)
  | [], _, last, d, d', a, a', _, _, h, _ => by
      rw [emitAll, yields_pure_iff] at h
      rcases h with ⟨_, rfl, rfl⟩
      exact .silent rfl rfl
  | part :: rest, _, last, d, d', a, a', hf, hfits, h, hlast => by
      simp only [emitAll, yields_bind_iff] at h
      rw [AllStructured] at hf
      rcases h with ⟨_, d1, a1, hpart, hrest⟩
      have hlast1 : d1.Extends last := (extends_of_emitAll hrest).trans hlast
      have hfits1 : d1.pool.Fits := (extends_of_emit hpart).fits hfits
      exact (laidOut_of_emit part hf.1 hfits hpart hlast1).append
        (laidOut_of_emitAll rest hf.2 hfits1 hrest hlast)

theorem laidOut_of_emitBranches : ∀ (after : Label) (branches : List FragmentBranch)
    {inFunction : Bool} {last d d' : Draft} {a a' : Assembler} {rest : Nat},
    BranchesStructured inFunction branches -> d.pool.Fits ->
    (emitBranches after branches).Yields d a () d' a' -> d'.Extends last ->
    last.positionOf after = some (d'.position + rest) ->
    LaidOut last d d' (itemsOfBranches rest branches)
  | _, [], _, last, d, d', a, a', rest, _, _, h, _, _ => by
      rw [emitBranches, yields_pure_iff] at h
      rcases h with ⟨_, rfl, rfl⟩
      exact .silent rfl rfl
  | after, { condition, body } :: others, _, last, d, d', a, a', rest, hf, hfits, h, hlast,
      hafter => by
      simp only [emitBranches, yields_bind_iff, yields_newLabel_iff, yields_place_iff] at h
      rw [BranchesStructured] at hf
      rcases h with ⟨next, d1, _, ⟨hnew, rfl⟩, _, d2, _, hcondition, _, d3, _, hjump, _, d4, _,
        hpop, _, d5, _, hbody, _, d6, _, hout, _, d7, _, ⟨hplace, rfl⟩, _, d8, _, hlastPop,
        hothers⟩
      have hlast8 : d8.Extends last := (extends_of_emitBranches hothers).trans hlast
      have hlast7 : d7.Extends last := (Actions.of_op hlastPop).draft_extends.trans hlast8
      have hlast6 : d6.Extends last := (Draft.extends_place hplace).trans hlast7
      have hlast5 : d5.Extends last := (Actions.of_jump hout).draft_extends.trans hlast6
      have hlast4 : d4.Extends last := (extends_of_emit hbody).trans hlast5
      have hlast3 : d3.Extends last := (Actions.of_op hpop).draft_extends.trans hlast4
      have hlast2 : d2.Extends last := (Actions.of_jumpIfFalse hjump).draft_extends.trans hlast3
      have hfits1 : d1.pool.Fits := (Draft.extends_of_newLabel hnew).fits hfits
      have hfits3 : d3.pool.Fits := (Actions.of_jumpIfFalse hjump).draft_extends.fits
        ((extends_of_emit hcondition).fits hfits1)
      have hfits4 : d4.pool.Fits := (Actions.of_op hpop).draft_extends.fits hfits3
      have hfits6 : d6.pool.Fits := (Actions.of_jump hout).draft_extends.fits
        ((extends_of_emit hbody).fits hfits4)
      have hfits8 : d8.pool.Fits := (Actions.of_op hlastPop).draft_extends.fits
        ((Draft.extends_place hplace).fits hfits6)
      have hcodeCondition := laidOut_of_emit condition hf.1 hfits1 hcondition hlast2
      have hcodePop : LaidOut last d3 d4 [.pop] := .op hpop
      have hcodeBody := laidOut_of_emit body hf.2.1 hfits4 hbody hlast5
      have hcodeEnd : LaidOut last d6 d7 [] := .place hplace
      have hcodeLastPop : LaidOut last d7 d8 [.pop] := .op hlastPop
      have hcodeOthers := laidOut_of_emitBranches after others hf.2.2 hfits8 hothers hlast hafter
      have hafterOut : last.positionOf after
          = some (d6.position + (1 + Item.total (itemsOfBranches rest others) + rest)) := by
        rw [hafter, hcodeOthers.position, hcodeLastPop.position, hcodeEnd.position]
        simp [Nat.add_assoc]
      have hcodeOut := LaidOut.jump_forward hout hlast6 hafterOut (by omega)
      have htarget : last.positionOf next
          = some (d3.position + (Item.total body.items + 3)) := by
        rw [hlast7.placed _ _ (Draft.place_eq_ok hplace).2.1, hcodeOut.position,
          hcodeBody.position, hcodePop.position]
        simp only [Item.total_nil, Item.total_cons, Item.size_pop, Item.size_jump,
          Option.some.injEq]
        omega
      have hcodeJump := LaidOut.jumpIfFalse hjump hlast3 htarget
      exact .after_newLabel hnew (hcodeCondition.append (hcodeJump.cons (hcodePop.cons
        (hcodeBody.append (hcodeOut.cons (.after_place hplace (hcodeLastPop.cons
          hcodeOthers)))))))

end

end Fragment

/-!
## Finished chunks
-/

theorem Draft.finish_eq_ok_iff {d : Draft} {chunkId : ChunkRef -> Except AssembleError UInt8}
    {chunk : Chunk} :
    d.finish chunkId = .ok chunk ↔
      chunk.name = d.name ∧
        List.Forall₂ (fun c k => Draft.finishConstant chunkId c = .ok k)
          d.pool.constants chunk.constants ∧
        d.code = .ok chunk.code := by
  simp only [Draft.finish, bind_eq_ok_iff, pure_eq_ok_iff, mapM_eq_ok_iff]
  constructor
  · rintro ⟨constants, hconstants, code, hcode, rfl⟩
    exact ⟨rfl, hconstants, hcode⟩
  · rintro ⟨hname, hconstants, hcode⟩
    exact ⟨chunk.constants, hconstants, chunk.code, hcode, by rw [← hname]⟩

namespace Fragment

/-- The instructions of a finished chunk stand for the items of the fragment
that filled its draft. -/
theorem code_of_finish {f : Fragment} {inFunction : Bool} {d0 d : Draft} {a a' : Assembler}
    {chunkId : ChunkRef -> Except AssembleError UInt8} {chunk : Chunk}
    (hf : f.Structured inFunction) (hfits : d0.pool.Fits) (hempty : d0.directives = #[])
    (h : f.emit.Yields d0 a () d a') (hfinish : d.finish chunkId = .ok chunk) :
    ∃ instructions, chunk.code = instructions.flatMap Instruction.encode ∧
      List.Forall₂ (Item.Encodes d.pool.constants) f.items instructions := by
  rcases Draft.finish_eq_ok_iff.mp hfinish with ⟨_, _, hcode⟩
  unfold Draft.code at hcode
  by_cases hlength : d.position ≤ maxCodeLength
  · rw [if_pos hlength] at hcode
    simp only [bind_eq_ok_iff, pure_eq_ok_iff, mapM_eq_ok_iff] at hcode
    rcases hcode with ⟨instructions, hresolved, hcode⟩
    refine ⟨instructions, hcode.symm, ?_⟩
    rcases laidOut_of_emit f hf hfits h (.refl d) with ⟨_, directives, hdirectives, hitems⟩
    rw [hempty] at hdirectives
    have hall : d.directives.toList = directives := by simpa using hdirectives
    rw [hall] at hresolved
    exact forall₂_compose (fun item directive i hitem hi => hitem i hi) hitems hresolved
  · rw [if_neg hlength] at hcode
    cases hcode

end Fragment
end StackScript
