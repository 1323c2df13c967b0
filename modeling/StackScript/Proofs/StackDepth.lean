import Mathlib.Logic.Relation
import StackScript.Proofs.FinishedCode

/-!
# Stack depths

How many cells of the stack an instruction takes and leaves, and what it means
that the depths at all places of some code fit together.  Code that is put
together from parts has depths that fit if those of its parts do: this module
has one rule for each way in which fragments are put together.
-/

namespace StackScript

/-!
## Instructions
-/

/-- How many values the operation takes off the stack, the arguments of a call
not counted. -/
def Opcode.pops : Opcode -> Nat
  | pop | setLocal | setGlobal | getField | not | negate | print | call | giveBack => 1
  | setField | equal | greater | less | add | subtract | multiply | divide => 2
  | _ => 0

def Opcode.pushes : Opcode -> Nat
  | constant | null | pushTrue | pushFalse | getLocal | getGlobal | getField | newInstance
  | equal | greater | less | add | subtract | multiply | divide | not | negate | call => 1
  | _ => 0

/-- Whether the operation goes on behind itself and needs no more than the values
that it takes. -/
def Opcode.isStraight : Opcode -> Bool
  | getLocal | setLocal | jumpForward | jumpForwardIfFalse | jumpBackward | call | giveBack => false
  | _ => true

namespace Instruction

def pops (i : Instruction) : Nat :=
  match i.opcode with
  | .call => i.operand + Opcode.pops .call
  | opcode => opcode.pops

def pushes (i : Instruction) : Nat :=
  i.opcode.pushes

def depthAfter (i : Instruction) (depth : Nat) : Nat :=
  depth - i.pops + i.pushes

def targets (i : Instruction) (offset : Nat) : List Nat :=
  match i.opcode with
  | .jumpForward => [offset + 2 + i.operand]
  | .jumpForwardIfFalse => [offset + 2, offset + 2 + i.operand]
  | .jumpBackward => [offset + 2 - i.operand]
  | .giveBack => []
  | _ => [offset + i.byteLength]

/-- With so many cells in use the instruction stays above the lowest one, and a
slot that it reads or writes is in use. -/
structure Fits (i : Instruction) (depth : Nat) : Prop where
  pops : i.pops < depth
  peeks : i.opcode = .jumpForwardIfFalse -> 1 < depth
  reads : i.opcode = .getLocal -> 1 ≤ i.operand ∧ i.operand < depth
  writes : i.opcode = .setLocal -> 1 ≤ i.operand ∧ i.operand < depth - 1

theorem straight_eq {i : Instruction} (h : i.opcode.isStraight = true) :
    i.pops = i.opcode.pops ∧ ∀ start, i.targets start = [start + i.byteLength] := by
  rcases i with ⟨opcode, argument⟩
  cases opcode <;> first | exact ⟨rfl, fun _ => rfl⟩ | cases h

theorem fits_of_straight {i : Instruction} {depth : Nat} (h : i.opcode.isStraight = true)
    (hpops : i.opcode.pops < depth) : i.Fits depth where
  pops := by
    rw [(straight_eq h).1]
    exact hpops
  peeks hopcode := by
    rw [hopcode] at h
    cases h
  reads hopcode := by
    rw [hopcode] at h
    cases h
  writes hopcode := by
    rw [hopcode] at h
    cases h

end Instruction

/-!
## Code
-/

def Follows (code : List UInt8) (offset target : Nat) : Prop :=
  ∃ i, fetch code offset = some i ∧ target ∈ i.targets offset

def Reachable (code : List UInt8) : Nat -> Prop :=
  Relation.ReflTransGen (Follows code) 0

/-- There is one depth for each offset, whichever way control comes there. -/
structure Disciplined (code : List UInt8) (arity : Nat) (depth : Nat -> Nat) : Prop where
  start : depth 0 = 1 + arity
  inside : ∀ offset, Reachable code offset -> offset ≤ code.length
  step : ∀ offset, Reachable code offset -> offset < code.length ->
    ∃ i, fetch code offset = some i ∧ i.Fits (depth offset) ∧
      ∀ target ∈ i.targets offset, depth target = i.depthAfter (depth offset)

/-!
## Items with depths
-/

namespace Item

def Steps (Good : Nat -> Nat -> Prop) (start depth : Nat) (item : Item) : Prop :=
  ∀ constants i, item.ReadAs constants i ->
    i.Fits depth ∧ ∀ target ∈ i.targets start, Good target (i.depthAfter depth)

def Keeps (Good : Nat -> Nat -> Prop) (start : Nat) : List (Item × Nat) -> Prop
  | [] => True
  | (item, depth) :: rest => item.Steps Good start depth ∧ Keeps Good (start + item.size) rest

def Points (after start : Nat) : List (Item × Nat) -> Nat -> Nat -> Prop
  | [], offset, depth => offset = start ∧ depth = after
  | (item, here) :: rest, offset, depth =>
      offset = start ∧ depth = here ∨ Points after (start + item.size) rest offset depth

def entry (after : Nat) : List (Item × Nat) -> Nat
  | [] => after
  | (_, depth) :: _ => depth

variable {Good : Nat -> Nat -> Prop} {start before after offset depth : Nat}
  {points points' : List (Item × Nat)}

theorem points_entry (after start : Nat) (points : List (Item × Nat)) :
    Points after start points start (entry after points) := by
  cases points with
  | nil => exact ⟨rfl, rfl⟩
  | cons point rest => exact Or.inl ⟨rfl, rfl⟩

theorem points_end (after start : Nat) (points : List (Item × Nat)) :
    Points after start points (start + total (points.map Prod.fst)) after := by
  induction points generalizing start with
  | nil => exact ⟨rfl, rfl⟩
  | cons point rest ih =>
      rcases point with ⟨item, here⟩
      rw [List.map_cons, total_cons, ← Nat.add_assoc]
      exact Or.inr (ih _)

theorem points_append :
    Points after start (points ++ points') offset depth ↔
      Points (entry after points') start points offset depth ∨
        Points after (start + total (points.map Prod.fst)) points' offset depth := by
  induction points generalizing start with
  | nil =>
      simp only [List.nil_append, List.map_nil, total_nil, Nat.add_zero, Points]
      constructor
      · exact Or.inr
      · rintro (⟨rfl, rfl⟩ | h)
        · exact points_entry _ _ _
        · exact h
  | cons point rest ih =>
      rcases point with ⟨item, here⟩
      simp only [List.cons_append, Points, ih, List.map_cons, total_cons, Nat.add_assoc, or_assoc]

theorem keeps_append :
    Keeps Good start (points ++ points') ↔
      Keeps Good start points ∧ Keeps Good (start + total (points.map Prod.fst)) points' := by
  induction points generalizing start with
  | nil => simp [Keeps]
  | cons point rest ih =>
      rcases point with ⟨item, here⟩
      simp only [List.cons_append, Keeps, ih, List.map_cons, total_cons, Nat.add_assoc, and_assoc]

theorem entry_append :
    entry after (points ++ points') = entry (entry after points') points := by
  cases points with
  | nil => rfl
  | cons point rest => rfl

/-- The code of the first value of a local: where it starts, what it is, and the
slot of the local. -/
structure Site where
  start : Nat
  items : List Item
  slot : Nat

def Site.finish (site : Site) : Nat :=
  site.start + total site.items

/-- The code is among the items, and right behind it the slot is the highest one
in use. -/
def Site.Among (after start : Nat) (points : List (Item × Nat)) (site : Site) : Prop :=
  ∃ front own back, points = front ++ (own ++ back) ∧ own.map Prod.fst = site.items ∧
    site.start = start + total (front.map Prod.fst) ∧ entry after back = site.slot + 1

theorem Site.Among.left {site : Site} (h : site.Among (entry after points') start points) :
    site.Among after start (points ++ points') := by
  rcases h with ⟨front, own, back, rfl, hown, hstart, hslot⟩
  refine ⟨front, own, back ++ points', by simp, hown, hstart, ?_⟩
  rw [entry_append, hslot]

theorem Site.Among.right {site : Site}
    (h : site.Among after (start + total (points.map Prod.fst)) points') :
    site.Among after start (points ++ points') := by
  rcases h with ⟨front, own, back, rfl, hown, hstart, hslot⟩
  refine ⟨points ++ front, own, back, by simp, hown, ?_, hslot⟩
  rw [hstart, List.map_append, total_append, Nat.add_assoc]

theorem Site.Among.cons {site : Site} {item : Item}
    (h : site.Among after (start + item.size) points) :
    site.Among after start ((item, depth) :: points) := by
  rcases h with ⟨front, own, back, rfl, hown, hstart, hslot⟩
  refine ⟨(item, depth) :: front, own, back, rfl, hown, ?_, hslot⟩
  rw [hstart, List.map_cons, total_cons, Nat.add_assoc]

theorem points_of_among {site : Site} (h : site.Among after start points) :
    Points after start points site.finish (site.slot + 1) := by
  rcases h with ⟨front, own, back, rfl, hown, hstart, hslot⟩
  rw [points_append, points_append, Site.finish, hstart, ← hown, ← hslot]
  exact Or.inr (Or.inr (points_entry _ _ _))

/-- There are depths for the items with which they lead from the first depth to
the second, and these are right for the given sites. -/
def Carries (items : List Item) (before after : Nat) (sites : Nat -> List Site) : Prop :=
  ∃ points : List (Item × Nat), points.map Prod.fst = items ∧ entry after points = before ∧
    (∀ start, ∀ site ∈ sites start, site.Among after start points) ∧
    ∀ start Good, (∀ offset depth, Points after start points offset depth -> Good offset depth) ->
      Keeps Good start points

def noSites (_ : Nat) : List Site := []

namespace Carries

variable {items items' : List Item} {sites sites' : Nat -> List Site} {item : Item}

theorem nil (depth : Nat) : Carries [] depth depth noSites :=
  ⟨[], rfl, rfl, by nofun, fun _ _ _ => trivial⟩

theorem append {middle : Nat} (h : Carries items before middle sites)
    (h' : Carries items' middle after sites') :
    Carries (items ++ items') before after
      (fun start => sites start ++ sites' (start + total items)) := by
  rcases h with ⟨points, rfl, hentry, hsites, hkeeps⟩
  rcases h' with ⟨points', rfl, rfl, hsites', hkeeps'⟩
  refine ⟨points ++ points', List.map_append, ?_, ?_, ?_⟩
  · rw [entry_append, hentry]
  · intro start site hsite
    rcases List.mem_append.mp hsite with hsite | hsite
    · exact (hsites start site hsite).left
    · exact (hsites' _ site hsite).right
  · intro start Good hgood
    simp only [points_append] at hgood
    rw [keeps_append]
    exact ⟨hkeeps start Good fun offset depth h => hgood offset depth (Or.inl h),
      hkeeps' _ Good fun offset depth h => hgood offset depth (Or.inr h)⟩

theorem followed {middle : Nat} (h : Carries items before middle sites)
    (h' : Carries items' middle after noSites) : Carries (items ++ items') before after sites := by
  have happend := h.append h'
  simp only [noSites, List.append_nil] at happend
  exact happend

theorem seq {middle : Nat} (h : Carries items before middle noSites)
    (h' : Carries items' middle after noSites) : Carries (items ++ items') before after noSites :=
  followed h h'

theorem mark {slot : Nat} (h : Carries items before (slot + 1) noSites) :
    Carries items before (slot + 1) (fun start => [{ start, items, slot }]) := by
  rcases h with ⟨points, hitems, hentry, _, hkeeps⟩
  refine ⟨points, hitems, hentry, ?_, hkeeps⟩
  intro start site hsite
  rw [List.mem_singleton] at hsite
  subst hsite
  exact ⟨[], points, [], by simp, hitems, rfl, rfl⟩

theorem single (h : ∀ start constants i, item.ReadAs constants i -> i.Fits before ∧
      i.targets start = [start + item.size] ∧ i.depthAfter before = after) :
    Carries [item] before after noSites := by
  refine ⟨[(item, before)], rfl, rfl, by nofun, ?_⟩
  intro start Good hgood
  refine ⟨?_, trivial⟩
  intro constants i hread
  rcases h start constants i hread with ⟨hfits, htargets, hafter⟩
  refine ⟨hfits, ?_⟩
  rw [htargets, List.forall_mem_singleton, hafter]
  exact hgood _ _ (Or.inr ⟨rfl, rfl⟩)

theorem operation {opcode : Opcode}
    (hread : ∀ constants i, item.ReadAs constants i ->
      i.opcode = opcode ∧ i.byteLength = item.size)
    (hopcode : opcode.isStraight = true) (hpops : opcode.pops < before) :
    Carries [item] before (before - opcode.pops + opcode.pushes) noSites := by
  apply single
  intro start constants i hi
  rcases hread constants i hi with ⟨rfl, hsize⟩
  rw [← hsize, Instruction.depthAfter, (Instruction.straight_eq hopcode).1]
  exact ⟨Instruction.fits_of_straight hopcode hpops, (Instruction.straight_eq hopcode).2 start,
    rfl⟩

theorem op {opcode : Opcode} (hopcode : opcode.isStraight = true) (hpops : opcode.pops < before) :
    Carries [.plain { opcode := opcode }] before (before - opcode.pops + opcode.pushes)
      noSites := by
  apply operation _ hopcode hpops
  rintro constants i rfl
  exact ⟨rfl, rfl⟩

theorem pooled {opcode : Opcode} {c : PoolConstant} (htakes : opcode.takesConstant = true)
    (hpops : opcode.pops < before) :
    Carries [.pooled opcode c] before (before - opcode.pops + opcode.pushes) noSites := by
  apply operation _ _ hpops
  · rintro constants i ⟨index, k, rfl, _⟩
    cases opcode <;> first | exact ⟨rfl, rfl⟩ | cases htakes
  · cases opcode <;> first | rfl | cases htakes

theorem function (hdepth : 0 < before) : Carries [.function] before (before + 1) noSites := by
  have hread : ∀ constants i, Item.function.ReadAs constants i ->
      i.opcode = .constant ∧ i.byteLength = Item.function.size := by
    rintro constants i ⟨index, id, rfl, _⟩
    exact ⟨rfl, rfl⟩
  exact operation hread rfl hdepth

theorem getLocal {slot : UInt8} (hfirst : 1 ≤ slot.toNat) (hslot : slot.toNat < before) :
    Carries [.plain { opcode := .getLocal, argument := some slot }] before (before + 1)
      noSites := by
  apply single
  rintro start constants i rfl
  exact ⟨⟨Nat.zero_lt_of_lt hslot, by nofun, fun _ => ⟨hfirst, hslot⟩, by nofun⟩, rfl, rfl⟩

theorem setLocal {slot : UInt8} (hfirst : 1 ≤ slot.toNat) (hslot : slot.toNat < before) :
    Carries [.plain { opcode := .setLocal, argument := some slot }] (before + 1) before
      noSites := by
  apply single
  rintro start constants i rfl
  exact ⟨⟨Nat.succ_lt_succ (Nat.zero_lt_of_lt hslot), by nofun, by nofun,
    fun _ => ⟨hfirst, hslot⟩⟩, rfl, rfl⟩

theorem call {count : Nat} (hdepth : 0 < before) :
    Carries [.call count] (before + 1 + count) (before + 1) noSites := by
  apply single
  rintro start constants i ⟨rfl, hcount⟩
  have hoperand : (UInt8.ofNat count).toNat = count :=
    UInt8.toNat_ofNat_of_lt' (Nat.lt_of_le_of_lt hcount (by decide))
  have hpops : Instruction.pops { opcode := .call, argument := some (UInt8.ofNat count) } =
      count + 1 := by
    change (UInt8.ofNat count).toNat + 1 = count + 1
    rw [hoperand]
  refine ⟨⟨?_, by nofun, by nofun, by nofun⟩, rfl, ?_⟩
  · rw [hpops]
    omega
  · rw [Instruction.depthAfter, hpops]
    change before + 1 + count - (count + 1) + 1 = before + 1
    omega

/-- Behind the end of a function the depth does not matter. -/
theorem giveBack (hdepth : 1 < before) (after : Nat) :
    Carries [.plain { opcode := .giveBack }] before after noSites := by
  refine ⟨[(_, before)], rfl, rfl, by nofun, ?_⟩
  intro start Good _
  refine ⟨?_, trivial⟩
  rintro constants i rfl
  exact ⟨⟨hdepth, by nofun, by nofun, by nofun⟩, by nofun⟩

theorem pop (hdepth : 0 < before) : Carries [.pop] (before + 1) before noSites :=
  op rfl (Nat.succ_lt_succ hdepth)

end Carries

/-!
### Jumps
-/

theorem steps_jumpForward {distance : Nat} (hdepth : 0 < depth)
    (h : Good (start + 2 + distance) depth) :
    (Item.jump .jumpForward distance).Steps Good start depth := by
  rintro constants i ⟨rfl, hdistance⟩
  refine ⟨⟨hdepth, by nofun, by nofun, by nofun⟩, ?_⟩
  rw [Instruction.targets, operand_jump hdistance, List.forall_mem_singleton]
  exact h

theorem steps_jumpForwardIfFalse {distance : Nat} (hdepth : 1 < depth)
    (hnext : Good (start + 2) depth) (h : Good (start + 2 + distance) depth) :
    (Item.jump .jumpForwardIfFalse distance).Steps Good start depth := by
  rintro constants i ⟨rfl, hdistance⟩
  refine ⟨⟨Nat.zero_lt_of_lt hdepth, fun _ => hdepth, by nofun, by nofun⟩, ?_⟩
  rw [Instruction.targets, operand_jump hdistance, List.forall_mem_cons,
    List.forall_mem_singleton]
  exact ⟨hnext, h⟩

theorem steps_jumpBackward {distance target : Nat} (hdepth : 0 < depth)
    (htarget : target + distance = start + 2) (h : Good target depth) :
    (Item.jump .jumpBackward distance).Steps Good start depth := by
  rintro constants i ⟨rfl, hdistance⟩
  refine ⟨⟨hdepth, by nofun, by nofun, by nofun⟩, ?_⟩
  rw [Instruction.targets, operand_jump hdistance, List.forall_mem_singleton, ← htarget,
    Nat.add_sub_cancel]
  exact h

theorem steps_pop (hdepth : 0 < depth) (h : Good (start + 1) depth) :
    Item.pop.Steps Good start (depth + 1) := by
  rintro constants i rfl
  refine ⟨⟨Nat.succ_lt_succ hdepth, by nofun, by nofun, by nofun⟩, ?_⟩
  exact List.forall_mem_singleton.mpr h

namespace Carries

variable {left right condition body others : List Item} {sites sites' : Nat -> List Site}

/-- The right part is skipped with the value of the left one in place of its
own. -/
theorem both (hdepth : 0 < before) (hleft : Carries left before (before + 1) noSites)
    (hright : Carries right before (before + 1) noSites) :
    Carries (left ++ .jump .jumpForwardIfFalse (1 + total right) :: .pop :: right) before
      (before + 1) noSites := by
  rcases hleft with ⟨points, rfl, hentry, _, hkeeps⟩
  rcases hright with ⟨points', rfl, hentry', _, hkeeps'⟩
  refine ⟨points ++ (_, before + 1) :: (.pop, before + 1) :: points', List.map_append, ?_,
    by nofun, ?_⟩
  · rw [entry_append]
    exact hentry
  · intro start Good hgood
    have hend := hgood _ _ (points_end _ _ _)
    simp only [List.map_append, List.map_cons, total_append, total_cons, size_jump, size_pop]
      at hend
    simp only [points_append, Points, size_jump, size_pop] at hgood
    simp only [keeps_append, Keeps, size_jump, size_pop]
    refine ⟨hkeeps _ _ fun offset depth h => hgood _ _ (Or.inl h), ?_, ?_,
      hkeeps' _ _ fun offset depth h => hgood _ _ (Or.inr (Or.inr (Or.inr h)))⟩
    · apply steps_jumpForwardIfFalse (by omega)
      · exact hgood _ _ (Or.inr (Or.inr (Or.inl ⟨rfl, rfl⟩)))
      · convert hend using 1
        omega
    · apply steps_pop hdepth
      refine hgood _ _ (Or.inr (Or.inr (Or.inr ?_)))
      nth_rewrite 2 [← hentry']
      exact points_entry _ _ _

theorem either (hdepth : 0 < before) (hleft : Carries left before (before + 1) noSites)
    (hright : Carries right before (before + 1) noSites) :
    Carries (left ++ .jump .jumpForwardIfFalse 2 :: .jump .jumpForward (1 + total right) ::
      .pop :: right) before (before + 1) noSites := by
  rcases hleft with ⟨points, rfl, hentry, _, hkeeps⟩
  rcases hright with ⟨points', rfl, hentry', _, hkeeps'⟩
  refine ⟨points ++ (_, before + 1) :: (_, before + 1) :: (.pop, before + 1) :: points',
    List.map_append, ?_, by nofun, ?_⟩
  · rw [entry_append]
    exact hentry
  · intro start Good hgood
    have hend := hgood _ _ (points_end _ _ _)
    simp only [List.map_append, List.map_cons, total_append, total_cons, size_jump, size_pop]
      at hend
    simp only [points_append, Points, size_jump, size_pop] at hgood
    simp only [keeps_append, Keeps, size_jump, size_pop]
    refine ⟨hkeeps _ _ fun offset depth h => hgood _ _ (Or.inl h), ?_, ?_, ?_,
      hkeeps' _ _ fun offset depth h => hgood _ _ (Or.inr (Or.inr (Or.inr (Or.inr h))))⟩
    · apply steps_jumpForwardIfFalse (by omega)
      · exact hgood _ _ (Or.inr (Or.inr (Or.inl ⟨rfl, rfl⟩)))
      · exact hgood _ _ (Or.inr (Or.inr (Or.inr (Or.inl ⟨rfl, rfl⟩))))
    · apply steps_jumpForward (by omega)
      convert hend using 1
      omega
    · apply steps_pop hdepth
      refine hgood _ _ (Or.inr (Or.inr (Or.inr (Or.inr ?_))))
      nth_rewrite 2 [← hentry']
      exact points_entry _ _ _

theorem loop (hdepth : 0 < before) (hcondition : Carries condition before (before + 1) noSites)
    (hbody : Carries body before before sites) :
    Carries (condition ++ .jump .jumpForwardIfFalse (total body + 3) :: .pop ::
        (body ++ [.jump .jumpBackward (total condition + total body + 5), .pop]))
      before before (fun start => sites (start + total condition + 3)) := by
  rcases hcondition with ⟨points, rfl, hentry, _, hkeeps⟩
  rcases hbody with ⟨points', rfl, hentry', hsites, hkeeps'⟩
  refine ⟨points ++ (.jump .jumpForwardIfFalse (total (points'.map Prod.fst) + 3), before + 1) ::
    (.pop, before + 1) :: (points' ++ [(.jump .jumpBackward
      (total (points.map Prod.fst) + total (points'.map Prod.fst) + 5), before),
        (.pop, before + 1)]), by simp, ?_, ?_, ?_⟩
  · rw [entry_append]
    exact hentry
  · intro start site hsite
    exact .right (.cons (.cons (.left (hsites _ site hsite))))
  · intro start Good hgood
    have hstart := hgood _ _ (points_entry _ _ _)
    rw [entry_append] at hstart
    change Good start (entry (before + 1) points) at hstart
    rw [hentry] at hstart
    have hbody := points_entry before (start + total (points.map Prod.fst) + 2 + 1) points'
    rw [hentry'] at hbody
    simp only [points_append, Points, size_jump, size_pop] at hgood
    simp only [keeps_append, Keeps, size_jump, size_pop]
    refine ⟨hkeeps _ _ fun offset depth h => hgood _ _ (Or.inl h), ?_, ?_,
      hkeeps' _ _ fun offset depth h => hgood _ _ (Or.inr (Or.inr (Or.inr (Or.inl h)))), ?_, ?_,
      trivial⟩
    · apply steps_jumpForwardIfFalse (by omega)
      · exact hgood _ _ (Or.inr (Or.inr (Or.inl ⟨rfl, rfl⟩)))
      · refine hgood _ _ (Or.inr (Or.inr (Or.inr (Or.inr (Or.inr (Or.inl ⟨?_, rfl⟩))))))
        omega
    · exact steps_pop hdepth (hgood _ _ (Or.inr (Or.inr (Or.inr (Or.inl hbody)))))
    · apply steps_jumpBackward hdepth _ hstart
      omega
    · apply steps_pop hdepth
      exact hgood _ _ (Or.inr (Or.inr (Or.inr (Or.inr (Or.inr (Or.inr ⟨rfl, rfl⟩))))))

theorem branch (hdepth : 0 < before)
    (hcondition : Carries condition before (before + 1) noSites)
    (hbody : Carries body before before sites) (hothers : Carries others before before sites') :
    Carries (condition ++ .jump .jumpForwardIfFalse (total body + 3) :: .pop ::
        (body ++ .jump .jumpForward (1 + total others) :: .pop :: others))
      before before (fun start => sites (start + total condition + 3) ++
        sites' (start + total condition + total body + 6)) := by
  rcases hcondition with ⟨points, rfl, hentry, _, hkeeps⟩
  rcases hbody with ⟨points', rfl, hentry', hsites, hkeeps'⟩
  rcases hothers with ⟨points'', rfl, hentry'', hsites', hkeeps''⟩
  refine ⟨points ++ (.jump .jumpForwardIfFalse (total (points'.map Prod.fst) + 3), before + 1) ::
    (.pop, before + 1) :: (points' ++ (.jump .jumpForward (1 + total (points''.map Prod.fst)),
      before) :: (.pop, before + 1) :: points''), by simp, ?_, ?_, ?_⟩
  · rw [entry_append]
    exact hentry
  · intro start site hsite
    rcases List.mem_append.mp hsite with hsite | hsite
    · exact .right (.cons (.cons (.left (hsites _ site hsite))))
    · refine .right (.cons (.cons (.right (.cons (.cons ?_)))))
      convert hsites' _ site hsite using 1
      simp only [size_jump, size_pop]
      omega
  · intro start Good hgood
    have hend := hgood _ _ (points_end _ _ _)
    simp only [List.map_append, List.map_cons, total_append, total_cons, size_jump, size_pop]
      at hend
    have hbody := points_entry before (start + total (points.map Prod.fst) + 2 + 1) points'
    rw [hentry'] at hbody
    have hothers := points_entry before
      (start + total (points.map Prod.fst) + 2 + 1 + total (points'.map Prod.fst) + 2 + 1) points''
    rw [hentry''] at hothers
    simp only [points_append, Points, size_jump, size_pop] at hgood
    simp only [keeps_append, Keeps, size_jump, size_pop]
    refine ⟨hkeeps _ _ fun offset depth h => hgood _ _ (Or.inl h), ?_, ?_,
      hkeeps' _ _ fun offset depth h => hgood _ _ (Or.inr (Or.inr (Or.inr (Or.inl h)))), ?_, ?_,
      hkeeps'' _ _ fun offset depth h =>
        hgood _ _ (Or.inr (Or.inr (Or.inr (Or.inr (Or.inr (Or.inr h))))))⟩
    · apply steps_jumpForwardIfFalse (by omega)
      · exact hgood _ _ (Or.inr (Or.inr (Or.inl ⟨rfl, rfl⟩)))
      · refine hgood _ _ (Or.inr (Or.inr (Or.inr (Or.inr (Or.inr (Or.inl ⟨?_, rfl⟩))))))
        omega
    · exact steps_pop hdepth (hgood _ _ (Or.inr (Or.inr (Or.inr (Or.inl hbody)))))
    · apply steps_jumpForward hdepth
      convert hend using 1
      omega
    · apply steps_pop hdepth
      exact hgood _ _ (Or.inr (Or.inr (Or.inr (Or.inr (Or.inr (Or.inr hothers))))))

end Carries

/-!
### One depth for each offset
-/

def depthAt (after start : Nat) : List (Item × Nat) -> Nat -> Nat
  | [], _ => after
  | (item, here) :: rest, offset =>
      if offset = start then here else depthAt after (start + item.size) rest offset

theorem size_pos (item : Item) : 0 < item.size := by
  cases item with
  | plain i => exact Nat.add_pos_left Nat.one_pos _
  | pooled _ _ => exact Nat.two_pos
  | function => exact Nat.two_pos
  | call _ => exact Nat.two_pos
  | jump _ _ => exact Nat.two_pos

theorem bounds_of_points (h : Points after start points offset depth) :
    start ≤ offset ∧ offset ≤ start + total (points.map Prod.fst) := by
  induction points generalizing start with
  | nil =>
      rw [h.1]
      exact ⟨Nat.le_refl _, Nat.le_add_right _ _⟩
  | cons point rest ih =>
      rcases point with ⟨item, here⟩
      rw [List.map_cons, total_cons, ← Nat.add_assoc]
      rcases h with ⟨rfl, rfl⟩ | h
      · exact ⟨Nat.le_refl _, Nat.le_trans (Nat.le_add_right _ _) (Nat.le_add_right _ _)⟩
      · exact ⟨Nat.le_trans (Nat.le_add_right _ _) (ih h).1, (ih h).2⟩

theorem depthAt_eq (h : Points after start points offset depth) :
    depthAt after start points offset = depth := by
  induction points generalizing start with
  | nil => exact h.2.symm
  | cons point rest ih =>
      rcases point with ⟨item, here⟩
      rcases h with ⟨rfl, rfl⟩ | h
      · exact if_pos rfl
      · have hlater : start < offset :=
          Nat.lt_of_lt_of_le (Nat.lt_add_of_pos_right item.size_pos) (bounds_of_points h).1
        rw [depthAt, if_neg (Nat.ne_of_gt hlater)]
        exact ih h

theorem step_of_keeps (hkeeps : Keeps Good start points)
    (h : Points after start points offset depth) :
    (∃ item, (offset, item) ∈ located Item.size start (points.map Prod.fst) ∧
      item.Steps Good offset depth) ∨
    offset = start + total (points.map Prod.fst) ∧ depth = after := by
  induction points generalizing start with
  | nil => exact Or.inr h
  | cons point rest ih =>
      rcases point with ⟨item, here⟩
      rw [List.map_cons, located_cons, total_cons, ← Nat.add_assoc]
      rcases h with ⟨rfl, rfl⟩ | h
      · exact Or.inl ⟨item, List.mem_cons_self, hkeeps.1⟩
      · rcases ih hkeeps.2 h with ⟨item', hitem, hsteps⟩ | hend
        · exact Or.inl ⟨item', List.mem_cons_of_mem _ hitem, hsteps⟩
        · exact Or.inr hend

end Item

/-!
## Chunks
-/

section Chunks

variable {chunk : Chunk} {f : Fragment} {arity after : Nat} {sites : Nat -> List Item.Site}

def Item.Site.Right (chunk : Chunk) (depth : Nat -> Nat) (site : Item.Site) : Prop :=
  chunk.HoldsAt site.start site.items ∧ depth site.finish = site.slot + 1

theorem right_of_among {points : List (Item × Nat)} {site : Item.Site} (hholds : chunk.Holds f)
    (hitems : points.map Prod.fst = f.items) (h : site.Among after 0 points) :
    site.Right chunk (Item.depthAt after 0 points) := by
  refine ⟨?_, Item.depthAt_eq (Item.points_of_among h)⟩
  rcases h with ⟨front, own, back, rfl, hown, hstart, _⟩
  have hcode := hholds.holdsAt
  rw [← hitems, List.map_append, List.map_append, hown] at hcode
  rw [hstart]
  exact hcode.append.2.append.1

/-- If a set of points has the start and each item in it leads to it again, then
control never leaves it. -/
theorem disciplined_of_keeps {points : List (Item × Nat)} {Good : Nat -> Nat -> Prop}
    (hholds : chunk.Holds f) (hitems : points.map Prod.fst = f.items)
    (hpoints : ∀ offset depth, Good offset depth -> Item.Points after 0 points offset depth)
    (hstart : Good 0 (1 + arity)) (hkeeps : Item.Keeps Good 0 points) :
    Disciplined chunk.code arity (Item.depthAt after 0 points) ∧
      ∀ offset, Reachable chunk.code offset ->
        Good offset (Item.depthAt after 0 points offset) := by
  have hdepth : ∀ offset depth, Good offset depth ->
      Item.depthAt after 0 points offset = depth := fun offset depth h =>
    Item.depthAt_eq (hpoints offset depth h)
  have hlength : chunk.code.length = 0 + Item.total (points.map Prod.fst) := by
    rw [hitems, Nat.zero_add]
    exact hholds.length_code
  have hstep : ∀ offset depth, Good offset depth -> offset = chunk.code.length ∨
      offset < chunk.code.length ∧
        ∃ i, fetch chunk.code offset = some i ∧ i.Fits depth ∧
          ∀ target ∈ i.targets offset, Good target (i.depthAfter depth) := by
    intro offset depth h
    rcases Item.step_of_keeps hkeeps (hpoints offset depth h) with ⟨item, hitem, hsteps⟩ | hend
    · have hinside : offset < chunk.code.length := by
        rw [hlength]
        rcases mem_located_iff.mp hitem with ⟨before, after, hsplit, rfl⟩
        rw [hsplit, Item.total_append, Item.total_cons]
        have := item.size_pos
        unfold Item.total
        omega
      rw [hitems] at hitem
      rcases hholds.fetch_eq hitem with ⟨i, hfetch, _, hread⟩
      rcases hsteps _ _ hread with ⟨hfits, htargets⟩
      exact Or.inr ⟨hinside, i, hfetch, hfits, htargets⟩
    · rw [hlength]
      exact Or.inl hend.1
  have hgood : ∀ offset, Reachable chunk.code offset ->
      Good offset (Item.depthAt after 0 points offset) := by
    intro offset hreach
    induction hreach with
    | refl =>
        rw [hdepth _ _ hstart]
        exact hstart
    | tail _ hfollows ih =>
        rcases hfollows with ⟨i, hfetch, htarget⟩
        rcases hstep _ _ ih with hend | ⟨_, j, hfetch', _, htargets⟩
        · rw [hend, fetch_length] at hfetch
          cases hfetch
        · rw [hfetch'] at hfetch
          cases hfetch
          have htarget := htargets _ htarget
          rw [hdepth _ _ htarget]
          exact htarget
  refine ⟨⟨hdepth _ _ hstart, ?_, ?_⟩, hgood⟩
  · intro offset hreach
    rcases hstep _ _ (hgood offset hreach) with hend | ⟨hinside, _⟩
    · exact Nat.le_of_eq hend
    · exact Nat.le_of_lt hinside
  · intro offset hreach hinside
    rcases hstep _ _ (hgood offset hreach) with hend | ⟨_, i, hfetch, hfits, htargets⟩
    · exact absurd hend (Nat.ne_of_lt hinside)
    · exact ⟨i, hfetch, hfits, fun target htarget => hdepth _ _ (htargets target htarget)⟩

theorem disciplined_of_carries (hholds : chunk.Holds f)
    (h : Item.Carries f.items (1 + arity) after sites) :
    ∃ depth, Disciplined chunk.code arity depth ∧ depth chunk.code.length = after ∧
      ∀ site ∈ sites 0, site.Right chunk depth := by
  rcases h with ⟨points, hitems, hentry, hsites, hkeeps⟩
  have hstart := Item.points_entry after 0 points
  have hend := Item.points_end after 0 points
  rw [hentry] at hstart
  rw [hitems, Nat.zero_add, ← hholds.length_code] at hend
  exact ⟨_, (disciplined_of_keeps hholds hitems (fun _ _ h => h) hstart
    (hkeeps 0 _ fun _ _ h => h)).1, Item.depthAt_eq hend,
    fun site hsite => right_of_among hholds hitems (hsites 0 site hsite)⟩

theorem disciplined_of_carries_giveBack {items : List Item} (hholds : chunk.Holds f)
    (hitems : f.items = items ++ [.plain { opcode := .giveBack }]) (hafter : 1 < after)
    (h : Item.Carries items (1 + arity) after sites) :
    ∃ depth, Disciplined chunk.code arity depth ∧ ¬ Reachable chunk.code chunk.code.length ∧
      ∀ site ∈ sites 0, site.Right chunk depth := by
  rcases h with ⟨points, rfl, hentry, hsites, hkeeps⟩
  have hstart := Item.points_entry after 0 points
  rw [hentry] at hstart
  have hpoints : ∀ offset depth, Item.Points after 0 points offset depth ->
      Item.Points 0 0 (points ++ [(.plain { opcode := .giveBack }, after)]) offset depth :=
    fun offset depth h => Item.points_append.mpr (Or.inl h)
  have hlast : Item.Keeps (Item.Points after 0 points) 0
      (points ++ [(.plain { opcode := .giveBack }, after)]) := by
    refine Item.keeps_append.mpr ⟨hkeeps 0 _ fun _ _ h => h, ?_, trivial⟩
    rintro constants i rfl
    exact ⟨⟨hafter, by nofun, by nofun, by nofun⟩, by nofun⟩
  have hmap : (points ++ [((.plain { opcode := .giveBack } : Item), after)]).map Prod.fst =
      f.items := by
    rw [hitems, List.map_append]
    rfl
  rcases disciplined_of_keeps hholds hmap hpoints hstart hlast with ⟨hdisciplined, hgood⟩
  refine ⟨_, hdisciplined, ?_, fun site hsite => right_of_among hholds hmap
    (.left (hsites 0 site hsite))⟩
  intro hreach
  have hinside := (Item.bounds_of_points (hgood _ hreach)).2
  rw [hholds.length_code, hitems, Item.total_append] at hinside
  have : 0 < Item.total [Item.plain { opcode := .giveBack }] := by decide
  omega

end Chunks

end StackScript
