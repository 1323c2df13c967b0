import StackScript.Proofs.StackMachine

/-!
# Code that does what an evaluation does

How the machine is compared with an evaluation: where that has a result the
machine gets to the matching state, where it goes wrong the machine gets stuck,
and where it is cut short the machine can go on for as many steps as there were
rounds.  For each way in which code is put together there is one rule.
-/

namespace StackScript

variable {V : Type}

/-!
## Leading to an outcome
-/

namespace Interpretation

/-- The machine does what the outcome says.  Where the outcome is left open it
takes so many steps at least. -/
def Leads (I : Interpretation V) (chunk : Chunk) (count : Nat) (m : Machine V) :
    Except Stop (Machine V) -> Prop
  | .ok m' => ∃ k, I.steps chunk k m = some m'
  | .error .wrong => I.GetsStuck chunk m
  | .error .unfinished => ∃ m', I.steps chunk count m = some m'

namespace Leads

variable {I : Interpretation V} {chunk : Chunk} {count : Nat} {m m' : Machine V}
  {outcome : Except Stop (Machine V)}

theorem refl (m : Machine V) : I.Leads chunk count m (.ok m) :=
  ⟨0, rfl⟩

theorem exists_steps_of_le {k k' : Nat} (hle : k ≤ k') (h : ∃ m', I.steps chunk k' m = some m') :
    ∃ m', I.steps chunk k m = some m' := by
  rcases Nat.exists_eq_add_of_le hle with ⟨more, rfl⟩
  rcases h with ⟨m', h⟩
  rw [steps_add] at h
  rcases Option.bind_eq_some_iff.mp h with ⟨middle, hmiddle, _⟩
  exact ⟨middle, hmiddle⟩

theorem mono {count' : Nat} (hle : count' ≤ count) (h : I.Leads chunk count m outcome) :
    I.Leads chunk count' m outcome := by
  match outcome, h with
  | .ok _, h => exact h
  | .error .wrong, h => exact h
  | .error .unfinished, h => exact exists_steps_of_le hle h

theorem after_steps {k : Nat} (hsteps : I.steps chunk k m = some m')
    (h : I.Leads chunk count m' outcome) : I.Leads chunk (k + count) m outcome := by
  have hadd : ∀ more, I.steps chunk (k + more) m = I.steps chunk more m' := by
    intro more
    rw [steps_add, hsteps, Option.bind_some]
  match outcome, h with
  | .ok _, h =>
      rcases h with ⟨more, h⟩
      exact ⟨k + more, (hadd more).trans h⟩
  | .error .wrong, h =>
      rcases h with ⟨more, stuck, h, hstuck⟩
      exact ⟨k + more, stuck, (hadd more).trans h, hstuck⟩
  | .error .unfinished, h =>
      rcases h with ⟨last, h⟩
      exact ⟨last, (hadd count).trans h⟩

theorem succ (hstep : I.step chunk m = some m') (h : I.Leads chunk count m' outcome) :
    I.Leads chunk (count + 1) m outcome := by
  have hone : I.steps chunk 1 m = some m' := by
    rw [steps, hstep]
    rfl
  rw [Nat.add_comm]
  exact after_steps hone h

theorem next (hstep : I.step chunk m = some m') (h : I.Leads chunk count m' outcome) :
    I.Leads chunk count m outcome :=
  (succ hstep h).mono (Nat.le_succ count)

theorem bind {α : Type} {x : Except Stop α} {here : α -> Machine V}
    {rest : α -> Except Stop (Machine V)} (h : I.Leads chunk count m (x.map here))
    (hrest : ∀ a, x = .ok a -> I.Leads chunk count (here a) (rest a)) :
    I.Leads chunk count m (x >>= rest) := by
  match x, h, hrest with
  | .ok a, h, hrest =>
      rcases h with ⟨k, hsteps⟩
      exact (after_steps hsteps (hrest a rfl)).mono (Nat.le_add_left count k)
  | .error .wrong, h, _ => exact h
  | .error .unfinished, h, _ => exact h

theorem andStep {α : Type} {x : Except Stop α} {here there : α -> Machine V}
    (h : I.Leads chunk count m (x.map here))
    (hstep : ∀ a, I.step chunk (here a) = some (there a)) :
    I.Leads chunk count m (x.map there) := by
  have hbind : x.map there = x >>= fun a => .ok (there a) := by cases x <;> rfl
  rw [hbind]
  exact h.bind fun a _ => .next (hstep a) (.refl _)

end Leads

/-!
## Following an evaluation under every bound
-/

section Behaviour

variable {I : Interpretation V} {chunk : Chunk} {m : Machine V} {callee : V}
  {run : Nat -> Except Stop (Globals V)}
  (h : ∀ bound, I.Leads chunk bound m ((run bound).map fun globals =>
    { offset := chunk.code.length, memory := { stack := [callee], globals } }))

include h

theorem haltsWith_of_run {bound : Nat} {globals : Globals V} (hrun : run bound = .ok globals) :
    I.HaltsWith chunk m { stack := [callee], globals } := by
  have hleads := h bound
  rw [hrun] at hleads
  exact hleads

theorem getsStuck_of_run {bound : Nat} (hrun : run bound = .error .wrong) :
    I.GetsStuck chunk m := by
  have hleads := h bound
  rw [hrun] at hleads
  exact hleads

theorem runsForever_of_run (hrun : ∀ bound, run bound = .error .unfinished) :
    I.RunsForever chunk m := by
  intro bound
  have hleads := h bound
  rw [hrun] at hleads
  exact hleads

-- Each way the machine can behave shuts the others out, and one of them there is:
-- so what the machine does the evaluation does too.

theorem haltsWith_iff (memory : Memory V) :
    I.HaltsWith chunk m memory ↔
      memory.stack = [callee] ∧ ∃ bound, run bound = .ok memory.globals := by
  rcases memory with ⟨stack, globals⟩
  constructor
  · intro hhalts
    rcases outcome_cases run with ⟨bound, globals', hrun⟩ | ⟨bound, hrun⟩ | hrun
    · cases hhalts.unique (haltsWith_of_run h hrun)
      exact ⟨rfl, bound, hrun⟩
    · exact absurd (getsStuck_of_run h hrun) hhalts.not_getsStuck
    · exact absurd (runsForever_of_run h hrun) hhalts.not_runsForever
  · rintro ⟨rfl, bound, hrun⟩
    exact haltsWith_of_run h hrun

theorem getsStuck_iff : I.GetsStuck chunk m ↔ ∃ bound, run bound = .error .wrong := by
  constructor
  · intro hstuck
    rcases outcome_cases run with ⟨bound, globals, hrun⟩ | hrun | hrun
    · exact absurd hstuck (haltsWith_of_run h hrun).not_getsStuck
    · exact hrun
    · exact absurd (runsForever_of_run h hrun) hstuck.not_runsForever
  · rintro ⟨bound, hrun⟩
    exact getsStuck_of_run h hrun

theorem runsForever_iff : I.RunsForever chunk m ↔ ∀ bound, run bound = .error .unfinished := by
  constructor
  · intro hforever
    rcases outcome_cases run with ⟨bound, globals, hrun⟩ | ⟨bound, hrun⟩ | hrun
    · exact absurd hforever (haltsWith_of_run h hrun).not_runsForever
    · exact absurd hforever (getsStuck_of_run h hrun).not_runsForever
    · exact hrun
  · exact runsForever_of_run h

end Behaviour

end Interpretation

/-!
## Steps of items
-/

namespace Interpretation

variable {I : Interpretation V} {chunk : Chunk} {count start : Nat} {item : Item}
  {items : List Item} {m : Memory V}

theorem execute_of_not_isJump {i : Instruction} (h : i.opcode.isJump = false)
    (constants : List Constant) (m : Machine V) :
    I.execute constants i m = (I.effect? constants i m.memory).map fun memory =>
      { offset := m.offset + i.byteLength, memory } := by
  rcases i with ⟨opcode, argument⟩
  cases opcode <;> first | rfl | cases h

theorem step_eq {i : Instruction} (hfetch : fetch chunk.code start = some i) :
    I.step chunk { offset := start, memory := m } =
      I.execute chunk.constants i { offset := start, memory := m } := by
  rw [step, hfetch]
  rfl

theorem step_pop (hplaced : chunk.HoldsAt start (.pop :: items)) (v : V) :
    I.step chunk { offset := start, memory := m.push v } =
      some { offset := start + 1, memory := m } := by
  rcases hplaced.cons.1 with ⟨i, hfetch, _, rfl⟩
  rw [step_eq hfetch]
  rfl

theorem step_jumpForward {distance : Nat}
    (hplaced : chunk.HoldsAt start (.jump .jumpForward distance :: items)) :
    I.step chunk { offset := start, memory := m } =
      some { offset := start + 2 + distance, memory := m } := by
  rcases hplaced.cons.1 with ⟨i, hfetch, _, rfl, hdistance⟩
  rw [step_eq hfetch, execute, Item.operand_jump hdistance]
  rfl

theorem step_jumpForwardIfFalse {distance : Nat}
    (hplaced : chunk.HoldsAt start (.jump .jumpForwardIfFalse distance :: items)) (v : V) :
    I.step chunk { offset := start, memory := m.push v } =
      some { offset := if I.isFalse v then start + 2 + distance else start + 2,
             memory := m.push v } := by
  rcases hplaced.cons.1 with ⟨i, hfetch, _, rfl, hdistance⟩
  rw [step_eq hfetch, execute, Item.operand_jump hdistance]
  rfl

theorem step_jumpBackward {distance target : Nat} (htarget : target + distance = start + 2)
    (hplaced : chunk.HoldsAt start (.jump .jumpBackward distance :: items)) :
    I.step chunk { offset := start, memory := m } = some { offset := target, memory := m } := by
  rcases hplaced.cons.1 with ⟨i, hfetch, _, rfl, hdistance⟩
  rw [step_eq hfetch, execute, Item.operand_jump hdistance]
  change some _ = _
  rw [Option.some.injEq, Machine.mk.injEq]
  refine ⟨?_, rfl⟩
  change start + 2 - distance = target
  omega

/-!
## Code that performs an evaluation
-/

/-- Wherever the items stand, the machine goes through them as the evaluation
does, and what is in the memory behind them depends on its result. -/
def Performs {α : Type} (I : Interpretation V) (chunk : Chunk) (count : Nat) (items : List Item)
    (m : Memory V) (x : Except Stop α) (after : α -> Memory V) : Prop :=
  ∀ start, chunk.HoldsAt start items ->
    I.Leads chunk count { offset := start, memory := m }
      (x.map fun a => { offset := start + Item.total items, memory := after a })

namespace Performs

variable {α β : Type} {items' : List Item} {x : Except Stop α} {after : α -> Memory V}

theorem nil {a : α} (h : after a = m) : I.Performs chunk count [] m (.ok a) after := by
  intro start _
  rw [← h]
  exact .refl _

theorem append {next : α -> Except Stop β} {last : β -> Memory V}
    (h : I.Performs chunk count items m x after)
    (h' : ∀ a, x = .ok a -> I.Performs chunk count items' (after a) (next a) last) :
    I.Performs chunk count (items ++ items') m (x >>= next) last := by
  intro start hplaced
  rcases hplaced.append with ⟨hitems, hitems'⟩
  rw [map_bind_eq, Item.total_append, ← Nat.add_assoc]
  exact (h start hitems).bind fun a ha => h' a ha _ hitems'

theorem single {r : Option α}
    (h : ∀ constants i, item.ReadAs constants i ->
      i.opcode.isJump = false ∧ I.effect? constants i m = r.map after) :
    I.Performs chunk count [item] m (orWrong r) after := by
  intro start hplaced
  rcases hplaced.cons.1 with ⟨i, hfetch, hsound, hread⟩
  rcases h _ _ hread with ⟨hjump, heffect⟩
  have hstep : I.step chunk { offset := start, memory := m } =
      (r.map after).map fun memory => { offset := start + i.byteLength, memory } := by
    rw [step_eq hfetch, execute_of_not_isJump hjump, heffect]
  cases r with
  | none =>
      refine ⟨0, _, rfl, ?_, hstep⟩
      rintro rfl
      rw [fetch_length] at hfetch
      cases hfetch
  | some a =>
      rw [(Item.wellFormed_of_readAs hsound hread).2] at hstep
      exact .next hstep (.refl _)

theorem unary {opcode : Opcode} {f : V -> Option V} {x : Except Stop V}
    (h : I.Performs chunk count items m x m.push) (hopcode : opcode.isJump = false)
    (heffect : ∀ constants m, I.effect? constants { opcode := opcode } m = m.unary? f) :
    I.Performs chunk count (items ++ [.plain { opcode := opcode }]) m
      (x >>= fun v => orWrong (f v)) m.push := by
  apply h.append
  intro v _
  apply single
  rintro constants i rfl
  exact ⟨hopcode, heffect constants (m.push v)⟩

theorem binary {opcode : Opcode} {f : V -> V -> Option V} {x y : Except Stop V}
    (h : I.Performs chunk count items m x m.push)
    (h' : ∀ v, I.Performs chunk count items' (m.push v) y (m.push v).push)
    (hopcode : opcode.isJump = false)
    (heffect : ∀ constants m, I.effect? constants { opcode := opcode } m = m.binary? f) :
    I.Performs chunk count (items ++ (items' ++ [.plain { opcode := opcode }])) m
      (x >>= fun left => y >>= fun right => orWrong (f left right)) m.push := by
  apply h.append
  intro left _
  apply (h' left).append
  intro right _
  apply single
  rintro constants i rfl
  exact ⟨hopcode, heffect constants ((m.push left).push right)⟩

variable {left right condition body others : List Item}

/-- Past the first value if it is false, or else on to the second in its
place. -/
theorem both {x y : Except Stop V} (hleft : I.Performs chunk count left m x m.push)
    (hright : I.Performs chunk count right m y m.push) :
    I.Performs chunk count
      (left ++ .jump .jumpForwardIfFalse (1 + Item.total right) :: .pop :: right) m
      (x >>= fun v => if I.isFalse v then .ok v else y) m.push := by
  intro start hplaced
  rcases hplaced.append with ⟨hplacedLeft, hjump⟩
  have hpop := hjump.cons.2
  have hplacedRight := hpop.cons.2
  have hend : start + Item.total (left ++
      .jump .jumpForwardIfFalse (1 + Item.total right) :: .pop :: right) =
      start + Item.total left + 2 + (1 + Item.total right) := by
    simp only [Item.total_append, Item.total_cons, Item.size_jump, Item.size_pop]
    omega
  rw [map_bind_eq, hend]
  refine (hleft start hplacedLeft).bind fun v _ => ?_
  refine .next (step_jumpForwardIfFalse hjump v) ?_
  by_cases hfalse : I.isFalse v = true
  · rw [if_pos hfalse, if_pos hfalse]
    exact .refl _
  · rw [if_neg hfalse, if_neg hfalse, ← Nat.add_assoc]
    exact .next (step_pop hpop v) (hright _ hplacedRight)

/-- Past the first value if it is not false, or else on to the second in its
place. -/
theorem either {x y : Except Stop V} (hleft : I.Performs chunk count left m x m.push)
    (hright : I.Performs chunk count right m y m.push) :
    I.Performs chunk count
      (left ++ .jump .jumpForwardIfFalse 2 :: .jump .jumpForward (1 + Item.total right) ::
        .pop :: right) m
      (x >>= fun v => if I.isFalse v then y else .ok v) m.push := by
  intro start hplaced
  rcases hplaced.append with ⟨hplacedLeft, htest⟩
  have hjump := htest.cons.2
  have hpop := hjump.cons.2
  have hplacedRight := hpop.cons.2
  have hend : start + Item.total (left ++ .jump .jumpForwardIfFalse 2 ::
      .jump .jumpForward (1 + Item.total right) :: .pop :: right) =
      start + Item.total left + 2 + 2 + (1 + Item.total right) := by
    simp only [Item.total_append, Item.total_cons, Item.size_jump, Item.size_pop]
    omega
  rw [map_bind_eq, hend]
  refine (hleft start hplacedLeft).bind fun v _ => ?_
  refine .next (step_jumpForwardIfFalse htest v) ?_
  by_cases hfalse : I.isFalse v = true
  · rw [if_pos hfalse, if_pos hfalse, ← Nat.add_assoc]
    exact .next (step_pop hpop v) (hright _ hplacedRight)
  · rw [if_neg hfalse, if_neg hfalse]
    exact .next (step_jumpForward hjump) (.refl _)

/-- One branch of a choice, and the rest of it.  Its condition is dropped on both
ways. -/
theorem branch {x : Except Stop V} {y z : Except Stop α}
    (hcondition : I.Performs chunk count condition m x m.push)
    (hbody : I.Performs chunk count body m y after)
    (hothers : I.Performs chunk count others m z after) :
    I.Performs chunk count
      (condition ++ .jump .jumpForwardIfFalse (Item.total body + 3) :: .pop ::
        (body ++ .jump .jumpForward (1 + Item.total others) :: .pop :: others)) m
      (x >>= fun v => if I.isFalse v then z else y) after := by
  intro start hplaced
  rcases hplaced.append with ⟨hplacedCondition, htest⟩
  have hpop := htest.cons.2
  rcases hpop.cons.2.append with ⟨hplacedBody, hjump⟩
  have hpop' := hjump.cons.2
  have hplacedOthers := hpop'.cons.2
  have hend : start + Item.total (condition ++
      .jump .jumpForwardIfFalse (Item.total body + 3) :: .pop ::
        (body ++ .jump .jumpForward (1 + Item.total others) :: .pop :: others)) =
      start + Item.total condition + 2 + 1 + Item.total body + 2 + (1 + Item.total others) := by
    simp only [Item.total_append, Item.total_cons, Item.size_jump, Item.size_pop]
    omega
  have hskip : start + Item.total condition + 2 + (Item.total body + 3) =
      start + Item.total condition + 2 + 1 + Item.total body + 2 := by
    omega
  rw [map_bind_eq, hend]
  refine (hcondition start hplacedCondition).bind fun v _ => ?_
  refine .next (step_jumpForwardIfFalse htest v) ?_
  by_cases hfalse : I.isFalse v = true
  · rw [if_pos hfalse, if_pos hfalse, hskip, ← Nat.add_assoc]
    exact .next (step_pop hpop' v) (hothers _ hplacedOthers)
  · rw [if_neg hfalse, if_neg hfalse]
    refine .next (step_pop hpop v) ?_
    exact (hbody _ hplacedBody).andStep fun a => step_jumpForward hjump

/-- The rounds of a loop, each from the start of its code back to it.  A state
of the loop is shown by the memory, and the invariant is what the condition and
the body need. -/
theorem loop {memory : Store V -> Memory V} {Inv : Store V -> Prop}
    {test : Store V -> Except Stop V} {round : Store V -> Except Stop (Store V)}
    (hcondition : ∀ s, Inv s ->
      I.Performs chunk count condition (memory s) (test s) (memory s).push)
    (hbody : ∀ s, Inv s -> I.Performs chunk count body (memory s) (round s) memory)
    (hround : ∀ s s', Inv s -> round s = .ok s' -> Inv s') {s : Store V} (hs : Inv s) :
    I.Performs chunk count
      (condition ++ .jump .jumpForwardIfFalse (Item.total body + 3) :: .pop ::
        (body ++ [.jump .jumpBackward (Item.total condition + Item.total body + 5), .pop]))
      (memory s) (I.whileLoop test round count s) memory := by
  intro start hplaced
  rcases hplaced.append with ⟨hplacedCondition, htest⟩
  have hpop := htest.cons.2
  rcases hpop.cons.2.append with ⟨hplacedBody, hjump⟩
  have hpop' := hjump.cons.2
  have hend : start + Item.total (condition ++
      .jump .jumpForwardIfFalse (Item.total body + 3) :: .pop ::
        (body ++ [.jump .jumpBackward (Item.total condition + Item.total body + 5), .pop])) =
      start + Item.total condition + 2 + 1 + Item.total body + 2 + 1 := by
    simp only [Item.total_append, Item.total_cons, Item.total_nil, Item.size_jump, Item.size_pop]
    omega
  have hskip : start + Item.total condition + 2 + (Item.total body + 3) =
      start + Item.total condition + 2 + 1 + Item.total body + 2 := by
    omega
  have hback : start + (Item.total condition + Item.total body + 5) =
      start + Item.total condition + 2 + 1 + Item.total body + 2 := by
    omega
  rw [hend]
  -- Each round takes a step of its own, the one of the test, so that rounds left
  -- open are steps that can be taken.
  have hrounds : ∀ rounds, rounds ≤ count -> ∀ s, Inv s ->
      I.Leads chunk rounds { offset := start, memory := memory s }
        ((I.whileLoop test round rounds s).map fun s' =>
          { offset := start + Item.total condition + 2 + 1 + Item.total body + 2 + 1,
            memory := memory s' }) := by
    intro rounds
    induction rounds with
    | zero =>
        intro _ s _
        exact ⟨_, rfl⟩
    | succ rounds ih =>
        intro hle s hs
        rw [whileLoop, map_bind_eq]
        refine ((hcondition s hs start hplacedCondition).mono hle).bind fun v _ => ?_
        refine .succ (step_jumpForwardIfFalse htest v) ?_
        by_cases hfalse : I.isFalse v = true
        · rw [if_pos hfalse, if_pos hfalse, hskip]
          exact .next (step_pop hpop' v) (.refl _)
        · rw [if_neg hfalse, if_neg hfalse, map_bind_eq]
          refine .next (step_pop hpop v) ?_
          refine ((hbody s hs _ hplacedBody).mono (Nat.le_of_succ_le hle)).bind fun s' hs' => ?_
          refine .next (step_jumpBackward hback hjump) ?_
          exact ih (Nat.le_of_succ_le hle) s' (hround s s' hs hs')
  exact hrounds count (Nat.le_refl count) s hs

end Performs

end Interpretation

end StackScript
