import StackScript.Proofs.SlotLayout
import StackScript.Proofs.StackMachine

/-!
# Variables on the stack

While a program runs, its variables are those that the resolver knows at the
place that is run: the same blocks are open, with the same names in the same
order.  The values of the locals lie on the stack of the machine, so that each
local has the slot that the resolver has given to it.
-/

namespace StackScript

variable {V : Type}

namespace Store

/-!
## Known variables
-/

/-- The store has the variables that the scopes know. -/
structure Fits (scopes : ScopeStack) (s : Store V) : Prop where
  locals : List.Forall₂
    (fun scope block => scope.kind = .block ∧ scope.values.map Prod.fst = block.map Prod.fst)
    scopes.inner s.locals
  globals : ∀ name storage, scopes.bottom.get? name = some storage ->
    storage = .globalName name ∧ ∃ v, s.globals name = some v

namespace Fits

variable {scopes after : ScopeStack} {s s' : Store V} {name : String} {v : V}

theorem empty : Fits (.ofBuiltins []) (Store.empty : Store V) where
  locals := .nil
  globals := by
    intro name storage h
    cases h

theorem openBlock (h : Fits scopes s) : Fits scopes.pushBlock s.openBlock :=
  ⟨.cons ⟨rfl, rfl⟩ h.locals, h.globals⟩

theorem closeBlock {scope : Scope} (h : Fits { scopes with inner := scope :: scopes.inner } s) :
    Fits scopes s.closeBlock := by
  rcases s with ⟨locals, globals⟩
  rcases h with ⟨hlocals, hglobals⟩
  cases hlocals with
  | cons _ hrest => exact ⟨hrest, hglobals⟩

theorem names (h : Fits scopes s) :
    scopes.frame.map Prod.fst = s.locals.flatten.map Prod.fst := by
  rw [ScopeStack.frame]
  have hlocals := h.locals
  revert hlocals
  generalize scopes.inner = inner, s.locals = locals
  intro hlocals
  induction hlocals with
  | nil => rfl
  | cons hblock _ ih =>
      rw [ScopeStack.frameOf_block hblock.1, List.flatten_cons, List.map_append, List.map_append,
        hblock.2, ih]

theorem declare {span : Span} {storage : Storage} (h : Fits scopes s)
    (hdeclare : scopes.declare name span = .ok storage after) (hlaid : scopes.Laid) :
    Fits after (s.declare name v) := by
  rcases scopes with ⟨inner, bottom⟩
  rcases s with ⟨locals, globals⟩
  rcases h with ⟨hlocals, hglobals⟩
  cases hlocals with
  | nil =>
      rcases ScopeStack.declare_bottom rfl hdeclare with ⟨bottom', hbottom, rfl⟩
      rcases Scope.declare_eq_ok hbottom with ⟨_, rfl, rfl⟩ | ⟨hkind, _⟩
      · refine ⟨.nil, ?_⟩
        intro other storage hother
        change List.lookup other ((name, _) :: bottom.values) = some storage at hother
        change storage = .globalName other ∧ ∃ w, globals.set name v other = some w
        rw [List.lookup_cons] at hother
        by_cases hname : other = name
        · subst hname
          rw [beq_self_eq_true] at hother
          cases hother
          exact ⟨rfl, v, if_pos rfl⟩
        · rw [beq_false_of_ne hname] at hother
          rw [Globals.set, if_neg hname]
          exact hglobals other storage hother
      · exact absurd hlaid.kind hkind
  | cons hblock hrest =>
      rcases ScopeStack.declare_top rfl hdeclare with ⟨scope', hscope, rfl⟩
      refine ⟨.cons ?_ hrest, hglobals⟩
      rcases Scope.declare_eq_ok hscope with ⟨hkind, _⟩ | ⟨_, _, _, rfl⟩
      · rw [hblock.1] at hkind
        cases hkind
      · exact ⟨hblock.1, congrArg (name :: ·) hblock.2⟩

end Fits

/-!
## Assignment
-/

theorem replaceIn_of_not_mem {name : String} {v : V} {block : List (String × V)}
    (h : name ∉ block.map Prod.fst) : replaceIn name v block = none := by
  induction block with
  | nil => rfl
  | cons entry rest ih =>
      rw [List.map_cons, List.mem_cons, not_or] at h
      rw [replaceIn, if_neg (Ne.symm h.1), ih h.2]
      rfl

theorem replaceIn_of_split {name : String} {v old : V} {later earlier : List (String × V)}
    (h : name ∉ later.map Prod.fst) :
    replaceIn name v (later ++ (name, old) :: earlier) = some (later ++ (name, v) :: earlier) := by
  induction later with
  | nil =>
      rw [List.nil_append, replaceIn, if_pos rfl]
      rfl
  | cons entry rest ih =>
      rw [List.map_cons, List.mem_cons, not_or] at h
      rw [List.cons_append, replaceIn, if_neg (Ne.symm h.1), ih h.2]
      rfl

theorem replace_of_not_mem {name : String} {v : V} {locals : List (List (String × V))}
    (h : name ∉ locals.flatten.map Prod.fst) : replace name v locals = none := by
  induction locals with
  | nil => rfl
  | cons block rest ih =>
      rw [List.flatten_cons, List.map_append, List.mem_append, not_or] at h
      rw [replace, replaceIn_of_not_mem h.1, ih h.2]
      rfl

/-- The latest local of the name is the one that gets the new value; no other
changes, and no block gets other names. -/
theorem replace_of_split {name : String} {v old : V} {locals : List (List (String × V))}
    {later earlier : List (String × V)} (hsplit : locals.flatten = later ++ (name, old) :: earlier)
    (h : name ∉ later.map Prod.fst) :
    ∃ locals', replace name v locals = some locals' ∧
      locals'.flatten = later ++ (name, v) :: earlier ∧
      List.Forall₂ (fun block block' => block.map Prod.fst = block'.map Prod.fst)
        locals locals' := by
  induction locals generalizing later with
  | nil => simp at hsplit
  | cons block rest ih =>
      rw [List.flatten_cons] at hsplit
      -- The local is in a block further out, or in this one.
      have hplace : (∃ later', later = block ++ later' ∧
            rest.flatten = later' ++ (name, old) :: earlier) ∨
          ∃ own, block = later ++ (name, old) :: own ∧ earlier = own ++ rest.flatten := by
        rcases List.append_eq_append_iff.mp hsplit with hfurther | ⟨own, rfl, hrest⟩
        · exact Or.inl hfurther
        · cases own with
          | nil => exact Or.inl ⟨[], by simp, hrest.symm⟩
          | cons entry own =>
              cases hrest
              exact Or.inr ⟨own, rfl, rfl⟩
      rcases hplace with ⟨later', rfl, hrest⟩ | ⟨own, rfl, rfl⟩
      · rw [List.map_append, List.mem_append, not_or] at h
        rcases ih hrest h.2 with ⟨rest', hreplace, hflatten, hnames⟩
        refine ⟨block :: rest', ?_, ?_, .cons rfl hnames⟩
        · rw [replace, replaceIn_of_not_mem h.1, hreplace]
          rfl
        · rw [List.flatten_cons, hflatten, List.append_assoc]
      · refine ⟨(later ++ (name, v) :: own) :: rest, ?_, ?_, .cons ?_ ?_⟩
        · rw [replace, replaceIn_of_split h]
        · simp
        · simp
        · exact List.forall₂_same.mpr fun _ _ => rfl

/-!
## Found variables
-/

/-- A name that the scopes know is that of a local, at the place that its slot
calls for, or else of a global. -/
theorem Fits.find {scopes : ScopeStack} {s : Store V} {name : String} {storage : Storage}
    (h : s.Fits scopes) (hlaid : scopes.Laid) (hlookup : scopes.lookup name = some storage) :
    (∃ later v earlier, s.locals.flatten = later ++ (name, v) :: earlier ∧
      name ∉ later.map Prod.fst ∧ ∃ slot : UInt8, storage = .localSlot name slot ∧
        slot.toNat = earlier.length + 1) ∨
    (name ∉ s.locals.flatten.map Prod.fst ∧ storage = .globalName name ∧
      ∃ v, s.globals name = some v) := by
  rw [ScopeStack.lookup_eq, Option.or_eq_some_iff] at hlookup
  rcases hlookup with hframe | ⟨hframe, hglobal⟩
  · rcases List.lookup_eq_some_iff.mp hframe with ⟨later, earlier, hsplit, hlater⟩
    have hslotted := hlaid.slotted
    have hnames := h.names
    rw [hsplit] at hslotted hnames
    rcases hslotted.storage_eq with ⟨rfl, hroom⟩
    rw [List.map_append, List.map_cons, eq_comm, List.map_eq_append_iff] at hnames
    rcases hnames with ⟨later', rest, hflatten, hlater', hrest⟩
    rcases List.map_eq_cons_iff.mp hrest with ⟨⟨text, v⟩, earlier', rfl, rfl, hearlier⟩
    refine Or.inl ⟨later', v, earlier', hflatten, ?_, _, rfl, ?_⟩
    · rw [hlater', List.mem_map]
      rintro ⟨entry, hentry, rfl⟩
      simpa using hlater entry hentry
    · have hlength := congrArg List.length hearlier
      rw [List.length_map, List.length_map] at hlength
      rw [ScopeStack.toNat_slot hroom, hlength]
  · refine Or.inr ⟨?_, h.globals name storage hglobal⟩
    rw [← h.names, List.mem_map]
    rintro ⟨entry, hentry, rfl⟩
    simpa using List.lookup_eq_none_iff.mp hframe entry hentry

/-- The memory of the machine when it holds the variables of the store under some
values of unfinished expressions. -/
def memory (callee : V) (values : List V) (s : Store V) : Memory V where
  stack := values ++ (s.locals.flatten.map Prod.snd ++ [callee])
  globals := s.globals

variable {scopes : ScopeStack} {s : Store V} {name : String} {storage : Storage}

theorem Fits.read (h : s.Fits scopes) (hlaid : scopes.Laid)
    (hlookup : scopes.lookup name = some storage) (callee : V) (values : List V) :
    ∃ v, s.get? name = some v ∧
      ((∃ slot, storage = .localSlot name slot ∧
          (s.memory callee values).slot? slot.toNat = some v) ∨
        storage = .globalName name ∧ (s.memory callee values).globals name = some v) := by
  rcases h.find hlaid hlookup with ⟨later, v, earlier, hsplit, hlater, slot, rfl, hslot⟩ | hglobal
  · refine ⟨v, ?_, Or.inl ⟨slot, rfl, ?_⟩⟩
    · have hfound : s.locals.flatten.lookup name = some v := by
        refine List.lookup_eq_some_iff.mpr ⟨later, earlier, hsplit, ?_⟩
        intro entry hentry
        rw [bne_iff_ne]
        rintro rfl
        exact hlater (List.mem_map_of_mem hentry)
      rw [get?, hfound]
      rfl
    · rw [hslot, Memory.slot?, memory, hsplit]
      simp
  · rcases hglobal with ⟨hname, rfl, v, hv⟩
    have hnone : s.locals.flatten.lookup name = none := by
      refine List.lookup_eq_none_iff.mpr ?_
      intro entry hentry
      rw [bne_iff_ne]
      rintro rfl
      exact hname (List.mem_map_of_mem hentry)
    refine ⟨v, ?_, Or.inr ⟨rfl, hv⟩⟩
    rw [get?, hnone]
    exact hv

theorem reverse_set (front back : List V) (old v : V) :
    ((front ++ old :: back).reverse.set back.length v).reverse = front ++ v :: back := by
  rw [List.reverse_append, List.reverse_cons, List.append_assoc, List.set_append_right]
  · simp
  · simp

theorem Fits.write (h : s.Fits scopes) (hlaid : scopes.Laid)
    (hlookup : scopes.lookup name = some storage) (callee v : V) :
    ∃ s', s.assign? name v = some s' ∧ s'.Fits scopes ∧
      ((∃ slot, storage = .localSlot name slot ∧
          (s.memory callee [v]).setSlot? slot.toNat = some (s'.memory callee [])) ∨
        storage = .globalName name ∧
          (s.memory callee [v]).setGlobal? name = some (s'.memory callee [])) := by
  rcases h.find hlaid hlookup with ⟨later, old, earlier, hsplit, hlater, slot, rfl, hslot⟩ | hglobal
  · rcases replace_of_split hsplit hlater with ⟨locals', hreplace, hsplit', hnames⟩
    refine ⟨{ s with locals := locals' }, ?_, ⟨?_, h.globals⟩, Or.inl ⟨slot, rfl, ?_⟩⟩
    · rw [assign?, hreplace]
    · exact forall₂_compose (fun _ _ _ hblock hnames => ⟨hblock.1, hblock.2.trans hnames⟩)
        h.locals hnames
    · have hset := reverse_set (later.map Prod.snd) (earlier.map Prod.snd ++ [callee]) old v
      rw [List.length_append, List.length_map, List.length_singleton, ← hslot] at hset
      simp only [Memory.setSlot?, memory, hsplit, hsplit', List.map_append, List.map_cons,
        List.nil_append, List.append_assoc, List.cons_append]
      rw [if_pos, hset]
      rw [hslot]
      simp
      omega
  · rcases hglobal with ⟨hname, rfl, old, hold⟩
    refine ⟨{ s with globals := s.globals.set name v }, ?_, ⟨h.locals, ?_⟩, Or.inr ⟨rfl, rfl⟩⟩
    · rw [assign?, replace_of_not_mem hname, hold]
      rfl
    · intro other storage hother
      rcases h.globals other storage hother with ⟨rfl, w, hw⟩
      refine ⟨rfl, ?_⟩
      by_cases hsame : other = name
      · exact ⟨v, if_pos hsame⟩
      · exact ⟨w, (if_neg hsame).trans hw⟩

end Store

/-!
## Runs
-/

theorem orWrong_eq_ok_iff {α : Type} {x : Option α} {a : α} : orWrong x = .ok a ↔ x = some a := by
  cases x <;> simp [orWrong]

namespace Interpretation

variable {I : Interpretation V} {r : Resolution} {bound : Nat}

theorem keeps_of_whileLoop {Inv : Store V -> Prop} {test : Store V -> Except Stop V}
    {round : Store V -> Except Stop (Store V)}
    (hround : ∀ s s', Inv s -> round s = .ok s' -> Inv s') {rounds : Nat} {s s' : Store V}
    (hs : Inv s) (h : I.whileLoop test round rounds s = .ok s') : Inv s' := by
  induction rounds generalizing s with
  | zero => cases h
  | succ rounds ih =>
      rw [whileLoop, bind_eq_ok_iff] at h
      rcases h with ⟨v, _, h⟩
      split at h
      · cases h
        exact hs
      · rcases bind_eq_ok_iff.mp h with ⟨next, hnext, h⟩
        exact ih (hround s next hs hnext) h

mutual

theorem fits_of_exec : ∀ (statement : Stmt) {scopes after : ScopeStack} {s s' : Store V},
    r.ResolvesStmt scopes statement after -> scopes.Laid -> s.Fits scopes ->
    I.exec bound statement s = .ok s' -> s'.Fits after
  | .declare name value, _, _, s, s', .declare _ ⟨_, hdeclare, _⟩, hlaid, hfits, h => by
      simp only [exec, bind_eq_ok_iff, pure_eq_ok_iff] at h
      rcases h with ⟨v, _, rfl⟩
      exact hfits.declare hdeclare hlaid
  | .assign target value, _, _, s, s', .assign ⟨_, hlookup, _⟩ _, hlaid, hfits, h => by
      simp only [exec, bind_eq_ok_iff, orWrong_eq_ok_iff] at h
      rcases h with ⟨v, _, hassign⟩
      rcases hfits.write hlaid hlookup v v with ⟨s'', hassign', hfits', _⟩
      cases hassign.symm.trans hassign'
      exact hfits'
  | .choose branches none, _, _, s, s', .choose hbranches _, hlaid, hfits, h => by
      rw [exec] at h
      refine fits_of_execBranches branches hbranches hlaid hfits ?_ h
      intro s'' hs''
      cases hs''
      exact hfits
  | .choose branches (some otherwise), _, _, s, s', .choose hbranches (.some hotherwise), hlaid,
      hfits, h => by
      rw [exec] at h
      exact fits_of_execBranches branches hbranches hlaid hfits
        (fun _ => fits_of_execBlock otherwise hotherwise hlaid hfits) h
  | .loop condition body, _, _, s, s', .loop _ hbody, hlaid, hfits, h => by
      rw [exec] at h
      exact keeps_of_whileLoop
        (fun _ _ hfits hround => fits_of_execBlock body hbody hlaid hfits hround) hfits h
  | .evaluate value, _, _, s, s', .evaluate _, _, hfits, h => by
      simp only [exec, bind_eq_ok_iff, pure_eq_ok_iff] at h
      rcases h with ⟨_, _, rfl⟩
      exact hfits
  | .block body, _, _, s, s', .block hbody, hlaid, hfits, h => by
      rw [exec] at h
      exact fits_of_execBlock body hbody hlaid hfits h
  | .assignField _ _ _, _, _, _, _, _, _, _, h => by cases h
  | .function _ _ _, _, _, _, _, _, _, _, h => by cases h
  | .giveBack _ _, _, _, _, _, _, _, _, h => by cases h

theorem fits_of_execBlock : ∀ (block : Block) {scopes : ScopeStack} {s s' : Store V},
    r.ResolvesBlock scopes block -> scopes.Laid -> s.Fits scopes ->
    I.execBlock bound block s = .ok s' -> s'.Fits scopes
  | { id, statements }, _, s, s', .braces hbody _, hlaid, hfits, h => by
      simp only [execBlock, bind_eq_ok_iff, pure_eq_ok_iff] at h
      rcases h with ⟨last, hlast, rfl⟩
      exact (fits_of_execAll statements hbody hlaid.pushBlock.1 hfits.openBlock hlast).closeBlock

theorem fits_of_execAll : ∀ (statements : List Stmt) {scopes after : ScopeStack} {s s' : Store V},
    r.ResolvesAll scopes statements after -> scopes.Laid -> s.Fits scopes ->
    I.execAll bound statements s = .ok s' -> s'.Fits after
  | [], _, _, s, s', .nil, _, hfits, h => by
      cases h
      exact hfits
  | first :: rest, _, _, s, s', .cons hfirst hrest, hlaid, hfits, h => by
      simp only [execAll, bind_eq_ok_iff] at h
      rcases h with ⟨next, hnext, h⟩
      exact fits_of_execAll rest hrest (Resolution.laid_of_resolvesStmt hfirst hlaid)
        (fits_of_exec first hfirst hlaid hfits hnext) h

theorem fits_of_execBranches : ∀ (branches : List Branch) {scopes : ScopeStack} {s s' : Store V}
    {otherwise : Store V -> Except Stop (Store V)},
    r.ResolvesBranches scopes branches -> scopes.Laid -> s.Fits scopes ->
    (∀ s'', otherwise s = .ok s'' -> s''.Fits scopes) ->
    I.execBranches bound otherwise branches s = .ok s' -> s'.Fits scopes
  | [], _, s, s', _, _, _, _, hotherwise, h => hotherwise s' h
  | { condition, body } :: rest, _, s, s', _, .cons _ hbody hrest, hlaid, hfits, hotherwise, h => by
      simp only [execBranches, bind_eq_ok_iff] at h
      rcases h with ⟨v, _, h⟩
      split at h
      · exact fits_of_execBranches rest hrest hlaid hfits hotherwise h
      · exact fits_of_execBlock body hbody hlaid hfits h

end

end Interpretation

end StackScript
